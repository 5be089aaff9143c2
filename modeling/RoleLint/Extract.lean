import RoleLint.Descriptor
import RoleLint.Source
import RoleLint.Walk

/- From a syntax tree to the functions it declares.

   1. `unwrapFunction` - the function that a variable's value stands for, seen
      through parentheses and wrapper calls.
   2. `networkCallee?`, `apiCalls` - the network calls in the scope of a body.
   3. `firstMarkup?`, `markupReturns` - the markup that a body returns.
   4. `describe?`, `descriptors` - the functions of a tree, in preorder.

   Correspondence with `rag_ts::javascript`:
     `unwrap_function`                  ↔ `unwrapFunction`
     `network_callee`, `find_api_calls` ↔ `networkCallee?`, `apiCalls`
     `first_markup`, `find_jsx_returns` ↔ `firstMarkup?`, `markupReturns`
     `JsExtractor::describe`, `build`   ↔ `describe?`, `descriptorOf` -/
namespace RoleLint

/-! ## Functions behind values -/

mutual

/-- The function that a value stands for. Parentheses stand for what they hold, and
    a call for the first of its arguments that stands for a function. -/
def unwrapFunction : Tree → Option Tree
  | .node kind field named start stop flawed cs =>
    match kind with
    | .functionExpression | .arrowFunction =>
      some (.node kind field named start stop flawed cs)
    | .parenthesized => unwrapFirst cs
    | .call => unwrapArguments cs
    | _ => none

/-- The function that the first expression of a list stands for. -/
def unwrapFirst : List Tree → Option Tree
  | [] => none
  | t :: ts => if t.named && t.kind != .comment then unwrapFunction t else unwrapFirst ts

/-- The function that the arguments among the children of a call stand for. -/
def unwrapArguments : List Tree → Option Tree
  | [] => none
  | .node _ field _ _ _ _ cs :: ts =>
    if field == some .arguments then unwrapAny cs else unwrapArguments ts

/-- The function that the first fitting named tree of a list stands for. -/
def unwrapAny : List Tree → Option Tree
  | [] => none
  | t :: ts =>
    if t.named then
      match unwrapFunction t with
      | some f => some f
      | none => unwrapAny ts
    else unwrapAny ts

end

/-! ## Network calls -/

/-- Functions that are network calls by name. -/
def networkNames : List String := ["fetch", "axios"]

/-- The object whose members are all network calls. -/
def networkClient : String := "axios"

namespace Source

/-- The text of a node. -/
def textOf (s : Source) (t : Tree) : String :=
  s.slice t.start t.stop

/-- Where a node starts. -/
def locationOf (s : Source) (t : Tree) : Location :=
  s.locate t.start

/-- Whether a node is the name of the network client. -/
def isClient (s : Source) (t : Tree) : Bool :=
  t.kind == .identifier && s.textOf t == networkClient

/-- Whether calling the node is a network call. -/
def isNetworkCallee (s : Source) (callee : Tree) : Bool :=
  match callee.kind with
  | .identifier => networkNames.contains (s.textOf callee)
  | .member => ((callee.child? .object).map s.isClient).getD false
  | _ => false

end Source

/-- What a call calls, without an `await` around it: in the typed languages the
    word before a call with type arguments is part of what is called. -/
def calledNode? (call : Tree) : Option Tree :=
  match call.child? .callee with
  | none => none
  | some callee => if callee.kind == .awaited then callee.firstExpression? else some callee

/-- What a call calls, if that is a network call. A template after a name calls it
    without arguments, which does not count. -/
def networkCallee? (s : Source) (call : Tree) : Option Tree :=
  match call.child? .arguments with
  | none => none
  | some args =>
    if args.kind == .template then none
    else (calledNode? call).filter s.isNetworkCallee

/-- Record the call at a node, if it is a network call. -/
def recordCall (s : Source) : Visitor (List Location) := fun t found =>
  if t.kind == .call then
    match networkCallee? s t with
    | some callee => (.descend, found ++ [s.locationOf callee])
    | none => (.descend, found)
  else (.descend, found)

/-- The network calls in the scope of a body, in source order. -/
def apiCalls (s : Source) (body : Tree) : List Location :=
  walkScope (recordCall s) body []

/-! ## Returned markup -/

/-- Keep the first markup and look no further. -/
def recordMarkup : Visitor (Option Tree) := fun t found =>
  match found with
  | some m => (.skip, some m)
  | none => if t.kind == .markup then (.skip, some t) else (.descend, none)

/-- The first markup in the scope of a node. -/
def firstMarkup? (root : Tree) : Option Tree :=
  walkScope recordMarkup root none

/-- Record the markup that a node returns, if it returns some. -/
def recordReturn (s : Source) : Visitor (List Location) := fun t found =>
  if t.kind == .returned then
    match t.firstExpression?.bind firstMarkup? with
    | some m => (.descend, found ++ [s.locationOf m])
    | none => (.descend, found)
  else (.descend, found)

/-- The markup that a body returns, in source order. A body that is no block is
    itself what is returned. -/
def markupReturns (s : Source) (body : Tree) : List Location :=
  if body.kind == .block then walkScope (recordReturn s) body []
  else ((firstMarkup? body).map s.locationOf).toList

/-! ## Descriptors -/

/-- The descriptor of the function called `name` with the given body. -/
def descriptorOf (s : Source) (name : Tree) (body : Option Tree) : Descriptor :=
  let d := Descriptor.ofName (s.textOf name) (s.locationOf name)
  match body with
  | none => d
  | some b => { d with apiCalls := apiCalls s b, markupReturns := markupReturns s b }

/-- The descriptor of a node that declares a function: by itself, or as a variable
    with a plain name whose value stands for a function. -/
def describe? (s : Source) (t : Tree) : Option Descriptor :=
  match t.kind with
  | .functionDeclaration =>
    (t.child? .name).map fun name => descriptorOf s name (t.child? .body)
  | .declarator =>
    match t.child? .name, t.child? .value with
    | some name, some value =>
      if name.kind == .identifier then
        (unwrapFunction value).map fun f => descriptorOf s name (f.child? .body)
      else none
    | _, _ => none
  | _ => none

/-- Record the function that a node declares, if it declares one. -/
def recordFunction (s : Source) : Visitor (List Descriptor) := fun t found =>
  (.descend, found ++ (describe? s t).toList)

/-- The functions that a tree declares, in source order. -/
def descriptors (s : Source) (root : Tree) : List Descriptor :=
  walk (recordFunction s) root []

end RoleLint
