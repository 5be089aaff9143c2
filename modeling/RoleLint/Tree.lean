/- Syntax trees of source files, as the analysis sees them. A node has a kind,
   the byte span it covers, the field it fills in its parent and its children
   in source order; everything the analysis does not tell apart is `other`.

   1. `Kind`, `Field`, `Tree` - the data.
   2. views of one node: kind, span, children, named children, the child that
      fills a field, the first child that is not a comment.
   3. `Tree.branch` and `Tree.leaf` - how the parser builds nodes.

   Correspondence:
     `tree_sitter::Node`                 ↔ `Tree`
     `rag_ts::syntax::NodeKind`          ↔ `Kind` (`is_function_like` ↔ `isFunctionLike`)
     `rag_ts::syntax::first_expression`  ↔ `firstExpression?` -/
namespace RoleLint

/-- What a node of the tree is. -/
inductive Kind where
  /-- `function f() {}`, also generators and signatures without a body. -/
  | functionDeclaration
  /-- `function () {}` used as a value, also generators. -/
  | functionExpression
  /-- `() => x` -/
  | arrowFunction
  /-- A method of a class or of an object literal. -/
  | method
  /-- `name = value` in a `const`, `let` or `var` declaration. -/
  | declarator
  /-- `( x )` -/
  | parenthesized
  /-- `f(x)`, also tagged templates. -/
  | call
  /-- `a.b` and `a?.b` -/
  | member
  /-- `a[b]` -/
  | subscript
  /-- `new A(x)` -/
  | construction
  /-- `a!` -/
  | asserted
  /-- `await x` -/
  | awaited
  /-- A template literal. -/
  | template
  /-- `return x;` -/
  | returned
  /-- A markup element, self-closing or with children, or a fragment. -/
  | markup
  /-- `{ ... }` as a statement or a function body. -/
  | block
  /-- A plain name. -/
  | identifier
  /-- A comment. -/
  | comment
  /-- Text that fits no rule of the grammar. -/
  | error
  /-- A token that the grammar requires and the text lacks. -/
  | missing
  /-- Anything else. -/
  | other
  deriving DecidableEq, Repr, Inhabited

/-- Kinds that open a function scope of their own. -/
def Kind.isFunctionLike : Kind → Bool
  | .functionDeclaration | .functionExpression | .arrowFunction | .method => true
  | _ => false

/-- Kinds that mark a place where the text does not fit the grammar. -/
def Kind.isFault : Kind → Bool
  | .error | .missing => true
  | _ => false

/-- The part a child plays in its parent, where the analysis asks for it. -/
inductive Field where
  | name
  | body
  | value
  | arguments
  | callee
  | object
  deriving DecidableEq, Repr

/-- A syntax tree. `named` is false for bare tokens; `flawed` says that the node
    is, or has somewhere below it, a place that does not fit the grammar. -/
inductive Tree where
  | node (kind : Kind) (field : Option Field) (named : Bool) (start stop : Nat)
      (flawed : Bool) (children : List Tree)
  deriving Inhabited

namespace Tree

/-- The kind of a node. -/
def kind : Tree → Kind
  | node k _ _ _ _ _ _ => k

/-- The field that a node fills in its parent. -/
def field : Tree → Option Field
  | node _ f _ _ _ _ _ => f

/-- Whether a node is more than a bare token. -/
def named : Tree → Bool
  | node _ _ n _ _ _ _ => n

/-- The byte offset at which a node starts. -/
def start : Tree → Nat
  | node _ _ _ s _ _ _ => s

/-- The byte offset at which a node ends. -/
def stop : Tree → Nat
  | node _ _ _ _ e _ _ => e

/-- Whether a fault is recorded at the node or below it. -/
def flawed : Tree → Bool
  | node _ _ _ _ _ b _ => b

/-- The children of a node, in source order. -/
def children : Tree → List Tree
  | node _ _ _ _ _ _ cs => cs

/-- The children of a node that are more than bare tokens. -/
def namedChildren (t : Tree) : List Tree :=
  t.children.filter named

/-- The first child that fills the field `f`. -/
def child? (t : Tree) (f : Field) : Option Tree :=
  t.children.find? fun c => c.field == some f

/-- The first named child that is not a comment. -/
def firstExpression? (t : Tree) : Option Tree :=
  t.namedChildren.find? fun c => c.kind != .comment

/-- The node, filling the field `f` of its parent. -/
def filling (t : Tree) (f : Field) : Tree :=
  match t with
  | node k _ n s e b cs => node k (some f) n s e b cs

/-- A named node over `children`; it is flawed if one of them is. -/
def branch (kind : Kind) (start stop : Nat) (children : List Tree) : Tree :=
  node kind none true start stop (kind.isFault || children.any flawed) children

/-- A named node without children. -/
def leaf (kind : Kind) (start stop : Nat) : Tree :=
  branch kind start stop []

end Tree

end RoleLint
