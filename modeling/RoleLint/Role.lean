/- The role of a function, which its name alone decides.

   Correspondence with `rag_core::types`: `Role::from_name`, `is_hook_name`,
   `is_component_name` ↔ `ofName`, `isHookName`, `isComponentName`. -/
namespace RoleLint

/-- What a function is for. -/
inductive Role where
  /-- Renders something. -/
  | component
  /-- Reusable logic that renders nothing. -/
  | hook
  /-- Everything else. -/
  | utility
  deriving DecidableEq, Repr, Inhabited

namespace Role

/-- The role's name. -/
def name : Role → String
  | component => "component"
  | hook => "hook"
  | utility => "utility"

/-- All roles. -/
def all : List Role := [component, hook, utility]

/-- Hooks are called `use` followed by a capital letter. -/
def isHookName : List Char → Bool
  | 'u' :: 's' :: 'e' :: c :: _ => c.isUpper
  | _ => false

/-- Components start with a capital letter. -/
def isComponentName : List Char → Bool
  | c :: _ => c.isUpper
  | [] => false

/-- The role of a function called `name`. Capital letters are `A` to `Z`. -/
def ofName (name : String) : Role :=
  if isHookName name.toList then hook
  else if isComponentName name.toList then component
  else utility

end Role

end RoleLint
