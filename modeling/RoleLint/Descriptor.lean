import RoleLint.Location
import RoleLint.Role

/- What is known about a function once its file has been read.

   Correspondence: `rag_core::types::FunctionDescriptor` ↔ `Descriptor`, and its `new` ↔
   `ofName`. -/
namespace RoleLint

/-- A function found in a file. -/
structure Descriptor where
  /-- The name it is bound to. -/
  name : String
  role : Role
  /-- Where the name stands. -/
  location : Location
  /-- The network calls that the function makes itself, in source order. -/
  apiCalls : List Location
  /-- The markup that the function itself returns, in source order. -/
  markupReturns : List Location
  deriving DecidableEq, Repr, Inhabited

/-- The descriptor of a function without calls and returns. -/
def Descriptor.ofName (name : String) (location : Location) : Descriptor :=
  ⟨name, Role.ofName name, location, [], []⟩

end RoleLint
