import RoleLint.Descriptor

/- Findings: that a function breaks a rule, and where.

   1. `Severity`, `Violation` and its one-line text.
   2. `Violation.le`, `sortViolations` - the order of reports.

   Correspondence: `rag_core::types`: `Severity`, `FunctionRef`, `Violation` ↔ the types with
   these names; `rag_core::reporter::sort_violations` ↔ `sortViolations`. -/
namespace RoleLint

/-- How serious a finding is. -/
inductive Severity where
  | warning
  | error
  deriving DecidableEq, Repr, Inhabited

namespace Severity

/-- The severity's name. -/
def name : Severity → String
  | warning => "warning"
  | error => "error"

/-- All severities. -/
def all : List Severity := [warning, error]

end Severity

/-- Name and role of the function that a finding is about. -/
structure FunctionRef where
  name : String
  kind : Role
  deriving DecidableEq, Repr, Inhabited

/-- The reference to a described function. -/
def Descriptor.ref (d : Descriptor) : FunctionRef :=
  ⟨d.name, d.role⟩

/-- A finding. -/
structure Violation where
  ruleId : String
  message : String
  severity : Severity
  function : FunctionRef
  /-- The first place that breaks the rule. -/
  location : Location
  deriving DecidableEq, Repr, Inhabited

namespace Violation

/-- The finding in one line, with the column counted from zero. -/
def text (v : Violation) : String :=
  v.location.text ++ ": " ++ v.severity.name ++ " [" ++ v.ruleId ++ "] " ++ v.message ++
    " (in " ++ v.function.kind.name ++ " `" ++ v.function.name ++ "`)"

/-- Whether `a` may stand before `b` in a report: by line, column and rule. Rules
    go by the characters of their identifiers, which is the order of their bytes
    in UTF-8 as well. -/
def le (a b : Violation) : Bool :=
  if a.location == b.location then decide (a.ruleId ≤ b.ruleId)
  else a.location.le b.location

end Violation

/-- Findings in the order of reports; equal ones keep the order they come in. -/
def sortViolations (vs : List Violation) : List Violation :=
  vs.mergeSort Violation.le

end RoleLint
