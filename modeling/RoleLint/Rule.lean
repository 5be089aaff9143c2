import RoleLint.Violation

/- Rules look at one function at a time and report at most one finding each.

   1. `Rule` and the rules that are built in.
   2. `report` - the findings of some rules over some functions.

   Correspondence:
     `rag_core::rule::Rule`                       ↔ `Rule`
     `NoDirectApiInComponent` of `rag_rules`      ↔ `noDirectApi`
     `NoMarkupInHook` of `rag_rules`              ↔ `noMarkup`
     `rag_rules::presets::all_rules`              ↔ `Rule.all`
     `rag_core::reporter::Reporter::report`       ↔ `report` -/
namespace RoleLint

/-- A rule. -/
structure Rule where
  id : String
  /-- What the rule forbids, in one sentence. -/
  description : String
  severity : Severity
  /-- The finding about a function that breaks the rule. -/
  check : Descriptor → Option Violation

namespace Rule

/-- A finding about the first of `sites`, if there is one and the function has the
    role that the rule is about. -/
def firstSite (id message : String) (severity : Severity) (role : Role)
    (sites : Descriptor → List Location) (d : Descriptor) : Option Violation :=
  if d.role == role then
    (sites d).head?.map fun site => ⟨id, message, severity, d.ref, site⟩
  else none

/-- Components do not call the network themselves. -/
def noDirectApi (severity : Severity) : Rule where
  id := "no-direct-api-in-component"
  description := "Forbids direct network calls (fetch, axios) in component bodies"
  severity := severity
  check := firstSite "no-direct-api-in-component" "React component should not call API directly"
    severity .component Descriptor.apiCalls

/-- Hooks return no markup. -/
def noMarkup (severity : Severity) : Rule where
  id := "no-markup-in-hook"
  description := "Forbids hooks from returning JSX markup"
  severity := severity
  check := firstSite "no-markup-in-hook" "Hooks must not return JSX" severity .hook
    Descriptor.markupReturns

/-- The rules that are built in. -/
def all : List Rule := [noDirectApi .error, noMarkup .error]

end Rule

/-- The findings of `rules` over `functions`, function by function and rule by rule. -/
def findings (rules : List Rule) (functions : List Descriptor) : List Violation :=
  functions.flatMap fun d => rules.filterMap fun r => r.check d

/-- The findings of `rules` over `functions` in the order of reports. -/
def report (rules : List Rule) (functions : List Descriptor) : List Violation :=
  sortViolations (findings rules functions)

end RoleLint
