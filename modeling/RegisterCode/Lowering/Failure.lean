import RegisterCode.Source.Span

/-!
# Failures

Errors after sections 7 and 10.6 of the specification (`SPEC_FULL.md`). Compilation fails at the
first node it does not accept. Such a rejection names the node's place and what is wrong with it. A
source unit whose references lead nowhere, or in circles, fails otherwise.

Out of scope: what happens in an endless recursion. A node that contains itself fails as `cyclic`.
-/

namespace RegisterCode

/-- Why a source unit is not accepted. -/
inductive Rejection where
  /-- A name that no open scope binds. -/
  | undefinedVariable (name : String) (span : Span)
  /-- A construct that has no code; `text` shows the node. -/
  | unsupported (construct text : String) (span : Span)
  deriving DecidableEq

namespace Rejection

/-- Where the node stands that is not accepted. -/
def span : Rejection → Span
  | .undefinedVariable _ span | .unsupported _ _ span => span

/-- The text of a rejection. -/
def message : Rejection → String
  | .undefinedVariable name _ => "undefined variable `" ++ name ++ "`"
  | .unsupported construct text _ => "unsupported " ++ construct ++ " in lowering: " ++ text

end Rejection

/-- How compilation can fail. -/
inductive Failure where
  /-- The source unit is not accepted. -/
  | rejected (r : Rejection)
  /-- The source unit refers to something that is not there. -/
  | fault (f : Fault)
  /-- A node contains itself. -/
  | cyclic
  deriving DecidableEq

end RegisterCode
