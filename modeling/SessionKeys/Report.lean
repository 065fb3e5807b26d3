import SessionKeys.Budget
import SessionKeys.Calendar
import SessionKeys.Failure
import SessionKeys.Permission
import SessionKeys.ValidityWindow

/-!
Values and results as they are shown to people: budgets, limits, times, whole permissions, and the
texts that report success or failure. A time that has no date cannot be shown.
-/

namespace SessionKeys

/-- Named values under a headline, in order. -/
abbrev Details := List (String × String)

/-- A budget as it is shown. -/
def budgetText (budget : Int) : String :=
  if budget = unlimited then "Unlimited" else toString budget

/-- A spending limit as it is shown; a token without one is unrestricted. -/
def limitText : Option SpendingLimitInfo → String
  | none => "No limit (unrestricted)"
  | some info => s!"{info.spent} / {info.allowance} spent ({info.allowance - info.spent} left)"

/-- The last millisecond, counted from 1970 in either direction, that has a date. -/
def lastDatedMillisecond : Nat := 8640000000000000

/-- A time as it is shown, in milliseconds from the start of 1970. -/
def momentText (milliseconds : Int) : Except Failure String :=
  if lastDatedMillisecond < milliseconds.natAbs then .error .dateOutOfRange
  else .ok (timeText milliseconds)

/-- A bound of a window as it is shown; zero is no bound. Milliseconds are rounded to 64 binary digits,
and what is left of them behind the point is cut off. -/
def boundText : Number → Except Failure String
  | .infinite _ => .error .dateOutOfRange
  | .finite seconds =>
    if seconds = 0 then .ok "Unbounded"
    else
      match Binary64.ofRat (1000 * seconds) with
      | .finite milliseconds => momentText (milliseconds.num.tdiv milliseconds.den)
      | .infinite _ => .error .dateOutOfRange

def OperatorPermission.details (p : OperatorPermission) : Except Failure Details := do
  let validAfter ← boundText p.validAfter
  let validUntil ← boundText p.validUntil
  return [("Session root", p.sessionRoot.text), ("Paymaster", p.paymaster.text),
    ("Valid after", validAfter), ("Valid until", validUntil),
    ("Gas remaining", budgetText p.gasRemaining), ("Uses remaining", budgetText p.timesRemaining)]

def ValidationData.details (d : ValidationData) : Except Failure Details := do
  let validAfter ← boundText d.validAfter
  let validUntil ← boundText d.validUntil
  return [("Result", if d.failed then "Signature failed" else "Authorized"),
    ("Valid after", validAfter), ("Valid until", validUntil)]

/-! ### Results -/

/-- A headline with what belongs to it. -/
def withDetails (headline : String) (details : Details) : String :=
  if details.isEmpty then headline
  else headline ++ "\n" ++ String.join (details.map fun d => s!"\n  {d.1}: {d.2}")

/-- The text of something that succeeded. -/
def successText (message : String) (details : Details) : String :=
  withDetails s!"✅ {message}" details

/-- The text of something that was done and gave a refusal. -/
def refusalText (message : String) (details : Details) : String :=
  withDetails s!"❌ {message}" details

namespace ErrorReport

/-- The text of a failure of something, without a code. -/
def plainText (report : ErrorReport) (context : String) : String :=
  s!"❌ {context} failed: {report.message}"

/-- The text of a failure of something, with the code if there is one. -/
def text (report : ErrorReport) (context : String) : String :=
  match report.code? with
  | some code => s!"{report.plainText context} [{code}]"
  | none => report.plainText context

end ErrorReport

end SessionKeys
