import SessionKeys.Predicate.Wire
import SessionKeys.Session

/-!
Checking one call of the wallet against the session that claims to authorise it: the target, the
selector, whether the presented arguments are those of the call byte for byte, and the predicates.
-/

namespace SessionKeys

/-- The selector of a session that allows a plain transfer of value. -/
def fallbackSelector : Hex :=
  Hex.ofBytes [0, 0, 0, 0]

/-- The selector of a call; that of a plain transfer if there is no call data. -/
def calledSelector (data : Hex) : Except Refusal Hex :=
  if data.size = 0 then .ok fallbackSelector
  else if data.size < 4 then .error .shortCallData
  else .ok (data.take 4)

/-- Whether the presented arguments are those of a call. No arguments at all can be presented for a
call without value and without argument bytes; otherwise the first one is left to be compared with
the value, and the others make up the argument bytes. -/
def presentsCall (actual : List Hex) (data : Hex) (value : Int) : Bool :=
  match actual with
  | [] => value == 0 && data.drop 4 == .empty
  | _ :: arguments => (Hex.join arguments).same (data.drop 4)

/-- Checks a call against a session. -/
def checkArguments (s : Session) (target : Address) (data : Hex) (value : Int)
    (actualArguments : Hex) : Except Failure Unit := do
  unless ← orFail (s.target.same target) do throw (.refused (.wrongTarget s.target target))
  let selector ← orFail (calledSelector data)
  unless selector.same s.selector do throw (.refused (.wrongSelector s.selector selector))
  let actual ← orFail (decodeActualArguments actualArguments)
  unless presentsCall actual data value do throw (.refused .calldataMismatch)
  unless ← isAllowedCalldata s.allowedArguments actualArguments value do
    throw (.refused .argumentsNotAllowed)

end SessionKeys
