import SessionKeys.Permission
import SessionKeys.Predicate.Wire
import SessionKeys.Schema.Value
import SessionKeys.Session
import SessionKeys.UserOperation

/-!
Readers of the records that are handed in: predicates, sessions, permissions, spending limits and user
operations. Unknown fields are ignored.
-/

namespace SessionKeys.Reader

/-! ### Predicates -/

def comparisons : List (String × Comparison) :=
  [Comparison.ne, .eq, .gt, .lt].map fun c => (c.name, c)

def connectives : List (String × Connective) :=
  [Connective.and, .or].map fun c => (c.name, c)

/-- The predicate that always holds. -/
def anyPredicate (path : Path) (fields : List (String × Json)) : Reading Predicate :=
  (fun _ => .any) <$> field (choice [(PredicateTag.any.name, ())]) "op" path fields

/-- A comparison with a literal. -/
def comparison (path : Path) (fields : List (String × Json)) : Reading Predicate :=
  .compare <$> field (choice comparisons) "op" path fields <*> field hex "value" path fields

mutual

/-- A predicate: the one that always holds, a comparison, or a connective with at least two
children. -/
def predicateOf (path : Path) : Json → Reading Predicate
  | .object fields =>
    .firstOf path
      [anyPredicate path fields,
       comparison path fields,
       .combine <$> field (choice connectives) "op" path fields <*> childrenOf path fields]
  | _ => .fail path .noReading

/-- The children of a connective, from the fields of its object. -/
def childrenOf (path : Path) : List (String × Json) → Reading (List Predicate)
  | [] => .fail (path ++ [.key "children"]) (.wrongKind "array" .missing)
  | (name, value) :: fields =>
    if name = "children" then childListOf (path ++ [.key "children"]) value
    else childrenOf path fields

def childListOf (path : Path) : Json → Reading (List Predicate)
  | .array values =>
    (fun _ list => list)
      <$> Reading.softly path () (if values.length < 2 then [.tooFewItems 2] else [])
      <*> childItemsOf path 0 values
  | other => .fail path (.wrongKind "array" (.of (some other)))

/-- Some predicates, the first at `index` in their list. -/
def childItemsOf (path : Path) (index : Nat) : List Json → Reading (List Predicate)
  | [] => .ok []
  | item :: items =>
    (· :: ·) <$> predicateOf (path ++ [.index index]) item <*> childItemsOf path (index + 1) items

end

def predicate : Reader Predicate := fun path value =>
  match value with
  | some j => predicateOf path j
  | none => .fail path .noReading

/-! ### Records -/

/-- What is handed in for a session. -/
structure SessionForm where
  target : Address
  selector : Hex
  allowedArguments : Option Hex
  predicates : Option (List Predicate)
  paymaster : Option Address
  validUntil : Option Number
  validAfter : Option Number
  timesLimit : Option Int

/-- The arguments that a session allows: as they are on the wire if they are given so, and otherwise
from predicates. -/
def SessionForm.wireArguments (form : SessionForm) : Except Failure Hex :=
  match form.allowedArguments with
  | some h => .ok h
  | none => encodeAllowedArguments (form.predicates.getD [])

/-- The session of a form. Its predicates have to be short enough to be written. -/
def SessionForm.session (path : Path) (form : SessionForm) : Reading Session :=
  match form.wireArguments with
  | .error f => .fail path (.rejected f.message)
  | .ok allowedArguments =>
    .ok {
      target := form.target
      selector := form.selector
      allowedArguments
      paymaster := form.paymaster.getD .zero
      validUntil := form.validUntil.getD 0
      validAfter := form.validAfter.getD 0
      timesLimit := form.timesLimit.getD 0 }

def session : Reader Session := Reader.fields fun path fields =>
  Reading.andThen
    (SessionForm.mk
      <$> field address "to" path fields
      <*> field selector "selector" path fields
      <*> field (optional hex) "allowed_arguments" path fields
      <*> field (optional (list predicate 0)) "predicates" path fields
      <*> field (optional address) "paymaster" path fields
      <*> field (optional timestamp) "valid_until" path fields
      <*> field (optional timestamp) "valid_after" path fields
      <*> field (optional budget) "times_limit" path fields)
    (SessionForm.session path)

def permission : Reader OperatorPermission := Reader.fields fun path fields =>
  OperatorPermission.mk
    <$> field hash "session_root" path fields
    <*> field (orElse address .zero) "paymaster" path fields
    <*> field (orElse timestamp 0) "valid_until" path fields
    <*> field (orElse timestamp 0) "valid_after" path fields
    <*> field budget "gas_remaining" path fields
    <*> field budget "times_remaining" path fields

def spendingLimit : Reader SpendingLimit := Reader.fields fun path fields =>
  SpendingLimit.mk
    <$> field address "token" path fields
    <*> field amount "allowance" path fields

def userOperation : Reader UserOperation := Reader.fields fun path fields =>
  UserOperation.mk
    <$> field address "sender" path fields
    <*> field amount "nonce" path fields
    <*> field (orElse hex .empty) "initCode" path fields
    <*> field hex "callData" path fields
    <*> field amount "callGasLimit" path fields
    <*> field amount "verificationGasLimit" path fields
    <*> field amount "preVerificationGas" path fields
    <*> field amount "maxFeePerGas" path fields
    <*> field amount "maxPriorityFeePerGas" path fields
    <*> field (orElse hex .empty) "paymasterAndData" path fields
    <*> field hex "signature" path fields

end SessionKeys.Reader
