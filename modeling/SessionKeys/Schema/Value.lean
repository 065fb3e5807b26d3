import SessionKeys.Address
import SessionKeys.Binary64
import SessionKeys.Budget
import SessionKeys.Digits
import SessionKeys.Schema.Reading

/-!
Readers of single values: addresses, byte strings, amounts, times and truth values. Amounts may be
given as decimal texts of any length or as numbers; a number is the nearest one of 64 binary digits
before anything else is asked of it.
-/

namespace SessionKeys.Reader

/-! ### Byte strings -/

/-- A text that `accept` takes; anything else is rejected with a message. -/
def accepted {α : Type} (accept : String → Option α) (message : String) : Reader α :=
  fun path value =>
    match value with
    | some (.string s) =>
      match accept s with
      | some a => .ok a
      | none => .fail path (.rejected message)
    | _ => .fail path (.rejected message)

/-- The byte string that a text writes. -/
def hexOf? (s : String) : Option Hex :=
  (some (Hex.ofText s)).filter fun h => h.bytes?.isSome

/-- The byte string of some length that a text writes. -/
def hexOfLength? (length : Nat) (s : String) : Option Hex :=
  (hexOf? s).filter fun h => h.size == length

def address : Reader Address :=
  accepted (fun s => (Address.ofText s).checksummed?) "expected a 0x-prefixed 20-byte address"

def hex : Reader Hex :=
  accepted hexOf? "expected 0x-prefixed hex bytes"

def hash : Reader Hex :=
  accepted (hexOfLength? 32) "expected a 0x-prefixed 32-byte hash"

def selector : Reader Hex :=
  accepted (hexOfLength? 4) "expected a 0x-prefixed 4-byte selector"

/-! ### Numbers -/

/-- A number that has to be an integer, not negative, and at most some bound. -/
def wholeNumber (bound : Option Int) : Reader Int := fun path value =>
  match value with
  | some (.number d) =>
    let n := Binary64.ofDecimal d
    let fraction := if n.toInt?.isNone then [IssueCause.fraction] else []
    let negative := if n < 0 then [IssueCause.negative] else []
    let large := match bound with
      | some b => if .ofInt b < n then [IssueCause.above b] else []
      | none => []
    .softly path (n.toInt?.getD 0) (fraction ++ negative ++ large)
  | other => .fail path (.wrongKind "number" (.of other))

/-- A text of decimal digits. -/
def decimalText : Reader Int := fun path value =>
  match value with
  | some (.string s) =>
    match decimal? s.toList with
    | some n => .ok n
    | none => .softly path 0 [.wrongForm "expected a decimal integer string"]
  | other => .fail path (.wrongKind "string" (.of other))

/-- The text `unlimited`. -/
def unlimitedText : Reader Int := fun path value =>
  match value with
  | some (.string "unlimited") => .ok unlimited
  | other => .fail path (.wrongKind "string" (.of other))

def amount : Reader Int := fun path value =>
  .firstOf path [decimalText path value, wholeNumber none path value]

/-- A budget: an amount of at most 128 bits, or `unlimited`. -/
def budget : Reader Int := fun path value =>
  (Reading.firstOf path
    [unlimitedText path value, decimalText path value, wholeNumber none path value]).andThen fun n =>
      .softly path n (if unlimited < n then [.rejected "value does not fit in uint128"] else [])

/-- The last second that can be given, the largest of 48 bits. -/
def lastSecond : Int := 0xffffffffffff

/-- A time in whole seconds. -/
def timestamp : Reader Number := fun path value =>
  Number.ofInt <$> wholeNumber (some lastSecond) path value

/-! ### Choices -/

def bool : Reader Bool := fun path value =>
  match value with
  | some (.bool b) => .ok b
  | other => .fail path (.wrongKind "boolean" (.of other))

/-- One of some values, by name. -/
def choice {α : Type} (options : List (String × α)) : Reader α := fun path value =>
  let allowed := options.map Prod.fst
  match value with
  | some (.string s) =>
    match options.lookup s with
    | some a => .ok a
    | none => .fail path (.notAllowed allowed s)
  | other => .fail path (.wrongKind (IssueCause.alternatives allowed) (.of other))

end SessionKeys.Reader
