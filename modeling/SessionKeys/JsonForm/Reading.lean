import SessionKeys.Abi.Type
import SessionKeys.Binary64
import SessionKeys.Json
import SessionKeys.Predicate
import SessionKeys.Rlp

/-!
Reading values from their JSON forms. Nothing is checked here beyond the form: numbers may be out of
range, and any text is taken for a byte string. Amounts may be numbers as well as texts.
-/

namespace SessionKeys

/-- Why a JSON value is not the form of a value. -/
inductive FormError where
  /-- a part of a record is missing -/
  | missing
  /-- a value is of another kind, or a text has another form -/
  | mismatch
  | notList
  | notTruthValue
  | notWhole
  /-- a text writes no whole number -/
  | notNumber
deriving Inhabited, DecidableEq, Repr

/-- Types whose values are read from JSON. -/
class OfJson (α : Type) where
  ofJson : Json → Except FormError α

export OfJson (ofJson)

/-! ### Parts -/

namespace Json

/-- The value of a field, if a value is an object that has it. -/
def member? (j : Json) (name : String) : Option Json :=
  match j with
  | object fields => field? fields name
  | _ => none

def part (α : Type) [OfJson α] (j : Json) (name : String) : Except FormError α :=
  match j.member? name with
  | some value => ofJson value
  | none => .error .missing

/-- A part of a record that may be left out. -/
def part? (α : Type) [OfJson α] (j : Json) (name : String) : Except FormError (Option α) :=
  match j.member? name with
  | none | some null => .ok none
  | some value => some <$> ofJson value

def items : Json → Except FormError (List Json)
  | array items => .ok items
  | _ => .error .notList

end Json

namespace OfJson

open Json (part part?)

/-! ### Values -/

instance : OfJson Json := ⟨.ok⟩

instance : OfJson Bool where
  ofJson
    | .bool b => .ok b
    | _ => .error .notTruthValue

instance : OfJson String where
  ofJson
    | .string s => .ok s
    | _ => .error .mismatch

instance : OfJson Hex where
  ofJson
    | .string s => .ok (.ofText s)
    | _ => .error .mismatch

instance : OfJson Address where
  ofJson
    | .string s => .ok (.ofText s)
    | _ => .error .mismatch

instance : OfJson Int where
  ofJson
    | .string s => (wholeNumber? s.toList).elim (.error .notNumber) .ok
    | .number d => (Binary64.ofDecimal d).toInt?.elim (.error .notWhole) .ok
    | _ => .error .mismatch

instance : OfJson Number where
  ofJson
    | .number d => .ok (Binary64.ofDecimal d)
    | j => Number.ofInt <$> ofJson j

instance {α : Type} [OfJson α] : OfJson (List α) where
  ofJson j := do (← j.items).mapM ofJson

/-- The value with a given name. -/
def choice {α : Type} (options : List (String × α)) : Json → Except FormError α
  | .string s => (options.lookup s).elim (.error .mismatch) .ok
  | _ => .error .mismatch

/-! ### Nested values -/

mutual

/-- Reads a nested byte string. -/
def rlp : Json → Except FormError Rlp
  | .array items => .list <$> rlps items
  | other => .bytes <$> ofJson other

def rlps : List Json → Except FormError (List Rlp)
  | [] => .ok []
  | item :: items => do return (← rlp item) :: (← rlps items)

end

instance : OfJson Rlp := ⟨rlp⟩

instance : OfJson PredicateTag where
  ofJson
    | .string s => (PredicateTag.ofName? s).elim (.error .mismatch) .ok
    | _ => .error .mismatch

mutual

/-- Reads a predicate, where `other` is what an object of an unknown kind stands for. -/
def predicate (other : Except FormError Predicate) : Json → Except FormError Predicate
  | .object fields =>
    match part PredicateTag (.object fields) "op" with
    | .ok .any => .ok .any
    | .ok (.comparison op) => .compare op <$> part Hex (.object fields) "value"
    | .ok (.connective op) => .combine op <$> children other fields
    | .error _ => other
  | _ => .error .mismatch

/-- Reads the children of a connective from the fields of its object. -/
def children (other : Except FormError Predicate) :
    List (String × Json) → Except FormError (List Predicate)
  | [] => .error .missing
  | (name, value) :: fields =>
    if name = "children" then predicateList other value else children other fields

def predicateList (other : Except FormError Predicate) : Json → Except FormError (List Predicate)
  | .array items => predicates other items
  | _ => .error .mismatch

def predicates (other : Except FormError Predicate) :
    List Json → Except FormError (List Predicate)
  | [] => .ok []
  | item :: items => do return (← predicate other item) :: (← predicates other items)

end

/-- A predicate that nothing satisfies. -/
def never : Predicate :=
  .combine .or []

/-- Reads a predicate that is only evaluated: one of an unknown kind never holds. -/
def evaluable (j : Json) : Except FormError Predicate :=
  predicate (.ok never) j

instance : OfJson Predicate := ⟨predicate (.error .mismatch)⟩

mutual

/-- Reads a value of a type. -/
def abiValue : (t : Abi.Ty) → Json → Except FormError t.Val
  | .address, j => (ofJson j : Except FormError Address)
  | .bool, j => (ofJson j : Except FormError Bool)
  | .uint _, j => (ofJson j : Except FormError Int)
  | .number _, j => (ofJson j : Except FormError Number)
  | .int _, j => (ofJson j : Except FormError Int)
  | .fixedBytes _, j => (ofJson j : Except FormError Hex)
  | .bytes, j => (ofJson j : Except FormError Hex)
  | .bytesLike, j => (ofJson j : Except FormError Hex)
  | .string, j => (ofJson j : Except FormError String)
  | .array item, j => do (← j.items).mapM (abiValue item)
  | .fixedArray _ item, j => do (← j.items).mapM (abiValue item)
  | .tuple fields, j => do abiRow fields (← j.items)
  | .invalid _, _ => .ok ()

def abiRow : (fields : Abi.Fields) → List Json → Except FormError fields.Val
  | .nil, _ => .ok ()
  | .cons first rest, j :: js => do return (← abiValue first j, ← abiRow rest js)
  | .cons .., [] => .error .missing

end

end OfJson

end SessionKeys
