/-!
The kinds of predicate node: one that always holds, four comparisons with a literal and two
connectives. Each kind has a name and a one-byte number on the wire.
-/

namespace SessionKeys

/-- A comparison of an actual value with a literal. -/
inductive Comparison where
  /-- the bytes differ -/
  | ne
  /-- the bytes agree -/
  | eq
  /-- the actual number is greater -/
  | gt
  /-- the actual number is smaller -/
  | lt
deriving DecidableEq, Repr

/-- A way to join predicates. -/
inductive Connective where
  | and
  | or
deriving DecidableEq, Repr

/-- The kind of a predicate node. -/
inductive PredicateTag where
  | any
  | comparison (op : Comparison)
  | connective (op : Connective)
deriving DecidableEq, Repr

def Comparison.name : Comparison → String
  | ne => "NE"
  | eq => "EQ"
  | gt => "GT"
  | lt => "LT"

def Connective.name : Connective → String
  | and => "AND"
  | or => "OR"

namespace PredicateTag

def name : PredicateTag → String
  | any => "ANY"
  | comparison op => op.name
  | connective op => op.name

/-- The number of a kind on the wire. -/
def number : PredicateTag → Nat
  | any => 0
  | comparison .ne => 1
  | comparison .eq => 2
  | comparison .gt => 3
  | comparison .lt => 4
  | connective .and => 5
  | connective .or => 6

/-- The kind with a given number. -/
def ofNumber? : Nat → Option PredicateTag
  | 0 => some any
  | 1 => some (comparison .ne)
  | 2 => some (comparison .eq)
  | 3 => some (comparison .gt)
  | 4 => some (comparison .lt)
  | 5 => some (connective .and)
  | 6 => some (connective .or)
  | _ => none

/-- The kind with a given name. -/
def ofName? (name : String) : Option PredicateTag :=
  (List.range 7).findSome? fun n => (ofNumber? n).filter fun tag => tag.name == name

@[simp] theorem ofNumber?_number (tag : PredicateTag) : ofNumber? tag.number = some tag := by
  match tag with
  | any => rfl
  | comparison op => cases op <;> rfl
  | connective op => cases op <;> rfl

theorem number_lt (tag : PredicateTag) : tag.number < 7 := by
  match tag with
  | any => decide
  | comparison op => cases op <;> decide
  | connective op => cases op <;> decide

end PredicateTag

end SessionKeys
