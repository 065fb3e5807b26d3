import Std.Data.ExtTreeMap

/-!
Tables of values, each filed under a row of words. Rows are compared character by character, and two
tables are equal when they hold the same values in the same places (`Table.ext`).
-/

namespace SessionKeys

/-- Values filed under rows of words. -/
abbrev Table (α : Type) := Std.ExtTreeMap (List (List Char)) α compare

namespace Table

variable {α : Type}

/-- The value filed under a row. -/
def find? (t : Table α) (row : List (List Char)) : Option α :=
  t[row]?

/-- Files a value under a row, in place of what was there. -/
def put (t : Table α) (row : List (List Char)) (value : α) : Table α :=
  t.insert row value

def remove (t : Table α) (row : List (List Char)) : Table α :=
  t.erase row

@[simp] theorem find?_empty (row : List (List Char)) : find? (∅ : Table α) row = none := by
  simp [find?]

theorem find?_put (t : Table α) (row other : List (List Char)) (value : α) :
    find? (t.put row value) other = if row = other then some value else find? t other := by
  simp [find?, put, Std.ExtTreeMap.getElem?_insert]

theorem find?_remove (t : Table α) (row other : List (List Char)) :
    find? (t.remove row) other = if row = other then none else find? t other := by
  simp [find?, remove, Std.ExtTreeMap.getElem?_erase]

@[simp] theorem find?_put_self (t : Table α) (row : List (List Char)) (value : α) :
    find? (t.put row value) row = some value := by
  simp [find?_put]

@[simp] theorem find?_remove_self (t : Table α) (row : List (List Char)) :
    find? (t.remove row) row = none := by
  simp [find?_remove]

theorem find?_put_of_ne {t : Table α} {row other : List (List Char)} {value : α} (h : row ≠ other) :
    find? (t.put row value) other = find? t other := by
  simp [find?_put, h]

theorem find?_remove_of_ne {t : Table α} {row other : List (List Char)} (h : row ≠ other) :
    find? (t.remove row) other = find? t other := by
  simp [find?_remove, h]

/-- Tables that hold the same values in the same places are equal. -/
theorem ext {t u : Table α} (h : ∀ row, t.find? row = u.find? row) : t = u :=
  Std.ExtTreeMap.ext_getElem? h

end Table

end SessionKeys
