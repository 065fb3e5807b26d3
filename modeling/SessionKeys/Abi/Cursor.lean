import SessionKeys.Failure
import Std.Data.ExtTreeSet

/-!
Reading data at a position that moves. What is read has to lie inside the data. A cursor remembers
where something was read, and the number of times that something is read where something was read
before is bounded: data whose offsets lead back again and again is refused, however little of it
there is.
-/

namespace SessionKeys.Abi

/-- Where a reader of some data stands, and what it has read. -/
structure Cursor where
  position : Nat
  /-- the positions at which something was read -/
  visited : Std.ExtTreeSet Nat
  /-- how often something was read at a visited position -/
  rereads : Nat

/-- A cursor at the start of the data. -/
def Cursor.start : Cursor where
  position := 0
  visited := ∅
  rereads := 0

abbrev Scan (α : Type) := StateT Cursor (Except DecodeError) α

namespace Scan

/-- How often something may be read at a visited position before nothing more is read. -/
def rereadLimit : Nat := 8192

/-- Reads `n` bytes and moves on by `step`. -/
def bytes (data : Bytes) (n step : Nat) : Scan Bytes := fun c =>
  if rereadLimit ≤ c.rereads then .error .tooManyRereads
  else if data.length < c.position + n then .error .outOfBounds
  else
    .ok ((data.drop c.position).take n,
      { position := c.position + step
        visited := c.visited.insert c.position
        rereads := if c.position ∈ c.visited then c.rereads + 1 else c.rereads })

/-- Moves to a position inside the data. -/
def moveTo (data : Bytes) (position : Nat) : Scan Unit := fun c =>
  if position < data.length then .ok ((), { c with position }) else .error .outOfBounds

/-- Moves to a position if it is inside the data, and stays otherwise. -/
def approach (data : Bytes) (position : Nat) : Scan Unit := fun c =>
  if position < data.length then .ok ((), { c with position }) else .ok ((), c)

def stay : Scan Unit :=
  pure ()

/-- The number in the next word. -/
def word (data : Bytes) : Scan Nat := do
  return (← bytes data 32 32).toNat

/-- The first number that is too large where only small ones are taken, `2 ^ 53`. -/
def smallBound : Nat := 0x20000000000000

/-- A number that was read where only small ones are taken. -/
def small (n : Nat) : Scan Nat :=
  if n < smallBound then pure n else throw .unsafeInteger

/-- The offset or length in the next word. -/
def size (data : Bytes) : Scan Nat := do
  small (← word data)

/-- The byte string behind a length. -/
def byteString (data : Bytes) : Scan Bytes := do
  let length ← size data
  if length = 0 then return [] else bytes data length length

/-- Reads what the next offset leads to, counted from `base`, and returns to the word after `base`. -/
def follow {α : Type} (data : Bytes) (base : Nat) (read : (start : Nat) → Scan α) : Scan α := do
  let offset ← size data
  let value ← read (base + offset)
  moveTo data (base + 32)
  return value

/-- Reads `count` items. Each is `stride` bytes after the one before, counted from where `offset` is
zero, and `place` leads to it. -/
def many {α : Type} (place : (offset : Nat) → Scan Unit) (read : Scan α) (stride : Nat) :
    (count offset : Nat) → Scan (List α)
  | 0, _ => pure []
  | count + 1, offset => do
    place offset
    let first ← read
    let rest ← many place read stride count (offset + stride)
    return first :: rest

end Scan

end SessionKeys.Abi
