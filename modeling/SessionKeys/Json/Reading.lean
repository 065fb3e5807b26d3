import SessionKeys.Digits
import SessionKeys.Json

/-!
Reading JSON from text. A text is one value, with white space around its parts. Numbers are read
exactly, and of fields with one name the last one counts. A character outside the basic plane may be
escaped as a pair of surrogates; a surrogate without its partner is kept.
-/

namespace SessionKeys.Json

/-! ### Numbers -/

/-- Some digits, of which the last `places` stand after the point, times a power of ten. -/
def scaled (digits : List Char) (places : Nat) (power : Int) : Decimal :=
  let shift := power - places
  ⟨decimalValue digits * Nat.pow 10 shift.toNat, (-shift).toNat⟩

/-- The power of ten at the end of a number. -/
def power? : List Char → Option Int
  | [] => some 0
  | mark :: cs =>
    if mark ≠ 'e' ∧ mark ≠ 'E' then none
    else
      match cs with
      | '-' :: digits => (decimal? digits).map fun n => -(n : Int)
      | '+' :: digits => (decimal? digits).map fun n => (n : Int)
      | digits => (decimal? digits).map fun n => (n : Int)

/-- What follows the whole part of a number. -/
def fraction? (whole : List Char) : List Char → Option Decimal
  | '.' :: cs =>
    let digits := cs.takeWhile Char.isDigit
    if digits.isEmpty then none
    else (power? (cs.dropWhile Char.isDigit)).map (scaled (whole ++ digits) digits.length)
  | cs => (power? cs).map (scaled whole 0)

/-- A number without a sign. Its whole part has no zeros in front. -/
def unsigned? (cs : List Char) : Option Decimal :=
  match cs.takeWhile Char.isDigit with
  | [] | '0' :: _ :: _ => none
  | whole => fraction? whole (cs.dropWhile Char.isDigit)

/-- The number that some characters write. -/
def number? : List Char → Option Decimal
  | '-' :: cs => (unsigned? cs).map fun d => { d with mantissa := -d.mantissa }
  | cs => unsigned? cs

def isNumberChar (c : Char) : Bool :=
  c.isDigit || ['-', '+', '.', 'e', 'E'].contains c

/-! ### Texts -/

/-- The character that is escaped by a letter. -/
def escaped? : Char → Option Char
  | '"' => some '"'
  | '\\' => some '\\'
  | '/' => some '/'
  | 'b' => some '\x08'
  | 'f' => some '\x0c'
  | 'n' => some '\n'
  | 'r' => some '\r'
  | 't' => some '\t'
  | _ => none

/-- The units of a text up to its closing quote, and what follows it. -/
def units? : List Char → Option (List Char × List Char)
  | '"' :: rest => some ([], rest)
  | '\\' :: 'u' :: a :: b :: c :: d :: rest => do
    let unit ← numberInBase? 16 [a, b, c, d]
    let (units, rest) ← units? rest
    some (unitChar unit :: units, rest)
  | '\\' :: c :: rest => do
    let unit ← escaped? c
    let (units, rest) ← units? rest
    some (unit :: units, rest)
  | c :: rest =>
    if c.toNat < 32 then none
    else do
      let (units, rest) ← units? rest
      some (charUnits c ++ units, rest)
  | [] => none

/-! ### Values -/

/-- White space between the parts of a value. -/
def isSpace (c : Char) : Bool :=
  [' ', '\t', '\n', '\r'].contains c

/-- A part of a text. -/
inductive Token where
  | openArray
  | closeArray
  | openObject
  | closeObject
  | comma
  | colon
  | string (s : String)
  | literal (value : Json)

/-- The name or number at the start of some characters, and what follows it. -/
def word? (cs : List Char) : Option (Json × List Char) :=
  match cs with
  | 'n' :: 'u' :: 'l' :: 'l' :: rest => some (null, rest)
  | 't' :: 'r' :: 'u' :: 'e' :: rest => some (bool true, rest)
  | 'f' :: 'a' :: 'l' :: 's' :: 'e' :: rest => some (bool false, rest)
  | cs =>
    (number? (cs.takeWhile isNumberChar)).map fun d => (number d, cs.dropWhile isNumberChar)

/-- The token at the start of some characters that do not start with white space, and what follows
it. -/
def token? : List Char → Option (Token × List Char)
  | '[' :: rest => some (.openArray, rest)
  | ']' :: rest => some (.closeArray, rest)
  | '\x7b' :: rest => some (.openObject, rest)
  | '\x7d' :: rest => some (.closeObject, rest)
  | ',' :: rest => some (.comma, rest)
  | ':' :: rest => some (.colon, rest)
  | '"' :: rest =>
    (units? rest).map fun (units, rest) => (.string (String.ofList (joinUnits units)), rest)
  | cs => (word? cs).map fun (value, rest) => (.literal value, rest)

/-- The tokens of a text. Each takes at least one character, so `fuel` need not exceed their
number. -/
def tokens? : (fuel : Nat) → List Char → Option (List Token)
  | fuel, cs =>
    match fuel, cs.dropWhile isSpace with
    | _, [] => some []
    | 0, _ => none
    | fuel + 1, cs => do
      let (token, rest) ← token? cs
      let tokens ← tokens? fuel rest
      some (token :: tokens)

/-- Sets a field, in place of one with the same name. -/
def setField (fields : List (String × Json)) (name : String) (value : Json) :
    List (String × Json) :=
  if fields.any (·.1 == name) then
    fields.map fun field => if field.1 == name then (name, value) else field
  else fields ++ [(name, value)]

mutual

/-- Reads one value, and gives what follows it. Each step takes a token, so `fuel` need not exceed
their number. -/
def value? : (fuel : Nat) → List Token → Option (Json × List Token)
  | _, .string s :: rest => some (string s, rest)
  | _, .literal value :: rest => some (value, rest)
  | _, .openArray :: .closeArray :: rest => some (array [], rest)
  | _, .openObject :: .closeObject :: rest => some (object [], rest)
  | fuel + 1, .openArray :: rest => do
    let (items, rest) ← items? fuel rest
    some (array items, rest)
  | fuel + 1, .openObject :: rest => do
    let (fields, rest) ← fields? fuel [] rest
    some (object fields, rest)
  | _, _ => none

/-- Reads the items of a list up to its end. -/
def items? : (fuel : Nat) → List Token → Option (List Json × List Token)
  | 0, _ => none
  | fuel + 1, tokens => do
    let (item, rest) ← value? fuel tokens
    match rest with
    | .closeArray :: rest => some ([item], rest)
    | .comma :: rest => do
      let (items, rest) ← items? fuel rest
      some (item :: items, rest)
    | _ => none

/-- Reads the fields of an object up to its end, after those that were read already. -/
def fields? : (fuel : Nat) → List (String × Json) → List Token →
    Option (List (String × Json) × List Token)
  | fuel + 1, before, .string name :: .colon :: tokens => do
    let (value, rest) ← value? fuel tokens
    let fields := setField before name value
    match rest with
    | .closeObject :: rest => some (fields, rest)
    | .comma :: rest => fields? fuel fields rest
    | _ => none
  | _, _, _ => none

end

/-- The value that a text writes, if it writes one. -/
def ofText? (text : String) : Option Json := do
  let cs := text.toList
  let tokens ← tokens? cs.length cs
  match ← value? (tokens.length + 1) tokens with
  | (value, []) => some value
  | _ => none

end SessionKeys.Json
