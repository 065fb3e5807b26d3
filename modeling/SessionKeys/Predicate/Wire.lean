import SessionKeys.Predicate
import SessionKeys.Rlp

/-!
Predicates on the wire. A node is a pair of a one-byte tag and a payload: the literal of a
comparison, the children of a connective (at least two), and anything for the tag that always holds.
A list of nodes, one for each argument of a call, is what a session allows; the arguments themselves
are a list of byte strings whose first one is the value sent with the call.
-/

namespace SessionKeys

namespace Predicate

/-- The wire form of the tag of a node. -/
def tagItem (tag : PredicateTag) : Rlp :=
  .bytes (Hex.ofBytes [UInt8.ofNat tag.number])

mutual

/-- The wire form of a predicate. A connective needs at least two children. -/
def toRlp : Predicate → Except Refusal Rlp
  | any => .ok (.list [tagItem .any, .bytes .empty])
  | compare op literal => .ok (.list [tagItem (.comparison op), .bytes literal])
  | combine op children =>
    if children.length < 2 then .error (.tooFewChildren op)
    else do return .list [tagItem (.connective op), .list (← toRlpAll children)]

def toRlpAll : List Predicate → Except Refusal (List Rlp)
  | [] => .ok []
  | child :: children => do
    let first ← toRlp child
    let rest ← toRlpAll children
    return first :: rest

end

/-- The kind of node that a tag tells. -/
def tagOf (tag : Hex) : Except Failure PredicateTag := do
  if tag.size ≠ 1 then throw (.refused .tagShape)
  match PredicateTag.ofNumber? (← tag.toInt).toNat with
  | some kind => return kind
  | none => throw (.refused (.unknownTag tag))

/-- The predicate of a node whose payload is a byte string. -/
def ofLiteral (kind : PredicateTag) (literal : Hex) : Except Refusal Predicate :=
  match kind with
  | .connective op => .error (.noChildren op)
  | .comparison op => .ok (compare op literal)
  | .any => .ok any

/-- The connective of a node whose payload is a list of some length. -/
def connectiveOf (kind : PredicateTag) (count : Nat) : Except Refusal Connective :=
  match kind, count with
  | .connective op, 0 => .error (.noChildren op)
  | .connective op, 1 => .error (.tooFewChildren op)
  | .connective op, _ => .ok op
  | kind, _ => .error (.listPayload kind)

mutual

/-- The predicate that an item writes. -/
def ofRlp : Rlp → Except Failure Predicate
  | .list [.bytes tag, .bytes literal] => do orFail (ofLiteral (← tagOf tag) literal)
  | .list [.bytes tag, .list children] => do
    let op ← orFail (connectiveOf (← tagOf tag) children.length)
    return combine op (← ofRlpAll children)
  | .list [.list _, _] => .error (.refused .tagShape)
  | _ => .error (.refused .nodeShape)

def ofRlpAll : List Rlp → Except Failure (List Predicate)
  | [] => .ok []
  | item :: items => do
    let first ← ofRlp item
    let rest ← ofRlpAll items
    return first :: rest

end

end Predicate

/-! ### Allowed and actual arguments -/

/-- The items of the list that a byte string writes. -/
def decodeList (what : String) (data : Hex) : Except Refusal (List Rlp) :=
  match Rlp.ofHex data with
  | .error e => .error (.malformed what e.message)
  | .ok (.bytes _) => .error (.notAList what)
  | .ok (.list items) => .ok items

/-- The predicates that a session puts on the arguments of a call. -/
def decodeAllowedArguments (data : Hex) : Except Failure (List Predicate) := do
  Predicate.ofRlpAll (← orFail (decodeList "allowed arguments" data))

/-- The byte string an item is. -/
def actualArgument : Rlp → Except Refusal Hex
  | .bytes h => .ok h
  | .list _ => .error .listArgument

/-- The arguments that are presented for a call. -/
def decodeActualArguments (data : Hex) : Except Refusal (List Hex) := do
  (← decodeList "actual arguments" data).mapM actualArgument

/-- The wire form of the predicates of a session. -/
def encodeAllowedArguments (predicates : List Predicate) : Except Failure Hex := do
  let items ← orFail (Predicate.toRlpAll predicates)
  return Hex.ofBytes (← orFail (Rlp.encode (.list items)))

/-- The wire form of the arguments of a call. -/
def encodeActualArguments (values : List Hex) : Except Failure Hex := do
  return Hex.ofBytes (← orFail (Rlp.encode (.list (values.map .bytes))))

/-! ### Matching -/

/-- Evaluates each predicate on the argument in its place. -/
def evaluateSlots : List Predicate → List Hex → Except Failure (List Bool)
  | predicate :: predicates, value :: values => do
    let first ← predicate.evaluate value
    let rest ← evaluateSlots predicates values
    return first :: rest
  | _, _ => .ok []

/-- Whether the predicates of a session hold of the presented arguments. Both lists must have one
length, and the first argument must be the 32-byte word of the value sent. -/
def isAllowedCalldata (allowedArguments actualArguments : Hex) (value : Int) :
    Except Failure Bool := do
  let allowed ← decodeAllowedArguments allowedArguments
  let actual ← orFail (decodeActualArguments actualArguments)
  if allowed.length ≠ actual.length then
    throw (.refused (.argumentCount allowed.length actual.length))
  match actual with
  | [] => return true
  | slot :: _ =>
    if slot.size ≠ 32 then throw (.refused .valueSlot)
    if (← slot.toInt) ≠ value then throw (.refused .valueMismatch)
    return (← evaluateSlots allowed actual).all id

end SessionKeys
