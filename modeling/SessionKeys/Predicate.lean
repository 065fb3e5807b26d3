import SessionKeys.Failure

/-!
Predicates on one argument of a call: a tree of comparisons with literals. Bytes are compared for
equality whatever their length; numbers are the first 32 bytes of both sides, and a shorter side
makes the comparison fail. Every node is evaluated, so no node hides the failure of another.
-/

namespace SessionKeys

inductive Predicate where
  | any
  | compare (op : Comparison) (literal : Hex)
  | combine (op : Connective) (children : List Predicate)

/-- The number in the first 32 bytes of a byte string. -/
def leadingWord (h : Hex) : Except Failure Int :=
  if h.size < 32 then .error (.refused .shortWord) else (h.take 32).toInt

namespace Comparison

/-- Whether an actual value compares with a literal. -/
def holds (op : Comparison) (literal actual : Hex) : Except Failure Bool :=
  match op with
  | eq => .ok (literal.same actual)
  | ne => .ok (!literal.same actual)
  | gt => do
    let a ← leadingWord actual
    let l ← leadingWord literal
    return decide (l < a)
  | lt => do
    let a ← leadingWord actual
    let l ← leadingWord literal
    return decide (a < l)

end Comparison

namespace Connective

/-- Joins the results of the children. -/
def join : Connective → List Bool → Bool
  | and, results => results.all id
  | or, results => results.any id

end Connective

namespace Predicate

mutual

/-- Whether a predicate holds of an actual value. -/
def evaluate (actual : Hex) : Predicate → Except Failure Bool
  | any => .ok true
  | compare op literal => op.holds literal actual
  | combine op children => do return op.join (← evaluateAll actual children)

def evaluateAll (actual : Hex) : List Predicate → Except Failure (List Bool)
  | [] => .ok []
  | child :: children => do
    let first ← evaluate actual child
    let rest ← evaluateAll actual children
    return first :: rest

end

end Predicate

end SessionKeys
