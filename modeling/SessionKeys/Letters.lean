import SessionKeys.Letters.Classes

/-!
Small letters. Every capital of any alphabet becomes the small letter that belongs to it, and every
other character stays as it is. One capital, sigma, has two small letters, and the place of it in a word
decides. Main statement: without sigma a text is put into small letters one character at a time.
-/

namespace SessionKeys

/-- A character in small letters, wherever it stands. The capital `I` with a dot keeps its dot as a
character of its own. -/
def lowerChar (c : Char) : List Char :=
  if c.toNat < 0x80 then [c.toLower]
  else if c.toNat = 0x130 then ['i', Char.ofNat 0x307]
  else
    match capitalRanges.find? fun r => r.contains c.toNat with
    | some r => [Char.ofNat (c.toNat + r.distance).toNat]
    | none => [c]

/-! ### Sigma -/

def capitalSigma : Nat := 0x3a3

/-- Whether a letter with case comes first among some characters, apart from ignored ones. -/
def startsCased (cs : List Char) : Bool :=
  match cs.dropWhile isIgnored with
  | c :: _ => isCased c
  | [] => false

/-- A character in small letters, between those before it, the nearest first, and those after it. At
the end of a word sigma has a form of its own. -/
def lowerBetween (before : List Char) (c : Char) (after : List Char) : List Char :=
  if c.toNat = capitalSigma ∧ startsCased before ∧ !startsCased after then [Char.ofNat 0x3c2]
  else lowerChar c

/-! ### Texts -/

/-- Some characters in small letters, behind those before them, the nearest first. -/
def lowerAfter : (before : List Char) → List Char → List Char
  | _, [] => []
  | before, c :: cs => lowerBetween before c cs ++ lowerAfter (c :: before) cs

def lowerText (cs : List Char) : List Char :=
  lowerAfter [] cs

theorem lowerBetween_of_ne {c : Char} (h : c.toNat ≠ capitalSigma) (before after : List Char) :
    lowerBetween before c after = lowerChar c := by
  rw [lowerBetween, if_neg fun hc => h hc.1]

theorem lowerAfter_of_ne {cs : List Char} (h : ∀ c ∈ cs, c.toNat ≠ capitalSigma)
    (before : List Char) : lowerAfter before cs = cs.flatMap lowerChar := by
  induction cs generalizing before with
  | nil => rfl
  | cons c cs ih =>
    have hcs : ∀ d ∈ cs, d.toNat ≠ capitalSigma := fun d hd => h d (List.mem_cons_of_mem c hd)
    rw [lowerAfter, lowerBetween_of_ne (h c List.mem_cons_self), ih hcs, List.flatMap_cons]

/-- Without sigma a text is put into small letters one character at a time. -/
theorem lowerText_of_ne {cs : List Char} (h : ∀ c ∈ cs, c.toNat ≠ capitalSigma) :
    lowerText cs = cs.flatMap lowerChar :=
  lowerAfter_of_ne h []

end SessionKeys
