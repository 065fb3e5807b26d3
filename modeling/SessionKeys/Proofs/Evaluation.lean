import SessionKeys.Proofs.Refusals

/-!
What a predicate says, and when nothing can be said. A comparison of numbers needs a whole word on both
sides; if one of them anywhere in a predicate lacks it (`Predicate.LacksWord`), the evaluation is refused,
whatever stands beside it, and otherwise it tells whether the predicate holds (`Predicate.Holds`). Neither
of the two looks at the order of children, nor of slots. Main statement: `evaluation_orderless`.
-/

namespace SessionKeys

/-! ### Meaning -/

/-- A comparison is one of numbers. -/
def Comparison.IsNumeric : Comparison → Prop
  | gt | lt => True
  | ne | eq => False

/-- An actual value `b` compares with a literal `w`: byte for byte, or as the numbers in their first words.
-/
def Comparison.Relates (op : Comparison) (w b : Bytes) : Prop :=
  match op with
  | eq => b = w
  | ne => b ≠ w
  | gt => Bytes.toNat (w.take 32) < Bytes.toNat (b.take 32)
  | lt => Bytes.toNat (b.take 32) < Bytes.toNat (w.take 32)

namespace Predicate

/-- A comparison with a literal stands in a predicate, at any depth. -/
inductive Contains (op : Comparison) (literal : Hex) : Predicate → Prop
  | here : Contains op literal (compare op literal)
  | inside {connective : Connective} {children : List Predicate} {child : Predicate}
      (mem : child ∈ children) (deeper : Contains op literal child) :
      Contains op literal (combine connective children)

/-- Some comparison of numbers in a predicate, at any depth, is of less than a word: the actual value is
shorter, or the literal. -/
def LacksWord (p : Predicate) (b : Bytes) : Prop :=
  ∃ op literal w, p.Contains op literal ∧ op.IsNumeric ∧ literal.bytes? = some w ∧
    (b.length < 32 ∨ w.length < 32)

/-- A predicate holds of an actual value, as a proposition about it. -/
inductive Holds (b : Bytes) : Predicate → Prop
  | any : Holds b any
  | compare {op : Comparison} {literal : Hex} {w : Bytes} (writes : literal.bytes? = some w)
      (relates : op.Relates w b) : Holds b (compare op literal)
  | and {children : List Predicate} (all : ∀ child ∈ children, Holds b child) :
      Holds b (combine .and children)
  | or {children : List Predicate} {child : Predicate} (mem : child ∈ children)
      (some : Holds b child) : Holds b (combine .or children)

variable {b : Bytes} {op : Comparison} {connective : Connective} {literal : Hex} {w : Bytes}
  {children : List Predicate}

theorem not_lacksWord_any : ¬any.LacksWord b := by
  rintro ⟨_, _, _, ⟨⟩, -⟩

theorem lacksWord_compare (writes : literal.bytes? = some w) :
    (compare op literal).LacksWord b ↔ op.IsNumeric ∧ (b.length < 32 ∨ w.length < 32) := by
  constructor
  · rintro ⟨_, _, _, ⟨⟩, numeric, read, short⟩
    rw [writes, Option.some.injEq] at read
    subst read
    exact ⟨numeric, short⟩
  · rintro ⟨numeric, short⟩
    exact ⟨op, literal, w, .here, numeric, writes, short⟩

theorem lacksWord_combine :
    (combine connective children).LacksWord b ↔ ∃ child ∈ children, child.LacksWord b := by
  constructor
  · rintro ⟨op, literal, w, ⟨⟩ | ⟨mem, deeper⟩, short⟩
    exact ⟨_, mem, op, literal, w, deeper, short⟩
  · rintro ⟨child, mem, op, literal, w, deeper, short⟩
    exact ⟨op, literal, w, .inside mem deeper, short⟩

theorem holds_compare (writes : literal.bytes? = some w) :
    (compare op literal).Holds b ↔ op.Relates w b := by
  constructor
  · rintro (_ | ⟨read, relates⟩)
    rw [writes, Option.some.injEq] at read
    exact read ▸ relates
  · exact .compare writes

theorem holds_and : (combine .and children).Holds b ↔ ∀ child ∈ children, child.Holds b := by
  constructor
  · rintro (_ | _ | all)
    exact all
  · exact .and

theorem holds_or : (combine .or children).Holds b ↔ ∃ child ∈ children, child.Holds b := by
  constructor
  · rintro (_ | _ | _ | ⟨mem, some⟩)
    exact ⟨_, mem, some⟩
  · rintro ⟨child, mem, some⟩
    exact .or mem some

theorem areWritten_iff : AreWritten children ↔ ∀ child ∈ children, child.IsWritten := by
  induction children with
  | nil => exact iff_of_true trivial (List.forall_mem_nil _)
  | cons child children ih => rw [AreWritten, ih, List.forall_mem_cons]

end Predicate

/-! ### Evaluation -/

/-- A computation tells whether a proposition holds, unless a word is lacking. -/
inductive Decides (lacks holds : Prop) : Except Failure Bool → Prop
  | refused (short : lacks) : Decides lacks holds (.error (.refused .shortWord))
  | ends {result : Bool} (whole : ¬lacks) (told : result = true ↔ holds) :
      Decides lacks holds (.ok result)

/-- Computations that decide the same end alike. -/
theorem Decides.congr {lacks holds lacks' holds' : Prop} {x y : Except Failure Bool}
    (hx : Decides lacks holds x) (hy : Decides lacks' holds' y) (sameLacks : lacks ↔ lacks')
    (sameHolds : holds ↔ holds') : x = y := by
  cases hx with
  | refused short =>
    cases hy with
    | refused => rfl
    | ends whole => exact absurd (sameLacks.1 short) whole
  | ends whole told =>
    cases hy with
    | refused short => exact absurd (sameLacks.2 short) whole
    | ends _ told' => rw [Bool.eq_iff_iff.2 (told.trans (sameHolds.trans told'.symm))]

/-- Several computations decide propositions one by one, unless a word is lacking in one of them. -/
inductive DecideEach {α : Type} (lacks holds : α → Prop) (l : List α) : Except Failure (List Bool) → Prop
  | refused {a : α} (mem : a ∈ l) (short : lacks a) : DecideEach lacks holds l (.error (.refused .shortWord))
  | ends {results : List Bool} (whole : ∀ a ∈ l, ¬lacks a)
      (told : List.Forall₂ (fun a result => result = true ↔ holds a) l results) :
      DecideEach lacks holds l (.ok results)

namespace DecideEach

variable {α : Type} {lacks holds : α → Prop} {l : List α}

theorem nil : DecideEach lacks holds [] (.ok []) :=
  .ends (List.forall_mem_nil _) .nil

/-- Another computation before several: all of them are done, and no result hides that a word is lacking. -/
theorem cons {a : α} {x : Except Failure Bool} {y : Except Failure (List Bool)}
    (hx : Decides (lacks a) (holds a) x) (hy : DecideEach lacks holds l y) :
    DecideEach lacks holds (a :: l) (do return (← x) :: (← y)) := by
  cases hx with
  | refused short => exact .refused List.mem_cons_self short
  | ends whole told =>
    cases hy with
    | refused mem short => exact .refused (List.mem_cons_of_mem a mem) short
    | ends others each => exact .ends (List.forall_mem_cons.2 ⟨whole, others⟩) (.cons told each)

theorem all_iff {results : List Bool}
    (told : List.Forall₂ (fun a result => result = true ↔ holds a) l results) :
    results.all id = true ↔ ∀ a ∈ l, holds a := by
  induction told with
  | nil => exact iff_of_true rfl (List.forall_mem_nil _)
  | cons here later ih => rw [List.all_cons, Bool.and_eq_true, List.forall_mem_cons, ih, id_eq, here]

theorem any_iff {results : List Bool}
    (told : List.Forall₂ (fun a result => result = true ↔ holds a) l results) :
    results.any id = true ↔ ∃ a ∈ l, holds a := by
  induction told with
  | nil => simp
  | cons here later ih => rw [List.any_cons, Bool.or_eq_true, List.exists_mem_cons_iff, ih, id_eq, here]

/-- What is made of the results of all decides about all. -/
theorem bind {y : Except Failure (List Bool)} (hy : DecideEach lacks holds l y) {join : List Bool → Bool}
    {joined : Prop}
    (joins : ∀ results, List.Forall₂ (fun a result => result = true ↔ holds a) l results →
      (join results = true ↔ joined)) :
    Decides (∃ a ∈ l, lacks a) joined (do return join (← y)) := by
  cases hy with
  | refused mem short => exact .refused ⟨_, mem, short⟩
  | ends whole told => exact .ends (fun ⟨a, mem, short⟩ => whole a mem short) (joins _ told)

end DecideEach

variable {actual literal : Hex} {b w : Bytes}

theorem leadingWord_of_bytes? {h : Hex} (hb : h.bytes? = some b) :
    leadingWord h =
      if b.length < 32 then .error (.refused .shortWord) else .ok (Bytes.toNat (b.take 32) : Int) := by
  unfold leadingWord
  rw [Hex.size_of_bytes? hb]
  split
  · rfl
  · refine Hex.toInt_of_bytes? (Hex.bytes?_take hb 32) (List.ne_nil_of_length_pos ?_)
    rw [List.length_take]
    omega

/-- Two numbers are compared if both are whole words. -/
theorem decides_words {x y : Hex} {v w : Bytes} (hx : x.bytes? = some v) (hy : y.bytes? = some w)
    (compare : Int → Int → Bool) {holds : Prop}
    (told : compare (Bytes.toNat (v.take 32)) (Bytes.toNat (w.take 32)) = true ↔ holds) :
    Decides (v.length < 32 ∨ w.length < 32) holds
      (do return compare (← leadingWord x) (← leadingWord y)) := by
  rw [leadingWord_of_bytes? hx, leadingWord_of_bytes? hy]
  by_cases hv : v.length < 32
  · rw [if_pos hv]
    exact .refused (.inl hv)
  · rw [if_neg hv]
    by_cases hw : w.length < 32
    · rw [if_pos hw]
      exact .refused (.inr hw)
    · rw [if_neg hw]
      exact .ends (not_or.2 ⟨hv, hw⟩) told

theorem Comparison.decides_holds (op : Comparison) (known : literal.bytes? = some w)
    (hb : actual.bytes? = some b) :
    Decides (op.IsNumeric ∧ (b.length < 32 ∨ w.length < 32)) (op.Relates w b)
      (op.holds literal actual) := by
  have same := Hex.same_iff known hb
  cases op with
  | eq => exact .ends (fun lacks => lacks.1) (same.trans eq_comm)
  | ne =>
    refine .ends (fun lacks => lacks.1) ?_
    rw [Bool.not_eq_true', ← Bool.not_eq_true, same, eq_comm]
    rfl
  | gt =>
    rw [show gt.IsNumeric = True from rfl, true_and]
    exact decides_words hb known (fun a l => decide (l < a)) (by simp [Relates])
  | lt =>
    rw [show lt.IsNumeric = True from rfl, true_and]
    exact decides_words hb known (fun a l => decide (a < l)) (by simp [Relates])

namespace Predicate

mutual

/-- The evaluation of a predicate decides whether it holds, unless a word is lacking somewhere in it. -/
theorem decides_evaluate (hb : actual.bytes? = some b) :
    ∀ p : Predicate, p.IsWritten → Decides (p.LacksWord b) (p.Holds b) (p.evaluate actual)
  | any, _ => .ends not_lacksWord_any (iff_of_true rfl .any)
  | compare op literal, ⟨w, known⟩ => by
    rw [evaluate, lacksWord_compare known, holds_compare known]
    exact op.decides_holds known hb
  | combine op children, known => by
    rw [evaluate, lacksWord_combine]
    refine (decides_evaluateAll hb children known).bind fun results told => ?_
    cases op with
    | and => rw [holds_and]; exact DecideEach.all_iff told
    | or => rw [holds_or]; exact DecideEach.any_iff told

theorem decides_evaluateAll (hb : actual.bytes? = some b) :
    ∀ children : List Predicate, AreWritten children →
      DecideEach (LacksWord · b) (Holds b) children (evaluateAll actual children)
  | [], _ => .nil
  | child :: children, ⟨here, later⟩ => by
    rw [evaluateAll]
    exact .cons (decides_evaluate hb child here) (decides_evaluateAll hb children later)

end

/-! ### Order -/

/-- A predicate is another one with the children of its connectives in another order, at any depth. -/
inductive Reordered : Predicate → Predicate → Prop
  | refl (p : Predicate) : Reordered p p
  | trans {p q r : Predicate} (first : Reordered p q) (second : Reordered q r) : Reordered p r
  | children (connective : Connective) {children children' : List Predicate}
      (perm : children.Perm children') : Reordered (combine connective children) (combine connective children')
  | child (connective : Connective) (before after : List Predicate) {p q : Predicate}
      (inside : Reordered p q) :
      Reordered (combine connective (before ++ p :: after)) (combine connective (before ++ q :: after))

variable {p q : Predicate}

theorem Reordered.isWritten_iff (h : Reordered p q) : p.IsWritten ↔ q.IsWritten := by
  induction h with
  | refl => exact Iff.rfl
  | trans _ _ first second => exact first.trans second
  | children _ perm =>
    rw [IsWritten, IsWritten, areWritten_iff, areWritten_iff]
    exact forall_congr' fun child => by rw [perm.mem_iff]
  | child _ before after _ same =>
    rw [IsWritten, IsWritten, areWritten_iff, areWritten_iff]
    simp only [List.forall_mem_append, List.forall_mem_cons, same]

theorem Reordered.lacksWord_iff (h : Reordered p q) : p.LacksWord b ↔ q.LacksWord b := by
  induction h with
  | refl => exact Iff.rfl
  | trans _ _ first second => exact first.trans second
  | children _ perm =>
    rw [lacksWord_combine, lacksWord_combine]
    exact exists_congr fun child => by rw [perm.mem_iff]
  | child _ before after _ same =>
    simp only [lacksWord_combine, List.mem_append, List.mem_cons, or_and_right, exists_or,
      exists_eq_left, same]

theorem Reordered.holds_iff (h : Reordered p q) : p.Holds b ↔ q.Holds b := by
  induction h with
  | refl => exact Iff.rfl
  | trans _ _ first second => exact first.trans second
  | children connective perm =>
    cases connective with
    | and =>
      rw [holds_and, holds_and]
      exact forall_congr' fun child => by rw [perm.mem_iff]
    | or =>
      rw [holds_or, holds_or]
      exact exists_congr fun child => by rw [perm.mem_iff]
  | child connective before after _ same =>
    cases connective with
    | and =>
      rw [holds_and, holds_and]
      simp only [List.forall_mem_append, List.forall_mem_cons, same]
    | or =>
      rw [holds_or, holds_or]
      simp only [List.mem_append, List.mem_cons, or_and_right, exists_or, exists_eq_left, same]

/-- The order of children is of no account for the evaluation. -/
theorem Reordered.evaluate_eq (h : Reordered p q) (known : p.IsWritten) (hb : actual.bytes? = some b) :
    q.evaluate actual = p.evaluate actual :=
  ((decides_evaluate hb p known).congr (decides_evaluate hb q (h.isWritten_iff.1 known)) h.lacksWord_iff
    h.holds_iff).symm

end Predicate

/-! ### Slots -/

/-- The evaluation of the slots decides about each predicate and the argument in its place. -/
theorem decideEach_evaluateSlots {predicates : List Predicate} {slots : List Hex}
    (known : Predicate.AreWritten predicates) (written : ∀ slot ∈ slots, slot.WritesBytes) :
    DecideEach (fun place : Predicate × Hex => place.1.LacksWord place.2.content)
      (fun place => place.1.Holds place.2.content) (predicates.zip slots)
      (evaluateSlots predicates slots) := by
  induction predicates generalizing slots with
  | nil => exact .nil
  | cons p predicates ih =>
    cases slots with
    | nil => exact .nil
    | cons slot slots =>
      obtain ⟨⟨b, hb⟩, others⟩ := List.forall_mem_cons.1 written
      have here := Predicate.decides_evaluate hb p known.1
      rw [← Hex.content_of_bytes? hb] at here
      rw [evaluateSlots, List.zip_cons_cons]
      exact .cons here (ih known.2 others)

/-- Predicates and the arguments in their places have been put in another order together, the first place
apart. -/
structure SlotsReordered (predicates : List Predicate) (slots : List Hex) (predicates' : List Predicate)
    (slots' : List Hex) : Prop where
  predicateCount : predicates'.length = predicates.length
  slotCount : slots'.length = slots.length
  firstPredicate : predicates'.head? = predicates.head?
  firstSlot : slots'.head? = slots.head?
  together : predicates.length = slots.length →
    (predicates'.zip slots').tail.Perm (predicates.zip slots).tail

variable {predicates predicates' : List Predicate} {slots slots' : List Hex}

theorem SlotsReordered.perm (h : SlotsReordered predicates slots predicates' slots')
    (count : predicates.length = slots.length) : (predicates'.zip slots').Perm (predicates.zip slots) := by
  have later := h.together count
  have first := h.firstPredicate
  have firstSlot := h.firstSlot
  cases predicates with
  | nil =>
    rw [List.length_eq_zero_iff.1 h.predicateCount]
    exact .nil
  | cons p predicates =>
    obtain ⟨predicates', rfl⟩ := List.head?_eq_some_iff.1 first
    cases slots with
    | nil => cases count
    | cons slot slots =>
      obtain ⟨slots', rfl⟩ := List.head?_eq_some_iff.1 firstSlot
      -- the first place is the same, so the places are rearranged if those behind it are
      exact later.cons (p, slot)

/-- The order of the places is of no account for what is made of all results. -/
theorem SlotsReordered.evaluateSlots_eq (h : SlotsReordered predicates slots predicates' slots')
    (known : Predicate.AreWritten predicates) (known' : Predicate.AreWritten predicates')
    (written : ∀ slot ∈ slots, slot.WritesBytes) (written' : ∀ slot ∈ slots', slot.WritesBytes)
    (count : predicates.length = slots.length) :
    (do return (← evaluateSlots predicates' slots').all id : Except Failure Bool) =
      (do return (← evaluateSlots predicates slots).all id) := by
  have perm := h.perm count
  refine ((decideEach_evaluateSlots known' written').bind fun _ => DecideEach.all_iff).congr
    ((decideEach_evaluateSlots known written).bind fun _ => DecideEach.all_iff) ?_ ?_
  · exact exists_congr fun place => by rw [perm.mem_iff]
  · exact forall_congr' fun place => by rw [perm.mem_iff]

/-- The order of the places behind the first is of no account for the check of the arguments. -/
theorem SlotsReordered.isAllowedCalldata_eq (h : SlotsReordered predicates slots predicates' slots')
    {allowed allowed' actual actual' : Hex} (value : Int)
    (decoded : decodeAllowedArguments allowed = .ok predicates)
    (decoded' : decodeAllowedArguments allowed' = .ok predicates')
    (read : decodeActualArguments actual = .ok slots)
    (read' : decodeActualArguments actual' = .ok slots') :
    isAllowedCalldata allowed' actual' value = isAllowedCalldata allowed actual value := by
  have known := (givesOrRefuses_decodeAllowedArguments allowed).holds decoded
  have known' := (givesOrRefuses_decodeAllowedArguments allowed').holds decoded'
  have written := (givesOrRefuses_decodeActualArguments actual).holds (orFail_eq_ok.2 read)
  have written' := (givesOrRefuses_decodeActualArguments actual').holds (orFail_eq_ok.2 read')
  unfold isAllowedCalldata
  rw [decoded, decoded', read, read']
  simp only [orFail_ok, ok_bind, h.predicateCount, h.slotCount]
  by_cases count : predicates.length = slots.length
  · have same := h.evaluateSlots_eq known known' written written' count
    have first := h.firstSlot
    cases slots with
    | nil =>
      cases slots' with
      | nil => rfl
      | cons _ _ => cases first
    | cons slot slots =>
      cases slots' with
      | nil => cases first
      | cons slot' slots' =>
        cases first
        simp only [same]
  · simp only [if_pos count, ne_eq]
    rfl

/-- **Evaluation is propositional and free of order.** Of a predicate with literals that write bytes, and an
actual value of bytes `b`, the evaluation is refused as malformed exactly if some comparison of numbers in
it, at any depth, is of less than a word; otherwise it ends, and tells whether the predicate holds of `b`.
The order of children is of no account, at any depth, and in the check of arguments that can be read neither
is the order of the places behind the first. -/
theorem evaluation_orderless :
    (∀ (p : Predicate) (actual : Hex) (b : Bytes), p.IsWritten → actual.bytes? = some b →
      ((∃ refusal, p.evaluate actual = .error (.refused refusal) ∧ refusal.code = .malformedInput) ↔
        p.LacksWord b) ∧
      (¬p.LacksWord b → ∃ result, p.evaluate actual = .ok result ∧ (result = true ↔ p.Holds b)) ∧
      ∀ q, p.Reordered q → q.evaluate actual = p.evaluate actual) ∧
    ∀ (allowed allowed' actual actual' : Hex) (value : Int) (predicates predicates' : List Predicate)
      (slots slots' : List Hex),
      decodeAllowedArguments allowed = .ok predicates → decodeAllowedArguments allowed' = .ok predicates' →
      decodeActualArguments actual = .ok slots → decodeActualArguments actual' = .ok slots' →
      SlotsReordered predicates slots predicates' slots' →
      isAllowedCalldata allowed' actual' value = isAllowedCalldata allowed actual value := by
  refine ⟨fun p actual b known hb => ?_, fun _ _ _ _ value _ _ _ _ decoded decoded' read read' reordered =>
    reordered.isAllowedCalldata_eq value decoded decoded' read read'⟩
  have same : ∀ q, p.Reordered q → q.evaluate actual = p.evaluate actual := fun q reordered =>
    reordered.evaluate_eq known hb
  have decided := p.decides_evaluate hb known
  generalize p.evaluate actual = ending at same decided ⊢
  cases decided with
  | refused short => exact ⟨iff_of_true ⟨.shortWord, rfl, rfl⟩ short, fun whole => absurd short whole, same⟩
  | ends whole told => exact ⟨iff_of_false nofun whole, fun _ => ⟨_, rfl, told⟩, same⟩

/-! ### A number that is always too short -/

/-- Anything, or a number above a literal of one byte. -/
def anyOrAbove : Predicate :=
  .combine .or [.any, .compare .gt (Hex.ofBytes [7])]

/-- Any value, then the byte `first`, then the byte `second`. -/
def twoBytesAllowed (first second : UInt8) : Hex :=
  Hex.ofBytes [0xc9, 0xc2, 0x00, 0x80, 0xc2, 0x02, first, 0xc2, 0x02, second]

/-- The value zero, then the byte `first`, then the byte `second`. -/
def twoBytesPresented (first second : UInt8) : Hex :=
  Hex.ofBytes ([0xe3, 0xa0] ++ Bytes.ofNat 32 0 ++ [first, second])

/-- The alternative that always holds does not hide the literal that is too short, on either side of it; and
two bytes are compared with two others in any order. -/
theorem anyOrAbove_refused :
    (∃ refusal, anyOrAbove.evaluate (Hex.ofBytes (Bytes.ofNat 32 8)) = .error (.refused refusal) ∧
      refusal.code = .malformedInput) ∧
    (Predicate.combine .or [.compare .gt (Hex.ofBytes [7]), .any]).evaluate (Hex.ofBytes (Bytes.ofNat 32 8)) =
      anyOrAbove.evaluate (Hex.ofBytes (Bytes.ofNat 32 8)) ∧
    isAllowedCalldata (twoBytesAllowed 6 5) (twoBytesPresented 6 5) 0 =
      isAllowedCalldata (twoBytesAllowed 5 6) (twoBytesPresented 5 6) 0 := by
  obtain ⟨evaluation, matching⟩ := evaluation_orderless
  obtain ⟨refused, -, reordered⟩ := evaluation anyOrAbove (Hex.ofBytes (Bytes.ofNat 32 8)) _
    ⟨trivial, Hex.writesBytes_ofBytes [7], trivial⟩ (Hex.bytes?_ofBytes _)
  have short : anyOrAbove.LacksWord (Bytes.ofNat 32 8) :=
    ⟨.gt, _, [7], .inside (.tail _ (.head _)) .here, trivial, Hex.bytes?_ofBytes [7], .inr (by decide)⟩
  refine ⟨refused.2 short, reordered _ (.children .or (.swap _ _ _)), ?_⟩
  refine matching (twoBytesAllowed 5 6) (twoBytesAllowed 6 5) (twoBytesPresented 5 6) (twoBytesPresented 6 5) 0
    [.any, .compare .eq (Hex.ofBytes [5]), .compare .eq (Hex.ofBytes [6])]
    [.any, .compare .eq (Hex.ofBytes [6]), .compare .eq (Hex.ofBytes [5])]
    [Hex.ofBytes (Bytes.ofNat 32 0), Hex.ofBytes [5], Hex.ofBytes [6]]
    [Hex.ofBytes (Bytes.ofNat 32 0), Hex.ofBytes [6], Hex.ofBytes [5]] rfl rfl rfl rfl ?_
  exact ⟨rfl, rfl, rfl, rfl, fun _ => .swap _ _ _⟩

end SessionKeys
