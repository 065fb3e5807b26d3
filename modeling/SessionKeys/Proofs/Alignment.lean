import Mathlib
import SessionKeys.Predicate
import SessionKeys.Proofs.Computation
import SessionKeys.Proofs.Rlp

/-!
What predicates say of the words of some bytes when the bytes may be cut into slots in any way. A
predicate looks at the slot in its place, and the slots need not be words. Main statements:
`Aligned.confines`, by which every cut that aligned predicates accept is confined to the words, and
`escapes_of_misaligned`, by which predicates that are not aligned accept a cut that is not.
-/

namespace SessionKeys

namespace Predicate

/-! ### Predicates on bytes -/

/-- A predicate holds of a byte string. -/
def Accepts (p : Predicate) (b : Bytes) : Prop :=
  p.evaluate (Hex.ofBytes b) = .ok true

mutual

/-- Every literal of a predicate, however deep, is a word of 32 bytes. -/
def LiteralsAreWords : Predicate → Prop
  | any => True
  | compare _ literal => ∃ w, literal.bytes? = some w ∧ w.length = 32
  | combine _ children => AllLiteralsAreWords children

/-- Every literal of some predicates is a word of 32 bytes. -/
def AllLiteralsAreWords : List Predicate → Prop
  | [] => True
  | child :: children => LiteralsAreWords child ∧ AllLiteralsAreWords children

end

theorem Comparison.holds_congr {op : Comparison} {literal : Hex} {w b b' : Bytes}
    (hliteral : literal.bytes? = some w) (same : w = b ↔ w = b')
    (leading : leadingWord (Hex.ofBytes b) = leadingWord (Hex.ofBytes b')) :
    op.holds literal (Hex.ofBytes b) = op.holds literal (Hex.ofBytes b') := by
  have equal : literal.same (Hex.ofBytes b) = literal.same (Hex.ofBytes b') := by
    rw [Bool.eq_iff_iff, Hex.same_iff hliteral (Hex.bytes?_ofBytes b),
      Hex.same_iff hliteral (Hex.bytes?_ofBytes b'), same]
  cases op with
  | eq => simp only [Comparison.holds, equal]
  | ne => simp only [Comparison.holds, equal]
  | gt => simp only [Comparison.holds, leading]
  | lt => simp only [Comparison.holds, leading]

mutual

/-- A predicate on words looks at two things: which word a slot is, and which word it starts with. -/
theorem evaluate_congr {b b' : Bytes} (same : ∀ w : Bytes, w.length = 32 → (w = b ↔ w = b'))
    (leading : leadingWord (Hex.ofBytes b) = leadingWord (Hex.ofBytes b')) :
    ∀ p : Predicate, p.LiteralsAreWords →
      p.evaluate (Hex.ofBytes b) = p.evaluate (Hex.ofBytes b')
  | any, _ => rfl
  | compare op literal, words => by
    rw [LiteralsAreWords] at words
    obtain ⟨w, hliteral, hlength⟩ := words
    rw [evaluate, evaluate]
    exact Comparison.holds_congr hliteral (same w hlength) leading
  | combine op children, words => by
    rw [LiteralsAreWords] at words
    rw [evaluate, evaluate, evaluateAll_congr same leading children words]

theorem evaluateAll_congr {b b' : Bytes} (same : ∀ w : Bytes, w.length = 32 → (w = b ↔ w = b'))
    (leading : leadingWord (Hex.ofBytes b) = leadingWord (Hex.ofBytes b')) :
    ∀ children : List Predicate, AllLiteralsAreWords children →
      evaluateAll (Hex.ofBytes b) children = evaluateAll (Hex.ofBytes b') children
  | [], _ => by rw [evaluateAll, evaluateAll]
  | child :: children, words => by
    rw [AllLiteralsAreWords] at words
    rw [evaluateAll, evaluateAll, evaluate_congr same leading child words.1,
      evaluateAll_congr same leading children words.2]

end

/-- What is longer than a word is accepted or not by its first word. -/
theorem accepts_long {p : Predicate} (words : p.LiteralsAreWords) {b b' : Bytes}
    (hb : 32 < b.length) (hb' : 32 < b'.length) (start : b.take 32 = b'.take 32) :
    p.Accepts b ↔ p.Accepts b' := by
  unfold Accepts
  rw [evaluate_congr ?_ ?_ p words]
  · intro w hw
    constructor
    · rintro rfl
      omega
    · rintro rfl
      omega
  · have read : ∀ c : Bytes, 32 < c.length →
        leadingWord (Hex.ofBytes c) = .ok (Bytes.toNat (c.take 32) : Int) := by
      intro c hc
      have nonempty : c.take 32 ≠ [] := by
        intro h
        have := congrArg List.length h
        rw [List.length_take, List.length_nil] at this
        omega
      unfold leadingWord
      rw [Hex.size_ofBytes, if_neg (by omega),
        Hex.toInt_of_bytes? (Hex.bytes?_take (Hex.bytes?_ofBytes c) 32) nonempty]
    rw [read b hb, read b' hb', start]

/-! ### Alignment -/

/-- Whatever a predicate accepts starts with a word that it accepts too. -/
def ReadsWord (p : Predicate) : Prop :=
  ∀ b, p.Accepts b → 32 ≤ b.length ∧ p.Accepts (b.take 32)

/-- A predicate accepts something longer than a word. -/
def Stretches (p : Predicate) : Prop :=
  ∃ b, p.Accepts b ∧ 32 < b.length

/-- A predicate accepts every word. -/
def AcceptsWords (p : Predicate) : Prop :=
  ∀ w : Bytes, w.length = 32 → p.Accepts w

/-- Each predicate reads a word, and one that can be given more than a word is followed only by
predicates that accept every word. -/
def Aligned : List Predicate → Prop
  | [] => True
  | p :: ps => p.ReadsWord ∧ (p.Stretches → ∀ q ∈ ps, q.AcceptsWords) ∧ Aligned ps

/-- There are as many words as predicates, and each predicate accepts the word in its place. -/
def Confined (ps : List Predicate) (arguments : Bytes) : Prop :=
  32 * ps.length ≤ arguments.length ∧
    ∀ i (p : Predicate), ps[i]? = some p → p.Accepts ((arguments.drop (32 * i)).take 32)

/-- Aligned predicates confine every cut into slots that they accept. -/
theorem Aligned.confines {ps : List Predicate} (h : Aligned ps) {slots : List Bytes}
    (accepted : List.Forall₂ Accepts ps slots) : Confined ps slots.flatten := by
  induction accepted with
  | nil => exact ⟨Nat.zero_le _, by simp⟩
  | @cons p slot ps slots here later ih =>
    obtain ⟨reads, stretches, aligned⟩ := h
    obtain ⟨hlength, first⟩ := reads slot here
    obtain ⟨enough, each⟩ := ih aligned
    rw [List.flatten_cons]
    refine ⟨by rw [List.length_cons, List.length_append]; omega, fun i q hq => ?_⟩
    cases i with
    | zero =>
      rw [List.getElem?_cons_zero, Option.some.injEq] at hq
      subst hq
      rw [Nat.mul_zero, List.drop_zero, List.take_append_of_le_length hlength]
      exact first
    | succ i =>
      rw [List.getElem?_cons_succ] at hq
      by_cases whole : slot.length = 32
      · have rest : (slot ++ slots.flatten).drop (32 * (i + 1)) = slots.flatten.drop (32 * i) := by
          rw [List.drop_append, List.drop_eq_nil_of_le (by omega), List.nil_append, whole]
          congr 1
        rw [rest]
        exact each i q hq
      · -- the slot reaches into the words behind it, which are accepted whatever they are
        have words := stretches ⟨slot, here, by omega⟩ q (List.mem_of_getElem? hq)
        refine words _ ?_
        have hi : i < ps.length := by
          obtain ⟨hi, -⟩ := List.getElem?_eq_some_iff.1 hq
          exact hi
        rw [List.length_take, List.length_drop, List.length_append]
        omega

/-! ### Cuts that are not confined -/

variable {p : Predicate} {ps : List Predicate}

/-- What a predicate on words accepts can be shortened to little more than a word. -/
theorem exists_small (words : p.LiteralsAreWords) {b : Bytes} (h : p.Accepts b) :
    ∃ small, p.Accepts small ∧ small.length ≤ 33 := by
  by_cases long : 32 < b.length
  · have start : b.take 32 = (b.take 33).take 32 := by
      rw [List.take_take]
      rfl
    have reaches : 32 < (b.take 33).length := by
      rw [List.length_take]
      omega
    refine ⟨b.take 33, (accepts_long words long reaches start).1 h, ?_⟩
    rw [List.length_take]
    omega
  · exact ⟨b, h, by omega⟩

/-- One slot for each of some predicates, none longer than `bound`. -/
theorem exists_slots {bound : Nat} (each : ∀ p ∈ ps, ∃ b, Accepts p b ∧ b.length ≤ bound) :
    ∃ slots, List.Forall₂ Accepts ps slots ∧ ∀ slot ∈ slots, slot.length ≤ bound := by
  induction ps with
  | nil => exact ⟨[], .nil, by simp⟩
  | cons p ps ih =>
    obtain ⟨b, hb, hlength⟩ := each p List.mem_cons_self
    obtain ⟨slots, accepted, lengths⟩ := ih fun q hq => each q (List.mem_cons_of_mem p hq)
    refine ⟨b :: slots, .cons hb accepted, fun slot hs => ?_⟩
    rcases List.mem_cons.1 hs with rfl | hs
    · exact hlength
    · exact lengths slot hs

/-- One word for each of some predicates. -/
theorem exists_words (each : ∀ p ∈ ps, ∃ w, Accepts p w ∧ w.length = 32) :
    ∃ slots, List.Forall₂ Accepts ps slots ∧ (∀ slot ∈ slots, slot.length = 32) ∧
      slots.flatten.length = 32 * ps.length := by
  induction ps with
  | nil => exact ⟨[], .nil, by simp, rfl⟩
  | cons p ps ih =>
    obtain ⟨w, hw, hlength⟩ := each p List.mem_cons_self
    obtain ⟨slots, accepted, lengths, total⟩ := ih fun q hq => each q (List.mem_cons_of_mem p hq)
    refine ⟨w :: slots, .cons hw accepted, fun slot hs => ?_, ?_⟩
    · rcases List.mem_cons.1 hs with rfl | hs
      · exact hlength
      · exact lengths slot hs
    · rw [List.flatten_cons, List.length_append, hlength, total, List.length_cons]
      omega

/-- Predicates that are not aligned have one among them that does not read a word, or that can be
given more than a word and has one behind it that does not accept some word. -/
theorem exists_misaligned (h : ¬Aligned ps) :
    ∃ before p rest, ps = before ++ p :: rest ∧
      (¬p.ReadsWord ∨ p.Stretches ∧ ∃ q ∈ rest, ¬q.AcceptsWords) := by
  induction ps with
  | nil => exact absurd trivial h
  | cons p ps ih =>
    by_cases reads : p.ReadsWord
    · by_cases stretches : p.Stretches ∧ ∃ q ∈ ps, ¬q.AcceptsWords
      · exact ⟨[], p, ps, rfl, .inr stretches⟩
      · have further : ¬Aligned ps := by
          intro aligned
          refine h ⟨reads, fun hs q hq => ?_, aligned⟩
          by_contra words
          exact stretches ⟨hs, q, hq, words⟩
        obtain ⟨before, q, rest, rfl, misaligned⟩ := ih further
        exact ⟨p :: before, q, rest, rfl, misaligned⟩
    · exact ⟨[], p, ps, rfl, .inl reads⟩

/-- Some predicates accept a cut that is not confined to the words, and that is not too long to be
written. -/
def Escapes (ps : List Predicate) : Prop :=
  ∃ slots, List.Forall₂ Accepts ps slots ∧ ¬Confined ps slots.flatten ∧
    Rlp.room slots ≤ 70 * ps.length + 64

theorem room_le {bound : Nat} {slots : List Bytes} (h : ∀ slot ∈ slots, slot.length ≤ bound) :
    Rlp.room slots ≤ (bound + 5) * slots.length := by
  induction slots with
  | nil => exact Nat.zero_le _
  | cons slot slots ih =>
    have here := h slot List.mem_cons_self
    have later := ih fun s hs => h s (List.mem_cons_of_mem slot hs)
    rw [Rlp.room_cons, List.length_cons, Nat.mul_succ]
    omega

theorem room_append (first last : List Bytes) :
    Rlp.room (first ++ last) = Rlp.room first + Rlp.room last := by
  unfold Rlp.room
  rw [List.map_append, List.sum_append]

/-- Where one of the predicates accepts no word, no cut is confined. -/
theorem escapes_of_wordless (each : ∀ p ∈ ps, ∃ b, Accepts p b ∧ b.length ≤ 33) (hp : p ∈ ps)
    (none : ∀ w : Bytes, w.length = 32 → ¬p.Accepts w) : Escapes ps := by
  obtain ⟨slots, accepted, small⟩ := exists_slots each
  refine ⟨slots, accepted, fun confined => ?_, ?_⟩
  · obtain ⟨i, hi, rfl⟩ := List.getElem_of_mem hp
    refine none _ ?_ (confined.2 i _ (List.getElem?_eq_getElem hi))
    have enough := confined.1
    rw [List.length_take, List.length_drop]
    omega
  · have room := room_le small
    rw [← accepted.length_eq] at room
    omega

section Cut

variable {before rest : List Predicate}

/-- A slot that one of the predicates accepts, between words for the others. -/
theorem escapes_of_cut {slot : Bytes} (each : ∀ q ∈ before ++ p :: rest, ∃ w, Accepts q w ∧ w.length = 32)
    (accepted : p.Accepts slot) (short : slot.length ≤ 32 * rest.length + 64)
    (unconfined : ∀ first last : List Bytes, first.flatten.length = 32 * before.length →
      last.flatten.length = 32 * rest.length →
      ¬Confined (before ++ p :: rest) (first ++ slot :: last).flatten) :
    Escapes (before ++ p :: rest) := by
  obtain ⟨first, hfirst, wordsFirst, totalFirst⟩ :=
    exists_words fun q (hq : q ∈ before) => each q (by simp [hq])
  obtain ⟨last, hlast, wordsLast, totalLast⟩ :=
    exists_words fun q (hq : q ∈ rest) => each q (by simp [hq])
  refine ⟨first ++ slot :: last, List.rel_append hfirst (.cons accepted hlast),
    unconfined first last totalFirst totalLast, ?_⟩
  have roomFirst := room_le fun s hs => Nat.le_of_eq (wordsFirst s hs)
  have roomLast := room_le fun s hs => Nat.le_of_eq (wordsLast s hs)
  rw [← hfirst.length_eq] at roomFirst
  rw [← hlast.length_eq] at roomLast
  rw [room_append, Rlp.room_cons, List.length_append, List.length_cons]
  omega

/-- The bytes that start at a slot behind words, or some words further on. -/
theorem drop_flatten (first last : List Bytes) {slot : Bytes} {n : Nat} (i : Nat)
    (h : first.flatten.length = 32 * n) :
    (first ++ slot :: last).flatten.drop (32 * (n + i)) = (slot ++ last.flatten).drop (32 * i) := by
  rw [List.flatten_append, List.flatten_cons, List.drop_append, List.drop_eq_nil_of_le (by omega),
    List.nil_append, h]
  congr 1
  omega

/-- Where a predicate accepts less than a word, there may be fewer bytes than words. -/
theorem escapes_of_short (each : ∀ q ∈ before ++ p :: rest, ∃ w, Accepts q w ∧ w.length = 32)
    {b : Bytes} (hb : p.Accepts b) (short : b.length < 32) : Escapes (before ++ p :: rest) := by
  refine escapes_of_cut each hb (by omega) fun first last hfirst hlast confined => ?_
  have enough := confined.1
  rw [List.flatten_append, List.flatten_cons] at enough
  simp only [List.length_append, List.length_cons, hfirst, hlast] at enough
  omega

/-- Where a predicate accepts more than a word but not the word at its start, that word may stand in
the place of the predicate. -/
theorem escapes_of_misread (each : ∀ q ∈ before ++ p :: rest, ∃ w, Accepts q w ∧ w.length = 32)
    (words : p.LiteralsAreWords) {b : Bytes} (hb : p.Accepts b) (long : 32 < b.length)
    (start : ¬p.Accepts (b.take 32)) : Escapes (before ++ p :: rest) := by
  have cutStart : (b.take 33).take 32 = b.take 32 := by
    rw [List.take_take]
    rfl
  have cutLength : (b.take 33).length = 33 := by
    rw [List.length_take]
    omega
  have hcut : p.Accepts (b.take 33) := (accepts_long words long (by omega) cutStart.symm).1 hb
  refine escapes_of_cut each hcut (by omega) fun first last hfirst _ confined => ?_
  have here := confined.2 before.length p (by simp)
  rw [show before.length = before.length + 0 from rfl, drop_flatten first last 0 hfirst,
    Nat.mul_zero, List.drop_zero, List.take_append_of_le_length (by omega), cutStart] at here
  exact start here

/-- Where a predicate accepts more than a word, its slot may reach up to the place of a later
predicate, and have a word there that this one does not accept. -/
theorem escapes_of_reach (each : ∀ q ∈ before ++ p :: rest, ∃ w, Accepts q w ∧ w.length = 32)
    (words : p.LiteralsAreWords) {b : Bytes} (hb : p.Accepts b) (long : 32 < b.length)
    {q : Predicate} (hq : q ∈ rest) {w : Bytes} (hw : w.length = 32) (refused : ¬q.Accepts w) :
    Escapes (before ++ p :: rest) := by
  obtain ⟨i, hi, rfl⟩ := List.getElem_of_mem hq
  have startLength : (b.take 32).length = 32 := by
    rw [List.length_take]
    omega
  have gapLength : (b.take 32 ++ List.replicate (32 * i) 0).length = 32 * (i + 1) := by
    rw [List.length_append, startLength, List.length_replicate]
    omega
  have hslot : p.Accepts (b.take 32 ++ List.replicate (32 * i) 0 ++ w) := by
    refine (accepts_long words long ?_ ?_).1 hb
    · rw [List.length_append, gapLength, hw]
      omega
    · rw [List.append_assoc, List.take_append_of_le_length (by omega), List.take_take]
      rfl
  refine escapes_of_cut each hslot ?_ fun first last hfirst _ confined => ?_
  · rw [List.length_append, gapLength, hw]
    omega
  · have place : (before ++ p :: rest)[before.length + (i + 1)]? = some rest[i] := by
      rw [List.getElem?_append_right (by omega), Nat.add_sub_cancel_left,
        List.getElem?_cons_succ, List.getElem?_eq_getElem hi]
    have here := confined.2 (before.length + (i + 1)) rest[i] place
    rw [drop_flatten first last (i + 1) hfirst, List.append_assoc _ w,
      List.drop_append, List.drop_eq_nil_of_le (by omega), List.nil_append, gapLength,
      Nat.sub_self, List.drop_zero, List.take_append_of_le_length (by omega),
      List.take_of_length_le (by omega)] at here
    exact refused here

end Cut

/-- Predicates on words that are not aligned accept a cut that is not confined to the words, if they
accept any cut at all. -/
theorem escapes_of_misaligned (words : ∀ p ∈ ps, p.LiteralsAreWords)
    (usable : ∃ slots, List.Forall₂ Accepts ps slots) (h : ¬Aligned ps) : Escapes ps := by
  have each : ∀ p ∈ ps, ∃ b, Accepts p b ∧ b.length ≤ 33 := by
    obtain ⟨slots, accepted⟩ := usable
    intro p hp
    obtain ⟨i, hi, rfl⟩ := List.getElem_of_mem hp
    have hslot : i < slots.length := accepted.length_eq ▸ hi
    exact exists_small (words _ hp) (List.Forall₂.get accepted hi hslot)
  by_cases wordless : ∃ p ∈ ps, ∀ w : Bytes, w.length = 32 → ¬p.Accepts w
  · obtain ⟨p, hp, none⟩ := wordless
    exact escapes_of_wordless each hp none
  · have word : ∀ p ∈ ps, ∃ w, Accepts p w ∧ w.length = 32 := by
      intro p hp
      by_contra none
      exact wordless ⟨p, hp, fun w hw accepts => none ⟨w, accepts, hw⟩⟩
    obtain ⟨before, p, rest, rfl, misaligned⟩ := exists_misaligned h
    have wordsHere : p.LiteralsAreWords := words p (by simp)
    rcases misaligned with misread | ⟨⟨b, hb, long⟩, q, hq, refuses⟩
    · unfold ReadsWord at misread
      push Not at misread
      obtain ⟨b, hb, misread⟩ := misread
      by_cases short : b.length < 32
      · exact escapes_of_short word hb short
      · have start := misread (by omega)
        have long : 32 < b.length := by
          by_contra whole
          rw [List.take_of_length_le (by omega)] at start
          exact start hb
        exact escapes_of_misread word wordsHere hb long start
    · unfold AcceptsWords at refuses
      push Not at refuses
      obtain ⟨w, hw, refused⟩ := refuses
      exact escapes_of_reach word wordsHere hb long hq hw refused

end Predicate

end SessionKeys
