import SessionKeys.Proofs.Refusals

/-!
The limits of the wire format. An item of byte strings can be written exactly if the contents of every item
in it are short enough for a header (`Rlp.Fits`), and then it takes `Rlp.encodedLength` bytes. What was
written is read back exactly if no more items stand one inside the other than may, where byte strings count
as well as lists. Main statements: `writes_encode`, `ofHex_encode`.
-/

namespace SessionKeys.Rlp

/-! ### Lengths -/

/-- How many bytes a header takes for contents of some length. -/
def headerLength (length : Nat) : Nat :=
  if length ≤ 55 then 1
  else if length < 0x100 then 2
  else if length < 0x10000 then 3
  else if length < 0x1000000 then 4
  else 5

/-- How many bytes a byte string takes with its header. A byte below `0x80` has none. -/
def bytesLength (b : Bytes) : Nat :=
  match b with
  | [x] => if x.toNat < 0x80 then 1 else 2
  | b => headerLength b.length + b.length

mutual

/-- How many bytes an item takes. -/
def encodedLength : Rlp → Nat
  | bytes h => bytesLength h.content
  | list items => headerLength (contentLength items) + contentLength items

/-- How many bytes some items take, one after the other. -/
def contentLength : List Rlp → Nat
  | [] => 0
  | item :: items => encodedLength item + contentLength items

end

mutual

/-- The contents of an item, and of every item in it, are shorter than the bound. -/
def Fits : Rlp → Prop
  | bytes h => h.content.length < lengthBound
  | list items => AllFit items ∧ contentLength items < lengthBound

def AllFit : List Rlp → Prop
  | [] => True
  | item :: items => Fits item ∧ AllFit items

end

mutual

/-- Whether the limits are kept to can be computed. -/
def decidableFits : (item : Rlp) → Decidable item.Fits
  | bytes h => inferInstanceAs (Decidable (h.content.length < lengthBound))
  | list items =>
    have := decidableAllFit items
    inferInstanceAs (Decidable (AllFit items ∧ contentLength items < lengthBound))

def decidableAllFit : (items : List Rlp) → Decidable (AllFit items)
  | [] => isTrue trivial
  | item :: items =>
    have := decidableFits item
    have := decidableAllFit items
    inferInstanceAs (Decidable (Fits item ∧ AllFit items))

end

instance (item : Rlp) : Decidable item.Fits :=
  decidableFits item

theorem headerLength_le (length : Nat) : headerLength length ≤ 5 := by
  unfold headerLength
  split_ifs <;> omega

/-! ### What can be written -/

/-- A computation writes some number of bytes exactly if a condition holds. -/
inductive Writes (fits : Prop) (length : Nat) : Except EncodingError Bytes → Prop
  | ends {b : Bytes} (short : fits) (size : b.length = length) : Writes fits length (.ok b)
  | fails {e : EncodingError} (long : ¬fits) : Writes fits length (.error e)

namespace Writes

variable {fits more : Prop} {length size : Nat} {x y : Except EncodingError Bytes}
  {f : Bytes → Except EncodingError Bytes}

theorem exists_iff (h : Writes fits length x) : (∃ b, x = .ok b) ↔ fits := by
  cases h with
  | ends short => exact iff_of_true ⟨_, rfl⟩ short
  | fails long => exact iff_of_false nofun long

theorem bind (h : Writes fits length x) (next : ∀ b : Bytes, b.length = length → Writes more size (f b)) :
    Writes (fits ∧ more) size (x >>= f) := by
  cases h with
  | fails long => exact .fails fun both => long both.1
  | @ends b short written =>
    rw [ok_bind, iff_true_intro short, true_and]
    exact next b written

theorem append (h : Writes fits length x) (h' : Writes more size y) :
    Writes (fits ∧ more) (length + size) (do let first ← x; let rest ← y; return first ++ rest) := by
  refine h.bind fun first written => ?_
  cases h' with
  | fails long => exact .fails long
  | ends short others => exact .ends short (by rw [List.length_append, written, others])

end Writes

theorem writes_header (offset length : Nat) :
    Writes (length < lengthBound) (headerLength length) (header offset length) := by
  unfold header headerLength lengthBound
  split_ifs
  · exact .ends (by omega) rfl
  · exact .ends (by omega) (by rw [List.length_cons, Bytes.length_ofNat])
  · exact .ends (by omega) (by rw [List.length_cons, Bytes.length_ofNat])
  · exact .ends (by omega) (by rw [List.length_cons, Bytes.length_ofNat])
  · exact .ends (by omega) (by rw [List.length_cons, Bytes.length_ofNat])
  · exact .fails (by omega)

/-- Contents behind their header are written exactly if they are short enough. -/
theorem writes_header_append (offset : Nat) (payload : Bytes) :
    Writes (payload.length < lengthBound) (headerLength payload.length + payload.length)
      (do return (← header offset payload.length) ++ payload) := by
  have tells := writes_header offset payload.length
  generalize header offset payload.length = told at tells ⊢
  cases tells with
  | ends short size => exact .ends short (by rw [List.length_append, size])
  | fails long => exact .fails long

theorem writes_encodeBytes (b : Bytes) :
    Writes (b.length < lengthBound) (bytesLength b) (encodeBytes b) := by
  match b with
  | [] => exact writes_header_append 0x80 []
  | [x] =>
    have short : [x].length < lengthBound := by
      unfold lengthBound
      rw [List.length_singleton]
      omega
    rw [encodeBytes, bytesLength]
    split_ifs
    · exact .ends short rfl
    · exact .ends short rfl
  | x :: y :: b => exact writes_header_append 0x80 (x :: y :: b)

mutual

/-- An item of byte strings is written exactly if it keeps to the limits. -/
theorem writes_encode : ∀ item : Rlp, item.IsWritten → Writes item.Fits item.encodedLength (encode item)
  | bytes h, ⟨b, hb⟩ => by
    rw [encode, Hex.read?_of_bytes? hb, Fits, encodedLength, Hex.content_of_bytes? hb]
    exact writes_encodeBytes b
  | list items, written => by
    rw [encode, Fits, encodedLength]
    refine (writes_encodeAll items written).bind fun payload size => ?_
    rw [← size]
    exact writes_header_append 0xc0 payload

theorem writes_encodeAll : ∀ items : List Rlp, AreWritten items →
    Writes (AllFit items) (contentLength items) (encodeAll items)
  | [], _ => .ends trivial rfl
  | item :: items, ⟨here, later⟩ => by
    rw [encodeAll, AllFit, contentLength]
    exact (writes_encode item here).append (writes_encodeAll items later)

end

/-! ### What is read back -/

theorem readAll_of_ne_nil (read : Bytes → Except DecodeError (Rlp × Bytes)) (fuel : Nat) {b : Bytes}
    (h : b ≠ []) :
    readAll read (fuel + 1) b = (do
      let (item, rest) ← read b
      return item :: (← readAll read fuel rest)) := by
  rw [readAll]
  exact h

mutual

/-- An item that was written is not read if more items stand one inside the other than may. -/
theorem readItem_encode_deep : ∀ (item : Rlp) {enc : Bytes}, encode item = .ok enc →
    ∀ (d : Nat) (rest : Bytes), d < item.depth → readItem d (enc ++ rest) = .error .nestedTooDeeply
  | bytes h, enc, _, d, rest, hd => by
    rw [depth, Nat.lt_one_iff] at hd
    subst hd
    rfl
  | list items, enc, henc, 0, rest, _ => rfl
  | list items, enc, henc, d + 1, rest, hd => by
    rw [depth] at hd
    rw [encode] at henc
    obtain ⟨payload, hpayload, henc⟩ := bind_eq_ok.1 henc
    obtain ⟨header, hheader, done⟩ := bind_eq_ok.1 henc
    cases done
    obtain ⟨first, more, rfl, lower, upper, reads⟩ := header_eq_ok (by omega) hheader
    have inside := readAll_encodeAll_deep items hpayload d payload.length (by omega) (Nat.le_refl _)
    rw [List.cons_append, List.cons_append, readItem, if_neg (by omega), if_neg (by omega),
      reads payload rest rfl, ok_bind]
    simp only
    rw [inside]
    rfl

/-- The items before the one that is too deep are read, so this is the only cause to fail. -/
theorem readAll_encodeAll_deep : ∀ (items : List Rlp) {enc : Bytes}, encodeAll items = .ok enc →
    ∀ (d fuel : Nat), d < depthAll items → enc.length ≤ fuel →
      readAll (readItem d) fuel enc = .error .nestedTooDeeply
  | [], enc, henc, d, fuel, hd, _ => by
    rw [depthAll] at hd
    contradiction
  | item :: items, enc, henc, d, fuel, hd, hfuel => by
    rw [depthAll, lt_max_iff] at hd
    rw [encodeAll] at henc
    obtain ⟨first, hfirst, henc⟩ := bind_eq_ok.1 henc
    obtain ⟨rest, hrest, done⟩ := bind_eq_ok.1 henc
    cases done
    have hne := encode_ne_nil hfirst
    have hpos := List.length_pos_iff.2 hne
    rw [List.length_append] at hfuel
    obtain ⟨fuel, rfl⟩ : ∃ n, fuel = n + 1 := ⟨fuel - 1, by omega⟩
    rw [readAll_of_ne_nil _ fuel (List.append_ne_nil_of_left_ne_nil hne rest)]
    by_cases here : d < item.depth
    · rw [readItem_encode_deep item hfirst d rest here]
      rfl
    · have later := readAll_encodeAll_deep items hrest d fuel (hd.resolve_left here) (by omega)
      rw [readItem_encode item hfirst d rest (Nat.le_of_not_lt here), ok_bind]
      simp only
      rw [later]
      rfl

end

/-- What was written is read back, or more items stand one inside the other than may. -/
theorem ofHex_encode {item : Rlp} {enc : Bytes} (h : encode item = .ok enc) :
    ofHex (Hex.ofBytes enc) =
      if item.depth ≤ depthLimit then .ok item.written else .error .nestedTooDeeply := by
  rw [ofHex_ofBytes]
  split_ifs with deep
  · exact decode_encode h deep
  · have fails := readItem_encode_deep item h depthLimit [] (Nat.lt_of_not_le deep)
    rw [List.append_nil] at fails
    obtain ⟨first, rest, rfl⟩ := List.exists_cons_of_ne_nil (encode_ne_nil h)
    unfold decode
    simp only [fails, error_bind]

/-! ### Nested lists -/

mutual

/-- How many lists stand one inside the other, at most. -/
def nesting : Rlp → Nat
  | bytes _ => 0
  | list items => nestingAll items + 1

def nestingAll : List Rlp → Nat
  | [] => 0
  | item :: items => max (nesting item) (nestingAll items)

end

mutual

/-- There may be a byte string in the innermost list. -/
theorem depth_le_nesting : ∀ item : Rlp, item.depth ≤ item.nesting + 1
  | bytes _ => Nat.le_refl 1
  | list items => by
    rw [depth, nesting]
    exact Nat.succ_le_succ (depthAll_le_nestingAll items)

theorem depthAll_le_nestingAll : ∀ items : List Rlp, depthAll items ≤ nestingAll items + 1
  | [] => Nat.zero_le _
  | item :: items => by
    have here := depth_le_nesting item
    have later := depthAll_le_nestingAll items
    rw [depthAll, nestingAll]
    omega

end

end SessionKeys.Rlp
