import SessionKeys.Bytes.Lemmas
import SessionKeys.Proofs.Computation
import SessionKeys.Rlp

/-!
The wire format reads back what it writes. An item that is written is read as it stands and the
reader stops where it ends, whatever follows it; what was read is written in small letters
(`Rlp.written`). Main statement: `decode_encode`.
-/

namespace SessionKeys.Rlp

/-! ### Lengths -/

/-- A header of an item of `length` bytes: it tells the kind of item, and where its contents end. -/
def Heads (offset length : Nat) (h : Bytes) : Prop :=
  ∃ first more, h = first :: more ∧ offset ≤ first.toNat ∧ first.toNat < offset + 60 ∧
    ∀ payload rest : Bytes, payload.length = length →
      contents (first.toNat - offset) (more ++ payload ++ rest) = .ok (payload, rest)

theorem split_append {n : Nat} {payload : Bytes} (h : payload.length = n) (rest : Bytes) :
    split n (payload ++ rest) = .ok (payload, rest) := by
  subst h
  simp [split]

theorem toNat_firstByte {offset k : Nat} (hoffset : offset ≤ 0xc0) (hk : k < 60) :
    (UInt8.ofNat (offset + k)).toNat = offset + k := by
  rw [UInt8.toNat_ofNat']
  omega

/-- A short length stands in the first byte. -/
theorem heads_short {offset length : Nat} (hoffset : offset ≤ 0xc0) (h : length ≤ 55) :
    Heads offset length [UInt8.ofNat (offset + length)] := by
  have hfirst := toNat_firstByte hoffset (show length < 60 by omega)
  refine ⟨_, [], rfl, by omega, by omega, fun payload rest hlength => ?_⟩
  rw [hfirst, Nat.add_sub_cancel_left]
  unfold contents
  rw [if_pos h, List.nil_append]
  exact split_append hlength rest

/-- A long length stands behind the first byte, which tells how many bytes it takes. -/
theorem heads_long {offset length : Nat} (hoffset : offset ≤ 0xc0) (width : Nat) (hpos : 1 ≤ width)
    (hwidth : width ≤ 4) (h : length < 256 ^ width) :
    Heads offset length (UInt8.ofNat (offset + (55 + width)) :: Bytes.ofNat width length) := by
  have hfirst := toNat_firstByte hoffset (show 55 + width < 60 by omega)
  refine ⟨_, _, rfl, by omega, by omega, fun payload rest hlength => ?_⟩
  rw [hfirst, Nat.add_sub_cancel_left]
  unfold contents
  rw [if_neg (by omega), if_pos (by omega), show 55 + width - 55 = width by omega,
    List.append_assoc, split_append (Bytes.length_ofNat width length), ok_bind]
  simp only
  rw [Bytes.toNat_ofNat, Nat.mod_eq_of_lt h]
  exact split_append hlength rest

theorem header_eq_ok {offset length : Nat} {h : Bytes} (hoffset : offset ≤ 0xc0)
    (hh : header offset length = .ok h) : Heads offset length h := by
  unfold header at hh
  split at hh
  next hlt =>
    cases hh
    exact heads_short hoffset hlt
  next =>
    split at hh
    next hlt =>
      cases hh
      exact heads_long hoffset 1 (by omega) (by omega) (by omega)
    next =>
      split at hh
      next hlt =>
        cases hh
        exact heads_long hoffset 2 (by omega) (by omega) (by omega)
      next =>
        split at hh
        next hlt =>
          cases hh
          exact heads_long hoffset 3 (by omega) (by omega) (by omega)
        next =>
          split at hh
          next hlt =>
            cases hh
            exact heads_long hoffset 4 (by omega) (by omega) (by omega)
          next => cases hh

/-! ### Byte strings -/

theorem readItem_encodeBytes {b enc : Bytes} (h : encodeBytes b = .ok enc) (depth : Nat)
    (rest : Bytes) :
    readItem (depth + 1) (enc ++ rest) = .ok (.bytes (Hex.ofBytes b), rest) := by
  unfold encodeBytes at h
  split at h
  next x =>
    split at h
    next small =>
      cases h
      simp [readItem, small]
    next large =>
      cases h
      simp [readItem, contents, Rlp.split]
  next =>
    obtain ⟨hd, hheader, done⟩ := bind_eq_ok.1 h
    cases done
    obtain ⟨first, more, rfl, lower, upper, reads⟩ := header_eq_ok (by omega) hheader
    rw [List.cons_append, List.cons_append, readItem, if_neg (by omega), if_pos (by omega),
      reads b rest rfl]
    rfl

theorem encodeBytes_ne_nil {b enc : Bytes} (h : encodeBytes b = .ok enc) : enc ≠ [] := by
  unfold encodeBytes at h
  split at h
  · split at h
    · cases h
      exact List.cons_ne_nil _ _
    · cases h
      exact List.cons_ne_nil _ _
  · obtain ⟨hd, hheader, done⟩ := bind_eq_ok.1 h
    cases done
    obtain ⟨first, more, rfl, -⟩ := header_eq_ok (by omega) hheader
    exact List.cons_ne_nil _ _

/-! ### Items -/

mutual

/-- How many items stand one inside the other, at most. -/
def depth : Rlp → Nat
  | bytes _ => 1
  | list items => depthAll items + 1

/-- How many items stand one inside the other in some items, at most. -/
def depthAll : List Rlp → Nat
  | [] => 0
  | item :: items => max (depth item) (depthAll items)

end

mutual

/-- An item as it is read back: its byte strings in small letters. -/
def written : Rlp → Rlp
  | bytes h => bytes (Hex.ofBytes (h.read?.getD []))
  | list items => list (writtenAll items)

/-- Some items as they are read back. -/
def writtenAll : List Rlp → List Rlp
  | [] => []
  | item :: items => written item :: writtenAll items

end

theorem encode_ne_nil {item : Rlp} {enc : Bytes} (h : encode item = .ok enc) : enc ≠ [] := by
  cases item with
  | bytes b =>
    rw [encode] at h
    split at h
    · exact encodeBytes_ne_nil h
    · cases h
  | list items =>
    rw [encode] at h
    obtain ⟨payload, -, rest⟩ := bind_eq_ok.1 h
    obtain ⟨hd, hheader, done⟩ := bind_eq_ok.1 rest
    cases done
    obtain ⟨first, more, rfl, -⟩ := header_eq_ok (by omega) hheader
    exact List.cons_ne_nil _ _

mutual

/-- An item that was written is read where it stands, and no further. -/
theorem readItem_encode : ∀ (item : Rlp) {enc : Bytes}, encode item = .ok enc →
    ∀ (d : Nat) (rest : Bytes), item.depth ≤ d → readItem d (enc ++ rest) = .ok (item.written, rest)
  | bytes h, enc, henc, d, rest, hd => by
    rw [depth] at hd
    obtain ⟨d, rfl⟩ : ∃ n, d = n + 1 := ⟨d - 1, by omega⟩
    rw [encode] at henc
    split at henc
    next b hb =>
      rw [written, hb]
      exact readItem_encodeBytes henc d rest
    next => cases henc
  | list items, enc, henc, d, rest, hd => by
    rw [depth] at hd
    obtain ⟨d, rfl⟩ : ∃ n, d = n + 1 := ⟨d - 1, by omega⟩
    rw [encode] at henc
    obtain ⟨payload, hpayload, henc⟩ := bind_eq_ok.1 henc
    obtain ⟨hd, hheader, done⟩ := bind_eq_ok.1 henc
    cases done
    obtain ⟨first, more, rfl, lower, upper, reads⟩ := header_eq_ok (by omega) hheader
    have inside := readAll_encodeAll items hpayload d payload.length (by omega) (Nat.le_refl _)
    rw [List.cons_append, List.cons_append, readItem, if_neg (by omega), if_neg (by omega),
      reads payload rest rfl, ok_bind]
    simp only
    rw [inside, written]
    rfl

/-- Items that were written one after the other are read back, with fuel for each of their bytes. -/
theorem readAll_encodeAll : ∀ (items : List Rlp) {enc : Bytes}, encodeAll items = .ok enc →
    ∀ (d fuel : Nat), depthAll items ≤ d → enc.length ≤ fuel →
      readAll (readItem d) fuel enc = .ok (writtenAll items)
  | [], enc, henc, d, fuel, _, _ => by
    rw [encodeAll] at henc
    cases henc
    cases fuel <;> rfl
  | item :: items, enc, henc, d, fuel, hd, hfuel => by
    rw [depthAll] at hd
    rw [encodeAll] at henc
    obtain ⟨first, hfirst, henc⟩ := bind_eq_ok.1 henc
    obtain ⟨rest, hrest, done⟩ := bind_eq_ok.1 henc
    cases done
    have hne := encode_ne_nil hfirst
    have hpos := List.length_pos_iff.2 hne
    rw [List.length_append] at hfuel
    obtain ⟨fuel, rfl⟩ : ∃ n, fuel = n + 1 := ⟨fuel - 1, by omega⟩
    have one := readItem_encode item hfirst d rest (by omega)
    have others := readAll_encodeAll items hrest d fuel (by omega) (by omega)
    obtain ⟨x, first, rfl⟩ := List.exists_cons_of_ne_nil hne
    rw [List.cons_append] at one ⊢
    rw [readAll, one, ok_bind]
    · simp only
      rw [others, writtenAll]
      rfl
    · rintro ⟨⟩

end

/-- What was written is read back as a whole. -/
theorem decode_encode {item : Rlp} {enc : Bytes} (h : encode item = .ok enc)
    (hdepth : item.depth ≤ depthLimit) : decode enc = .ok item.written := by
  have reads := readItem_encode item h depthLimit [] hdepth
  rw [List.append_nil] at reads
  obtain ⟨first, rest, rfl⟩ := List.exists_cons_of_ne_nil (encode_ne_nil h)
  unfold decode
  simp only [reads, ok_bind]
  rfl

theorem ofHex_ofBytes (b : Bytes) : ofHex (Hex.ofBytes b) = decode b := by
  have even : (Hex.ofBytes b).chars.length % 2 = 0 := by
    have digits := Hex.length_of_bytesOfDigits? (Hex.bytesOfDigits?_flatMap b)
    simp only [Hex.ofBytes, Hex.ofDigits, List.length_cons]
    omega
  unfold ofHex
  rw [if_neg (by omega), Hex.read?_of_bytes? (Hex.bytes?_ofBytes b)]

/-! ### What can be written -/

/-- The first length that no header can tell, `2 ^ 32`. -/
def lengthBound : Nat := 0x100000000

theorem exists_header (offset : Nat) {length : Nat} (h : length < lengthBound) :
    ∃ hd, header offset length = .ok hd ∧ hd.length ≤ 5 := by
  unfold lengthBound at h
  unfold header
  split
  · exact ⟨_, rfl, by simp⟩
  · split
    · exact ⟨_, rfl, by simp⟩
    · split
      · exact ⟨_, rfl, by simp⟩
      · split
        · exact ⟨_, rfl, by simp⟩
        · exact ⟨_, rfl, by simp⟩

/-- A byte string can be written if it is not too long. -/
theorem exists_encodeBytes {b : Bytes} (h : b.length < lengthBound) :
    ∃ enc, encodeBytes b = .ok enc ∧ enc.length ≤ b.length + 5 := by
  unfold encodeBytes
  split
  · split
    · exact ⟨_, rfl, by simp⟩
    · exact ⟨_, rfl, by simp⟩
  · obtain ⟨hd, hheader, hlength⟩ := exists_header 0x80 h
    rw [hheader]
    refine ⟨_, rfl, ?_⟩
    rw [List.length_append]
    omega

/-- How many bytes some byte strings take at most when they are written one after the other. -/
def room (values : List Bytes) : Nat :=
  (values.map fun b => b.length + 5).sum

theorem room_cons (b : Bytes) (values : List Bytes) :
    room (b :: values) = b.length + 5 + room values := rfl

theorem exists_encodeAll {values : List Bytes} (h : room values < lengthBound) :
    ∃ enc, encodeAll (values.map fun b => .bytes (Hex.ofBytes b)) = .ok enc ∧
      enc.length ≤ room values := by
  induction values with
  | nil => exact ⟨[], rfl, Nat.le_refl _⟩
  | cons b values ih =>
    rw [room_cons] at h ⊢
    obtain ⟨first, hfirst, lfirst⟩ := exists_encodeBytes (b := b) (by omega)
    obtain ⟨rest, hrest, lrest⟩ := ih (by omega)
    refine ⟨first ++ rest, ?_, by rw [List.length_append]; omega⟩
    rw [List.map_cons, encodeAll, encode, Hex.read?_of_bytes? (Hex.bytes?_ofBytes b)]
    simp only
    rw [hfirst, hrest]
    rfl

/-- A list of byte strings can be written if there is room for it. -/
theorem exists_encode_list {values : List Bytes} (h : room values < lengthBound) :
    ∃ enc, encode (.list (values.map fun b => .bytes (Hex.ofBytes b))) = .ok enc := by
  obtain ⟨payload, hpayload, hlength⟩ := exists_encodeAll h
  obtain ⟨hd, hheader, -⟩ := exists_header 0xc0 (hlength.trans_lt h)
  refine ⟨hd ++ payload, ?_⟩
  rw [encode, hpayload, ok_bind, hheader]
  rfl

theorem writtenAll_bytes (values : List Bytes) :
    writtenAll (values.map fun b => .bytes (Hex.ofBytes b)) =
      values.map fun b => .bytes (Hex.ofBytes b) := by
  induction values with
  | nil => rfl
  | cons b values ih =>
    rw [List.map_cons, writtenAll, written, Hex.read?_of_bytes? (Hex.bytes?_ofBytes b), ih]
    rfl

theorem depthAll_bytes (values : List Bytes) :
    depthAll (values.map fun b => .bytes (Hex.ofBytes b)) ≤ 1 := by
  induction values with
  | nil => simp [depthAll]
  | cons b values ih =>
    rw [List.map_cons, depthAll, depth]
    omega

/-- A list of byte strings is read back as it was written. -/
theorem ofHex_encode_list {values : List Bytes} {enc : Bytes}
    (h : encode (.list (values.map fun b => .bytes (Hex.ofBytes b))) = .ok enc) :
    ofHex (Hex.ofBytes enc) = .ok (.list (values.map fun b => .bytes (Hex.ofBytes b))) := by
  have depth : depth (.list (values.map fun b => .bytes (Hex.ofBytes b))) ≤ depthLimit := by
    have inside := depthAll_bytes values
    rw [Rlp.depth]
    unfold depthLimit
    omega
  rw [ofHex_ofBytes, decode_encode h depth, written, writtenAll_bytes]

/-! ### What is read -/

/-- A byte string that was read is in small letters. -/
theorem exists_ofBytes_of_readItem {d : Nat} {b rest : Bytes} {h : Hex}
    (hread : readItem d b = .ok (.bytes h, rest)) : ∃ c, h = Hex.ofBytes c := by
  cases d with
  | zero => cases hread
  | succ d =>
    cases b with
    | nil => cases hread
    | cons first b =>
      rw [readItem] at hread
      split at hread
      · cases hread
        exact ⟨_, rfl⟩
      · split at hread
        · obtain ⟨⟨content, rest'⟩, -, done⟩ := bind_eq_ok.1 hread
          cases done
          exact ⟨_, rfl⟩
        · obtain ⟨⟨content, rest'⟩, -, inside⟩ := bind_eq_ok.1 hread
          obtain ⟨items, -, done⟩ := bind_eq_ok.1 inside
          cases done

theorem exists_ofBytes_of_readAll {d fuel : Nat} {b : Bytes} {items : List Rlp}
    (hread : readAll (readItem d) fuel b = .ok items) {h : Hex} (hmem : .bytes h ∈ items) :
    ∃ c, h = Hex.ofBytes c := by
  induction fuel generalizing b items with
  | zero =>
    cases b with
    | nil =>
      cases hread
      cases hmem
    | cons first b => cases hread
  | succ fuel ih =>
    cases b with
    | nil =>
      cases hread
      cases hmem
    | cons first b =>
      rw [readAll] at hread
      · obtain ⟨⟨item, rest⟩, one, others⟩ := bind_eq_ok.1 hread
        obtain ⟨items', more, done⟩ := bind_eq_ok.1 others
        cases done
        rcases List.mem_cons.1 hmem with rfl | later
        · exact exists_ofBytes_of_readItem one
        · exact ih more later
      · rintro ⟨⟩

/-- The byte strings of a list that was read are in small letters. -/
theorem exists_ofBytes_of_ofHex {h : Hex} {items : List Rlp} (hread : ofHex h = .ok (.list items))
    {slot : Hex} (hmem : .bytes slot ∈ items) : ∃ c, slot = Hex.ofBytes c := by
  unfold ofHex at hread
  split at hread
  · cases hread
  · split at hread
    next b _ =>
      unfold decode at hread
      split at hread
      · cases hread
      · obtain ⟨⟨item, rest⟩, one, done⟩ := bind_eq_ok.1 hread
        simp only [throw_eq_error, ite_error_eq_ok, pure_eq_ok, Except.ok.injEq] at done
        obtain ⟨-, rfl⟩ := done
        cases b with
        | nil => cases one
        | cons first b =>
          unfold depthLimit at one
          rw [readItem] at one
          split at one
          · cases one
          · split at one
            · obtain ⟨⟨content, rest'⟩, -, done⟩ := bind_eq_ok.1 one
              cases done
            · obtain ⟨⟨content, rest'⟩, -, inside⟩ := bind_eq_ok.1 one
              obtain ⟨items', reads, done⟩ := bind_eq_ok.1 inside
              cases done
              exact exists_ofBytes_of_readAll reads hmem
    next => cases hread

end SessionKeys.Rlp
