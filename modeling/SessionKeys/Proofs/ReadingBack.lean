import SessionKeys.Proofs.Decoding
import SessionKeys.Proofs.Layout

/-!
Encoded contract arguments are read back (`decodeBytes_layout`). The reader follows the offsets of an
encoding to places that do not overlap, so it never reads at one position twice (`Scan.Finds`), and the
bound on that does not stop it.
-/

namespace SessionKeys.Abi

open Scan (moveTo follow many smallBound)

/-! ### Places in the data -/

/-- Some bytes stand at a position of the data. -/
def Holds (data : Bytes) (position : Nat) (bytes : Bytes) : Prop :=
  ∃ before after, data = before ++ (bytes ++ after) ∧ before.length = position

namespace Holds

variable {data x y : Bytes} {p : Nat}

theorem whole (data : Bytes) : Holds data 0 data :=
  ⟨[], [], by simp, rfl⟩

theorem left (h : Holds data p (x ++ y)) : Holds data p x := by
  obtain ⟨before, after, rfl, rfl⟩ := h
  exact ⟨before, y ++ after, by simp, rfl⟩

theorem right (h : Holds data p (x ++ y)) : Holds data (p + x.length) y := by
  obtain ⟨before, after, rfl, rfl⟩ := h
  exact ⟨before ++ x, after, by simp, by simp⟩

theorem le_length (h : Holds data p x) : p + x.length ≤ data.length := by
  obtain ⟨before, after, rfl, rfl⟩ := h
  simp only [List.length_append]
  omega

theorem take_drop (h : Holds data p x) : (data.drop p).take x.length = x := by
  obtain ⟨before, after, rfl, rfl⟩ := h
  simp

end Holds

/-! ### Reading without going back -/

namespace Scan

variable {α β : Type} {data : Bytes} {start mid stop n : Nat} {R S : Set Nat}

/-- A reader at `start` that has read nothing twice, and nothing in a region, finds a value. It then
stands at `stop` and has read nothing more than before but in the region. -/
def Finds (read : Scan α) (start : Nat) (region : Set Nat) (value : α) (stop : Nat) : Prop :=
  ∀ c : Cursor, c.position = start → c.rereads = 0 → (∀ p ∈ region, p ∉ c.visited) →
    ∃ c', read c = .ok (value, c') ∧ c'.position = stop ∧ c'.rereads = 0 ∧
      ∀ p ∈ c'.visited, p ∈ c.visited ∨ p ∈ region

namespace Finds

theorem mono {x : Scan α} {a : α} (found : Finds x start R a stop) (sub : R ⊆ S) :
    Finds x start S a stop := by
  intro c position rereads unread
  obtain ⟨c', run, position', rereads', visited⟩ :=
    found c position rereads fun p hp => unread p (sub hp)
  exact ⟨c', run, position', rereads', fun p hp => (visited p hp).imp_right (@sub p)⟩

theorem pure (a : α) : Finds (pure a) start ∅ a start :=
  fun c position rereads _ => ⟨c, rfl, position, rereads, fun _ hp => .inl hp⟩

theorem bind {x : Scan α} {f : α → Scan β} {a : α} {b : β} (first : Finds x start R a mid)
    (second : Finds (f a) mid S b stop) (apart : Disjoint R S) :
    Finds (x >>= f) start (R ∪ S) b stop := by
  intro c position rereads unread
  obtain ⟨c₁, run₁, position₁, rereads₁, visited₁⟩ :=
    first c position rereads fun p hp => unread p (.inl hp)
  have unread₁ : ∀ p ∈ S, p ∉ c₁.visited := by
    intro p hp hv
    rcases visited₁ p hv with before | here
    · exact unread p (.inr hp) before
    · exact Set.disjoint_left.1 apart here hp
  obtain ⟨c₂, run₂, position₂, rereads₂, visited₂⟩ := second c₁ position₁ rereads₁ unread₁
  refine ⟨c₂, Scan.bind_eq_ok.2 ⟨a, c₁, run₁, run₂⟩, position₂, rereads₂, fun p hp => ?_⟩
  rcases visited₂ p hp with before | here
  · exact (visited₁ p before).imp_right .inl
  · exact .inr (.inr here)

/-- What is found is put into a form. -/
theorem map {x : Scan α} {a : α} (found : Finds x start R a stop) (f : α → β) :
    Finds (do return f (← x)) start R (f a) stop := by
  have both := found.bind (f := fun a => Pure.pure (f a)) (.pure (f a)) (Set.disjoint_empty R)
  rwa [Set.union_empty] at both

/-- What two readers find, one after the other, is put together. -/
theorem map₂ {γ : Type} {x : Scan α} {y : Scan β} {a : α} {b : β} (first : Finds x start R a mid)
    (second : Finds y mid S b stop) (apart : Disjoint R S) (f : α → β → γ) :
    Finds (do let v ← x; let w ← y; return f v w) start (R ∪ S) (f a b) stop :=
  first.bind (f := fun v => do let w ← y; return f v w) (second.map (f a)) apart

/-- A reader that goes somewhere first. -/
theorem after {x : Scan Unit} {y : Scan β} {b : β} (first : Finds x start ∅ () mid)
    (second : Finds y mid R b stop) : Finds (do x; y) start R b stop := by
  have both := first.bind (f := fun _ => y) second (Set.empty_disjoint R)
  rwa [Set.empty_union] at both

end Finds

/-! ### Single steps -/

theorem finds_bytes {b : Bytes} (h : Holds data start b) (step : Nat) :
    Finds (bytes data b.length step) start {start} b (start + step) := by
  intro c position rereads unread
  have unvisited : c.position ∉ c.visited := position ▸ unread start rfl
  have inside := h.le_length
  refine ⟨{ position := start + step, visited := c.visited.insert start, rereads := 0 }, ?_, rfl, rfl,
    ?_⟩
  · unfold bytes
    rw [rereads, if_neg (by decide), if_neg (by omega), if_neg unvisited, position, h.take_drop]
  · intro p hp
    rcases Std.ExtTreeSet.mem_insert.1 hp with same | before
    · exact .inr (Std.LawfulEqCmp.eq_of_compare same).symm
    · exact .inl before

theorem finds_word (h : Holds data start (wordBytes n)) (fits : n < 2 ^ 256) :
    Finds (word data) start {start} n (start + 32) := by
  have found := (finds_bytes h 32).map Bytes.toNat
  rwa [toNat_wordBytes fits, length_wordBytes] at found

theorem finds_small (small : n < smallBound) : Finds (Scan.small n) start ∅ n start := by
  unfold Scan.small
  rw [if_pos small]
  exact .pure n

theorem finds_size (h : Holds data start (wordBytes n)) (small : n < smallBound) :
    Finds (size data) start {start} n (start + 32) := by
  have fits : n < 2 ^ 256 := Nat.lt_trans small (by decide)
  have both := (finds_word h fits).bind (finds_small small) (Set.disjoint_empty _)
  rwa [Set.union_empty] at both

theorem finds_moveTo (inside : stop < data.length) : Finds (moveTo data stop) start ∅ () stop := by
  intro c _ rereads _
  refine ⟨{ c with position := stop }, if_pos inside, rfl, rereads, fun _ hp => .inl hp⟩

/-- An offset is followed to a place that was not read before, and back. -/
theorem finds_follow {read : Nat → Scan α} {value : α} {offset : Nat} (base : Nat)
    (h : Holds data start (wordBytes offset)) (small : offset < smallBound)
    (found : Finds (read (base + offset)) (start + 32) R value mid) (fresh : start ∉ R)
    (inside : base + 32 < data.length) :
    Finds (follow data base read) start ({start} ∪ R) value (base + 32) := by
  have back : Finds (do moveTo data (base + 32); return value) mid ∅ value (base + 32) :=
    (finds_moveTo inside).after (.pure value)
  have rest := found.bind (f := fun v => do moveTo data (base + 32); return v) back
    (Set.disjoint_empty R)
  rw [Set.union_empty] at rest
  exact (finds_size h small).bind rest (Set.disjoint_singleton_left.2 fresh)

/-- A byte string behind its length. -/
theorem finds_byteString {b : Bytes} (length : Holds data start (wordBytes b.length))
    (content : Holds data (start + 32) b) (small : b.length < smallBound) :
    ∃ stop, Finds (byteString data) start (Set.Ico start (start + 32 + b.length)) b stop := by
  by_cases empty : b.length = 0
  · obtain rfl := List.eq_nil_of_length_eq_zero empty
    have both := (finds_size length small).bind (f := fun n =>
      if n = 0 then Pure.pure [] else bytes data n n) (.pure []) (Set.disjoint_empty _)
    refine ⟨start + 32, both.mono fun p hp => ?_⟩
    simp only [Set.union_empty, Set.mem_singleton_iff] at hp
    simp only [Set.mem_Ico]
    omega
  · have content := finds_bytes content b.length
    have both := (finds_size length small).bind (f := fun n =>
      if n = 0 then Pure.pure [] else bytes data n n) (by simpa [empty] using content) (by simp)
    refine ⟨start + 32 + b.length, both.mono fun p hp => ?_⟩
    simp only [Set.mem_union, Set.mem_singleton_iff] at hp
    simp only [Set.mem_Ico]
    omega

theorem finds_unsigned {bits : Nat} (h : Holds data start (wordBytes n)) (fits : n < 2 ^ bits)
    (bound : bits ≤ 256) : Finds (unsigned data bits) start {start} n (start + 32) := by
  have word := finds_word h (Nat.lt_of_lt_of_le fits (Nat.pow_le_pow_right (by decide) bound))
  by_cases few : bits ≤ 48
  · have small : n < smallBound :=
      calc n < 2 ^ bits := fits
        _ ≤ 2 ^ 48 := Nat.pow_le_pow_right (by decide) few
        _ < smallBound := by decide
    have both := word.bind (f := fun n => if bits ≤ 48 then Scan.small n else return n)
      (by simpa only [if_pos few] using finds_small small) (Set.disjoint_empty _)
    rwa [Set.union_empty] at both
  · have both := word.bind (f := fun n => if bits ≤ 48 then Scan.small n else return n)
      (by simpa only [if_neg few] using Finds.pure n) (Set.disjoint_empty _)
    rwa [Set.union_empty] at both

end Scan

open Scan (Finds)

/-! ### Values in their places -/

section Static

variable {data : Bytes} {start base : Nat}

/-- Values of a type that is not dynamic are read where they stand. -/
def Ty.IsReadInPlace (data : Bytes) (t : Ty) : Prop :=
  ∀ (v : t.Val) (start base : Nat), t.Fits v → Holds data start (t.encoding v) →
    Finds (decode data t base) start (Set.Ico start (start + t.headSize)) (t.normal v)
      (start + t.headSize)

/-- Values of types that are not dynamic are read one after the other. -/
def Fields.IsReadInPlace (data : Bytes) (fields : Fields) : Prop :=
  ∀ (vs : fields.Val) (start base offset tail : Nat), fields.Fits vs →
    Holds data start (Part.heads tail (fields.parts vs)) →
    Finds (decodeRow data (fun _ => Scan.stay) fields base offset) start
      (Set.Ico start (start + fields.headSize)) (fields.normal vs) (start + fields.headSize)

theorem singleton_subset_word (start : Nat) : {start} ⊆ Set.Ico start (start + 32) := by
  intro p hp
  obtain rfl := Set.mem_singleton_iff.1 hp
  exact Set.mem_Ico.2 ⟨Nat.le_refl p, Nat.lt_add_of_pos_right (by decide)⟩

theorem isReadInPlace_address : Ty.IsReadInPlace data .address := by
  intro a start base fits held
  obtain ⟨b, hb⟩ := Address.exists_bytes_of_isStrict fits
  have length := (Address.bytes?_eq_some_iff.1 hb).2
  rw [Ty.normal, Address.normal_of_bytes? hb, decode]
  rw [Ty.encoding, hb, Option.getD_some] at held
  have found := (Scan.finds_bytes held 32).map fun word => Address.ofBytes (word.drop 12)
  rw [List.length_append, List.length_replicate, length] at found
  exact found.mono (singleton_subset_word start)

theorem isReadInPlace_uint {bits : Nat} (bound : bits ≤ 256) : Ty.IsReadInPlace data (.uint bits) := by
  intro n start base fits held
  obtain ⟨m, rfl⟩ := Int.eq_ofNat_of_zero_le fits.1
  rw [decode]
  have found := Scan.finds_unsigned held (natCast_lt_valueCount.1 fits.2) bound
  exact (found.map fun m => (m : Int)).mono (singleton_subset_word start)

theorem isReadInPlace_number {bits : Nat} (bound : bits ≤ 256) :
    Ty.IsReadInPlace data (.number bits) := by
  intro n start base fits held
  obtain ⟨k, rfl, nonneg, fits⟩ := fits
  obtain ⟨m, rfl⟩ := Int.eq_ofNat_of_zero_le nonneg
  rw [Ty.encoding, Number.toInt?_ofInt] at held
  rw [decode]
  have found := Scan.finds_unsigned held (natCast_lt_valueCount.1 fits) bound
  exact (found.map fun m => Number.ofInt m).mono (singleton_subset_word start)

theorem isReadInPlace_fixedBytes (size : Nat) : Ty.IsReadInPlace data (.fixedBytes size) := by
  intro h start base fits held
  obtain ⟨b, hb, rfl⟩ := fits
  rw [Ty.encoding, hb, Option.getD_some] at held
  rw [Ty.normal, Hex.lower_of_bytes? hb, decode]
  exact ((Scan.finds_bytes held.left 32).map Hex.ofBytes).mono (singleton_subset_word start)

theorem isReadInPlace_tuple {fields : Fields} (static : fields.isDynamic = false)
    (row : fields.IsReadInPlace data) : Ty.IsReadInPlace data (.tuple fields) := by
  intro vs start base fits held
  have found := row vs start base 0 _ fits held.left
  rw [decode, static, Ty.headSize, static]
  exact found

theorem isReadInPlace_nil : Fields.IsReadInPlace data .nil := by
  intro vs start base offset tail _ _
  rw [decodeRow]
  exact (Finds.pure ()).mono (Set.empty_subset _)

theorem isReadInPlace_cons {first : Ty} {rest : Fields} (readable : first.isReadable = true)
    (static : first.isDynamic = false) (one : first.IsReadInPlace data)
    (others : rest.IsReadInPlace data) :
    Fields.IsReadInPlace data (.cons first rest) := by
  rintro ⟨v, vs⟩ start base offset tail ⟨fitsFirst, fitsRest⟩ held
  have heldFirst := held.left
  rw [Part.head, static, if_neg Bool.false_ne_true] at heldFirst
  have heldRest := held.right
  rw [Part.length_head, headSize_part readable fitsFirst] at heldRest
  have both := (one v start base fitsFirst heldFirst).map₂
    (others vs _ base (offset + first.headSize) _ fitsRest heldRest)
    Set.Ico_disjoint_Ico_same Prod.mk
  rw [Set.Ico_union_Ico_eq_Ico (Nat.le_add_right _ _) (Nat.le_add_right _ _), Nat.add_assoc] at both
  rw [decodeRow]
  exact (Finds.pure ()).after both

mutual

theorem isReadInPlace_of_static : (t : Ty) → t.isReadable = true → t.isDynamic = false →
    t.IsReadInPlace data
  | .address, _, _ => isReadInPlace_address
  | .uint _, readable, _ => isReadInPlace_uint (of_decide_eq_true readable)
  | .number _, readable, _ => isReadInPlace_number (of_decide_eq_true readable)
  | .fixedBytes size, _, _ => isReadInPlace_fixedBytes size
  | .tuple fields, readable, static =>
    isReadInPlace_tuple static
      (isReadInPlace_row fields (Bool.and_eq_true_iff.1 readable).2 static)

theorem isReadInPlace_row : (fields : Fields) → fields.isReadable = true → fields.isDynamic = false →
    fields.IsReadInPlace data
  | .nil, _, _ => isReadInPlace_nil
  | .cons first rest, readable, static => by
    obtain ⟨here, later⟩ := Bool.and_eq_true_iff.1 readable
    obtain ⟨staticFirst, staticRest⟩ := Bool.or_eq_false_iff.1 static
    exact isReadInPlace_cons here staticFirst (isReadInPlace_of_static first here staticFirst)
      (isReadInPlace_row rest later staticRest)

end

end Static

/-! ### Rows in the data -/

/-- A part stands in a row that starts at `base`: what is in the head `head` bytes behind the start, and
what is dynamic `tail` bytes behind it. -/
structure PartAt (data : Bytes) (base head tail : Nat) (part : Part) : Prop where
  inHead : Holds data (base + head) (part.head tail)
  behind : Holds data (base + tail) part.tail
  apart : head + part.headSize ≤ tail

/-- The last parts of a row that starts at `base`. -/
structure RowAt (data : Bytes) (base head tail : Nat) (parts : List Part) : Prop where
  inHead : Holds data (base + head) (Part.heads tail parts)
  behind : Holds data (base + tail) (Part.tails parts)
  apart : head + Part.headSizes parts ≤ tail

/-- The positions in a row that some heads and some dynamic bytes take. -/
def region (base head headSize tail tailSize : Nat) : Set Nat :=
  Set.Ico (base + head) (base + head + headSize) ∪ Set.Ico (base + tail) (base + tail + tailSize)

section Rows

variable {data : Bytes} {base head tail : Nat} {part : Part} {parts : List Part}

namespace RowAt

theorem first (h : RowAt data base head tail (part :: parts)) : PartAt data base head tail part where
  inHead := h.inHead.left
  behind := h.behind.left
  apart := by
    have apart := h.apart
    rw [Part.headSizes] at apart
    omega

theorem rest (h : RowAt data base head tail (part :: parts)) :
    RowAt data base (head + part.headSize) (tail + part.tailSize) parts where
  inHead := by
    have held := h.inHead.right
    rwa [Part.length_head, Nat.add_assoc] at held
  behind := by
    have held := h.behind.right
    rwa [Part.length_tail, Nat.add_assoc] at held
  apart := by
    have apart := h.apart
    rw [Part.headSizes] at apart
    omega

theorem of_layout (h : Holds data base (Part.layout parts)) :
    RowAt data base 0 (Part.headSizes parts) parts where
  inHead := h.left
  behind := by
    have held := h.right
    rwa [Part.length_heads] at held
  apart := Nat.le_of_eq (Nat.zero_add _)

end RowAt

theorem disjoint_region {headSize headSizes tailSize tailSizes : Nat}
    (apart : head + (headSize + headSizes) ≤ tail) :
    Disjoint (region base head headSize tail tailSize)
      (region base (head + headSize) headSizes (tail + tailSize) tailSizes) := by
  refine Set.disjoint_left.2 fun p here there => ?_
  simp only [region, Set.mem_union, Set.mem_Ico] at here there
  omega

theorem region_union (headSize headSizes tailSize tailSizes : Nat) :
    region base head headSize tail tailSize ∪
        region base (head + headSize) headSizes (tail + tailSize) tailSizes =
      region base head (headSize + headSizes) tail (tailSize + tailSizes) := by
  ext p
  simp only [region, Set.mem_union, Set.mem_Ico]
  omega

/-- A whole row. -/
theorem region_row (base headSizes tailSizes : Nat) :
    region base 0 headSizes headSizes tailSizes ⊆ Set.Ico base (base + (headSizes + tailSizes)) := by
  intro p hp
  simp only [region, Set.mem_union, Set.mem_Ico] at hp ⊢
  omega

end Rows

/-! ### Reading rows -/

/-- Values of a type are read back from their parts of a row. -/
def Ty.IsReadBack (data : Bytes) (t : Ty) : Prop :=
  ∀ (v : t.Val) (base head tail : Nat), t.Fits v →
    PartAt data base head tail ⟨t.isDynamic, t.encoding v⟩ →
    ∃ stop, Finds (decode data t base) (base + head)
      (region base head t.headSize tail (Part.mk t.isDynamic (t.encoding v)).tailSize) (t.normal v) stop

/-- Some places lead to the heads of a row that starts at `base`. -/
def Leads (data : Bytes) (place : Nat → Scan Unit) (base : Nat) : Prop :=
  ∀ start offset, base + offset < data.length → Finds (place offset) start ∅ () (base + offset)

/-- The last values of a row are read back. -/
def Fields.IsReadBack (data : Bytes) (fields : Fields) : Prop :=
  ∀ (vs : fields.Val) (place : Nat → Scan Unit) (start base head tail : Nat), Leads data place base →
    fields.Fits vs → RowAt data base head tail (fields.parts vs) →
    ∃ stop, Finds (decodeRow data place fields base head) start
      (region base head fields.headSize tail (Part.tailSizes (fields.parts vs))) (fields.normal vs) stop

section ReadBack

variable {data : Bytes}

theorem leads_moveTo (data : Bytes) (base : Nat) :
    Leads data (fun offset => moveTo data (base + offset)) base :=
  fun _ _ inside => Scan.finds_moveTo inside

/-- Between the arguments of a function the reader goes to places inside the data too. -/
theorem leads_approach (data : Bytes) : Leads data (Scan.approach data) 0 := by
  intro start offset inside
  rw [Nat.zero_add] at inside ⊢
  exact fun c _ rereads _ =>
    ⟨{ c with position := offset }, if_pos inside, rfl, rereads, fun _ hp => .inl hp⟩

/-- In a row, a value stands inside the data. -/
theorem PartAt.inside {t : Ty} {v : t.Val} {base head tail : Nat}
    (h : PartAt data base head tail ⟨t.isDynamic, t.encoding v⟩) (readable : t.isReadable = true)
    (fits : t.Fits v) : base + head < data.length := by
  have enough := h.inHead.le_length
  rw [Part.length_head, headSize_part readable fits] at enough
  have := le_headSize t readable
  omega

theorem isReadBack_of_static {t : Ty} (readable : t.isReadable = true) (static : t.isDynamic = false) :
    t.IsReadBack data := by
  intro v base head tail fits held
  have here := held.inHead
  rw [Part.head, static, if_neg Bool.false_ne_true] at here
  exact ⟨_, (isReadInPlace_of_static t readable static v _ base fits here).mono Set.subset_union_left⟩

/-- A dynamic value is read back if it is where it stands by itself. -/
theorem isReadBack_of_follow {t : Ty} (readable : t.isReadable = true) (dynamic : t.isDynamic = true)
    (short : data.length < smallBound) (read : Nat → Scan t.Val)
    (follows : ∀ base, decode data t base = follow data base read)
    (found : ∀ (v : t.Val) (start place : Nat), t.Fits v → Holds data place (t.encoding v) →
      ∃ stop, Finds (read place) start (Set.Ico place (place + (t.encoding v).length)) (t.normal v)
        stop) :
    t.IsReadBack data := by
  intro v base head tail fits held
  have size := headSize_of_isDynamic t readable dynamic
  have enough := le_length_encoding readable fits
  have apart := held.apart
  rw [headSize_part readable fits, size] at apart
  have offset := held.inHead
  rw [Part.head, if_pos dynamic] at offset
  have content := held.behind
  rw [Part.tail, if_pos dynamic] at content
  have inside : base + tail + (t.encoding v).length ≤ data.length := content.le_length
  obtain ⟨stop, one⟩ := found v (base + head + 32) (base + tail) fits content
  -- the way back leads inside the data, where at least one word is behind the heads
  have followed := Scan.finds_follow base offset (by omega) one
    (fun back => by have := back.1; omega) (by omega)
  rw [follows, size, Part.tailSize, if_pos dynamic]
  exact ⟨_, followed.mono (Set.union_subset_union_left _ (singleton_subset_word _))⟩

theorem isReadBack_bytes (short : data.length < smallBound) : Ty.IsReadBack data .bytes := by
  refine isReadBack_of_follow rfl rfl short (fun start => do
    moveTo data start
    return Hex.ofBytes (← Scan.byteString data)) (fun _ => by rw [decode, byteString]) ?_
  rintro h start place ⟨b, hb⟩ held
  rw [Ty.encoding, hb, Option.getD_some] at held ⊢
  have inside := held.le_length
  rw [List.length_append, length_wordBytes, List.length_append] at inside
  have content := held.right.left
  rw [length_wordBytes] at content
  obtain ⟨stop, found⟩ := Scan.finds_byteString held.left content (by omega)
  rw [Ty.normal, Hex.lower_of_bytes? hb]
  refine ⟨stop, ((Scan.finds_moveTo (by omega)).after (found.map Hex.ofBytes)).mono ?_⟩
  refine Set.Ico_subset_Ico_right ?_
  rw [List.length_append, length_wordBytes, List.length_append]
  omega

/-- The items of an array are read one after the other. -/
theorem finds_many {item : Ty} (readable : item.isReadable = true) (one : item.IsReadBack data)
    {base : Nat} {vs : List item.Val} {head tail : Nat} (start : Nat) (fits : ∀ v ∈ vs, item.Fits v)
    (row : RowAt data base head tail (vs.map fun v => ⟨item.isDynamic, item.encoding v⟩)) :
    ∃ stop, Finds
      (many (fun offset => moveTo data (base + offset)) (decode data item base) item.headSize vs.length
        head)
      start
      (region base head (vs.length * item.headSize) tail
        (Part.tailSizes (vs.map fun v => ⟨item.isDynamic, item.encoding v⟩)))
      (vs.map item.normal) stop := by
  induction vs generalizing start head tail with
  | nil => exact ⟨start, (Finds.pure []).mono (Set.empty_subset _)⟩
  | cons v vs ih =>
    have fitsFirst := fits v List.mem_cons_self
    have size := headSize_part readable fitsFirst
    obtain ⟨mid, first⟩ := one v base head tail fitsFirst row.first
    obtain ⟨stop, rest⟩ := ih mid (fun w hw => fits w (List.mem_cons_of_mem v hw)) row.rest
    have apart := row.apart
    rw [headSizes_items readable fits, List.length_cons, Nat.succ_mul, Nat.add_comm (_ * _)] at apart
    rw [size] at rest
    -- the other items stand one head and the dynamic bytes of the first one further on
    have both := first.map₂ rest (disjoint_region apart) List.cons
    rw [region_union, Nat.add_comm item.headSize, ← Nat.succ_mul] at both
    exact ⟨stop, (Scan.finds_moveTo (row.first.inside readable fitsFirst)).after both⟩

theorem isReadBack_array {item : Ty} (readable : item.isReadable = true) (one : item.IsReadBack data)
    (short : data.length < smallBound) : Ty.IsReadBack data (.array item) := by
  refine isReadBack_of_follow (t := .array item) readable rfl short (fun start => do
    moveTo data start
    let length ← Scan.size data
    many (fun offset => moveTo data (start + 32 + offset)) (decode data item (start + 32))
      item.headSize length 0) (fun _ => by rw [decode]) ?_
  intro vs start place fits held
  have fits : ∀ v ∈ vs, item.Fits v := fits
  have sizes := headSizes_items readable fits
  rw [Ty.encoding] at held ⊢
  have inside := held.le_length
  rw [List.length_append, length_wordBytes, Part.length_layout, sizes] at inside
  -- every item takes a head, so there are not too many of them for a length
  have count : vs.length ≤ vs.length * item.headSize :=
    Nat.le_mul_of_pos_right _ (Nat.lt_of_lt_of_le (by decide) (le_headSize item readable))
  have items := held.right
  rw [length_wordBytes] at items
  have row := RowAt.of_layout items
  rw [sizes] at row
  obtain ⟨stop, found⟩ := finds_many readable one (place + 32) fits row
  have found := found.mono (region_row _ _ _)
  have both := (Scan.finds_size held.left (by omega)).bind (f := fun length =>
    many (fun offset => moveTo data (place + 32 + offset)) (decode data item (place + 32))
      item.headSize length 0) found
    (Set.disjoint_singleton_left.2 fun back => by have := back.1; omega)
  refine ⟨stop, ((Scan.finds_moveTo (by omega)).after both).mono (Set.union_subset ?_ ?_)⟩
  · refine (singleton_subset_word place).trans (Set.Ico_subset_Ico_right ?_)
    rw [List.length_append, length_wordBytes]
    omega
  · refine Set.Ico_subset_Ico (Nat.le_add_right _ _) ?_
    rw [List.length_append, length_wordBytes, Part.length_layout, sizes]
    omega

theorem isReadBack_tuple {fields : Fields} (readable : Ty.isReadable (.tuple fields) = true)
    (dynamic : fields.isDynamic = true) (row : fields.IsReadBack data)
    (short : data.length < smallBound) : Ty.IsReadBack data (.tuple fields) := by
  obtain ⟨-, each⟩ := Bool.and_eq_true_iff.1 readable
  refine isReadBack_of_follow (t := .tuple fields) readable dynamic short
    (fun start => decodeRow data (fun offset => moveTo data (start + offset)) fields start 0)
    (fun _ => by rw [decode, if_pos dynamic]) ?_
  intro vs start place fits held
  have rowAt := RowAt.of_layout held
  rw [headSizes_parts fields each fits] at rowAt
  obtain ⟨stop, found⟩ := row vs _ start place 0 _ (leads_moveTo data place) fits rowAt
  refine ⟨stop, found.mono ?_⟩
  rw [Ty.encoding, Part.length_layout, headSizes_parts fields each fits]
  exact region_row _ _ _

theorem isReadBack_nil : Fields.IsReadBack data .nil := by
  intro vs place start base head tail _ _ _
  rw [decodeRow]
  exact ⟨start, (Finds.pure ()).mono (Set.empty_subset _)⟩

theorem isReadBack_cons {first : Ty} {rest : Fields}
    (readable : Fields.isReadable (.cons first rest) = true) (one : first.IsReadBack data)
    (others : rest.IsReadBack data) : Fields.IsReadBack data (.cons first rest) := by
  rintro ⟨v, vs⟩ place start base head tail leads fits row
  obtain ⟨here, later⟩ := Bool.and_eq_true_iff.1 readable
  obtain ⟨fitsFirst, fitsRest⟩ := id fits
  have apart := row.apart
  rw [headSizes_parts _ readable fits, Fields.headSize] at apart
  have behind := row.rest
  rw [headSize_part here fitsFirst] at behind
  obtain ⟨mid, foundFirst⟩ := one v base head tail fitsFirst row.first
  obtain ⟨stop, foundRest⟩ := others vs place mid base _ _ leads fitsRest behind
  have both := foundFirst.map₂ foundRest (disjoint_region apart) Prod.mk
  rw [region_union] at both
  rw [decodeRow]
  exact ⟨stop, (leads start head (row.first.inside here fitsFirst)).after both⟩

mutual

/-- What is encoded in a row is read back from there. -/
theorem isReadBack (short : data.length < smallBound) : (t : Ty) → t.isReadable = true →
    t.IsReadBack data
  | .address, readable | .uint _, readable | .number _, readable | .fixedBytes _, readable =>
    isReadBack_of_static readable rfl
  | .bytes, _ => isReadBack_bytes short
  | .array item, readable => isReadBack_array readable (isReadBack short item readable) short
  | .tuple fields, readable => by
    cases dynamic : fields.isDynamic with
    | true =>
      exact isReadBack_tuple readable dynamic
        (isReadBack_fields short fields (Bool.and_eq_true_iff.1 readable).2) short
    | false => exact isReadBack_of_static readable dynamic

theorem isReadBack_fields (short : data.length < smallBound) : (fields : Fields) →
    fields.isReadable = true → fields.IsReadBack data
  | .nil, _ => isReadBack_nil
  | .cons first rest, readable => by
    obtain ⟨here, later⟩ := Bool.and_eq_true_iff.1 readable
    exact isReadBack_cons readable (isReadBack short first here) (isReadBack_fields short rest later)

end

end ReadBack

/-- The encoded arguments of a function are read back, as far as there are words to start with and
positions for all of them. -/
theorem decodeBytes_layout {fields : Fields} {vs : fields.Val} (readable : fields.isReadable = true)
    (enough : 32 ≤ fields.headSize) (fits : fields.Fits vs)
    (short : (Part.layout (fields.parts vs)).length < smallBound) :
    decodeBytes fields (Part.layout (fields.parts vs)) = .ok (fields.normal vs) := by
  have row := RowAt.of_layout (Holds.whole (Part.layout (fields.parts vs)))
  have length := Part.length_layout (fields.parts vs)
  rw [headSizes_parts fields readable fits] at row length
  obtain ⟨stop, found⟩ :=
    isReadBack_fields short fields readable vs _ 0 0 0 _ (leads_approach _) fits row
  obtain ⟨c, run, -⟩ := found .start rfl rfl fun p _ => Std.ExtTreeSet.not_mem_empty
  unfold decodeBytes StateT.run'
  rw [if_neg (by omega), if_neg (by omega), run]
  rfl

/-- The arguments that a text writes are read back if they are encoded. -/
theorem decodeFields_of_bytes? {fields : Fields} {vs : fields.Val} {data : Hex}
    (readable : fields.isReadable = true) (enough : 32 ≤ fields.headSize) (fits : fields.Fits vs)
    (written : data.bytes? = some (Part.layout (fields.parts vs)))
    (short : (Part.layout (fields.parts vs)).length < smallBound) :
    decodeFields fields data = .ok (fields.normal vs) := by
  unfold decodeFields
  rw [Hex.read?_of_bytes? written]
  exact decodeBytes_layout readable enough fits short

/-! ### What was read -/

section Read

variable {data : Bytes}

/-- What is read as a type fits it, if it can be encoded again. -/
def Ty.FitsOnceRead (data : Bytes) (t : Ty) : Prop :=
  ∀ {v : t.Val} {base : Nat} {c c' : Cursor} {h : Hex}, decode data t base c = .ok (v, c') →
    encode t v = .ok h → t.Fits v

def Fields.FitOnceRead (data : Bytes) (fields : Fields) : Prop :=
  ∀ {vs : fields.Val} {place : Nat → Scan Unit} {base offset : Nat} {c c' : Cursor} {items : List Item},
    decodeRow data place fields base offset c = .ok (vs, c') → encodeItems fields vs = .ok items →
    fields.Fits vs

theorem fitsOnceRead_fixedBytes (size : Nat) : Ty.FitsOnceRead data (.fixedBytes size) := by
  intro v base c c' h read encoded
  unfold decode at read
  obtain ⟨b, c₁, -, read⟩ := Scan.bind_eq_ok.1 read
  cases read
  unfold encode encodeFixedBytes at encoded
  obtain ⟨same, -⟩ := error_ite_eq_ok.1 encoded
  rw [Hex.size_ofBytes, not_not] at same
  exact ⟨b, Hex.bytes?_ofBytes b, same⟩

theorem fitsOnceRead_bytes : Ty.FitsOnceRead data .bytes := by
  intro v base c c' h read _
  unfold decode byteString follow at read
  obtain ⟨offset, c₁, -, read⟩ := Scan.bind_eq_ok.1 read
  obtain ⟨found, c₂, inner, read⟩ := Scan.bind_eq_ok.1 read
  obtain ⟨-, c₃, -, read⟩ := Scan.bind_eq_ok.1 read
  cases read
  obtain ⟨-, c₄, -, inner⟩ := Scan.bind_eq_ok.1 inner
  obtain ⟨b, c₅, -, inner⟩ := Scan.bind_eq_ok.1 inner
  cases inner
  exact ⟨b, Hex.bytes?_ofBytes b⟩

theorem fitsOnceRead_array {item : Ty} (one : item.FitsOnceRead data) :
    Ty.FitsOnceRead data (.array item) := by
  intro vs base c c' h read encoded v hv
  unfold encode at encoded
  obtain ⟨items, each, -⟩ := bind_eq_ok.1 encoded
  obtain ⟨start, c₁, c₂, here⟩ := exists_of_mem_decode_array read hv
  obtain ⟨x, encodedItem⟩ := exists_ok_of_mem each hv
  cases encodedOne : encode item v with
  | error e =>
    rw [encodedOne] at encodedItem
    cases encodedItem
  | ok h => exact one here encodedOne

theorem fitsOnceRead_tuple {fields : Fields} (row : fields.FitOnceRead data) :
    Ty.FitsOnceRead data (.tuple fields) := by
  intro vs base c c' h read encoded
  unfold encode at encoded
  obtain ⟨items, encoded, -⟩ := bind_eq_ok.1 encoded
  unfold decode at read
  split at read
  · unfold follow at read
    obtain ⟨offset, c₁, -, read⟩ := Scan.bind_eq_ok.1 read
    obtain ⟨found, c₂, inner, read⟩ := Scan.bind_eq_ok.1 read
    obtain ⟨-, c₃, -, read⟩ := Scan.bind_eq_ok.1 read
    cases read
    exact row inner encoded
  · exact row read encoded

theorem fitOnceRead_cons {first : Ty} {rest : Fields} (one : first.FitsOnceRead data)
    (others : rest.FitOnceRead data) : Fields.FitOnceRead data (.cons first rest) := by
  rintro ⟨v, vs⟩ place base offset c c' items read encoded
  obtain ⟨c₁, c₂, here, later⟩ := decodeRow_cons read
  unfold encodeItems at encoded
  obtain ⟨item, encodedFirst, encoded⟩ := bind_eq_ok.1 encoded
  obtain ⟨items, encodedRest, -⟩ := bind_eq_ok.1 encoded
  exact ⟨one here encodedFirst, others later encodedRest⟩

mutual

theorem fitsOnceRead : (t : Ty) → t.isReadable = true → t.FitsOnceRead data
  | .address, _ => fun _ encoded => isStrict_of_encodeAddress encoded
  | .uint _, _ => fun _ encoded => (encodeUnsigned_eq_ok.1 encoded).1
  | .number _, _ => fun _ encoded => by
    obtain ⟨m, whole, range, -⟩ := encodeNumber_eq_ok.1 encoded
    exact ⟨m, whole, range⟩
  | .fixedBytes size, _ => fitsOnceRead_fixedBytes size
  | .bytes, _ => fitsOnceRead_bytes
  | .array item, readable => fitsOnceRead_array (fitsOnceRead item readable)
  | .tuple fields, readable =>
    fitsOnceRead_tuple (fitOnceRead fields (Bool.and_eq_true_iff.1 readable).2)

theorem fitOnceRead : (fields : Fields) → fields.isReadable = true → fields.FitOnceRead data
  | .nil, _ => fun _ _ => trivial
  | .cons first rest, readable => by
    obtain ⟨here, later⟩ := Bool.and_eq_true_iff.1 readable
    exact fitOnceRead_cons (fitsOnceRead first here) (fitOnceRead rest later)

end

end Read

/-- The arguments that a text writes fit their types, if they can be encoded again. -/
theorem fits_of_decodeFields {fields : Fields} {vs : fields.Val} {data h : Hex}
    (readable : fields.isReadable = true) (read : decodeFields fields data = .ok vs)
    (encoded : encodeFields fields vs = .ok h) : fields.Fits vs := by
  obtain ⟨bytes, place, c, c', row⟩ := decodeRow_of_decodeFields read
  unfold encodeFields at encoded
  obtain ⟨items, encoded, -⟩ := bind_eq_ok.1 encoded
  exact fitOnceRead fields readable row encoded

end SessionKeys.Abi
