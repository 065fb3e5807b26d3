import SessionKeys.Abi.Function
import SessionKeys.Proofs.Computation

/-!
What the reading of contract arguments has gone through when it ends well: the arguments of a call
are read one after the other (`decodeRow_cons`), and a number without sign that was read is not
negative.
-/

namespace SessionKeys.Abi

theorem Scan.bind_eq_ok {α β : Type} {x : Scan α} {f : α → Scan β} {c : Cursor} {r : β × Cursor} :
    (x >>= f) c = .ok r ↔ ∃ a c', x c = .ok (a, c') ∧ f a c' = .ok r := by
  have unfolded : (x >>= f) c = x c >>= fun (a, c') => f a c' := rfl
  rw [unfolded, SessionKeys.bind_eq_ok]
  constructor
  · rintro ⟨⟨a, c'⟩, first, second⟩
    exact ⟨a, c', first, second⟩
  · rintro ⟨a, c', first, second⟩
    exact ⟨(a, c'), first, second⟩

theorem decodeRow_cons {data : Bytes} {place : Nat → Scan Unit} {first : Ty} {rest : Fields}
    {base offset : Nat} {c c' : Cursor} {v : first.Val} {vs : rest.Val}
    (h : decodeRow data place (.cons first rest) base offset c = .ok ((v, vs), c')) :
    ∃ c₁ c₂, decode data first base c₁ = .ok (v, c₂) ∧
      decodeRow data place rest base (offset + first.headSize) c₂ = .ok (vs, c') := by
  unfold decodeRow at h
  obtain ⟨-, c₁, -, h⟩ := Scan.bind_eq_ok.1 h
  obtain ⟨v, c₂, one, h⟩ := Scan.bind_eq_ok.1 h
  obtain ⟨vs, c₃, others, h⟩ := Scan.bind_eq_ok.1 h
  cases h
  exact ⟨c₁, c₂, one, others⟩

theorem nonneg_decode_uint {data : Bytes} {bits base : Nat} {c c' : Cursor} {n : Int}
    (h : decode data (.uint bits) base c = .ok (n, c')) : 0 ≤ n := by
  unfold decode at h
  obtain ⟨m, c₁, -, h⟩ := Scan.bind_eq_ok.1 h
  cases h
  exact Int.natCast_nonneg m

/-- Of a row that was read, the fields that it starts with were read in the same way. -/
theorem decodeRow_divide {data : Bytes} {place : Nat → Scan Unit} : (a b : Fields) →
    {base offset : Nat} → {c c' : Cursor} → {values : (a.append b).Val} →
    decodeRow data place (a.append b) base offset c = .ok (values, c') →
    ∃ c₁, decodeRow data place a base offset c = .ok ((a.divide b values).1, c₁)
  | .nil, _, _, _, c, _, _, _ => ⟨c, rfl⟩
  | .cons first rest, b, _, _, _, _, (_, _), h => by
    change decodeRow data place (.cons first (rest.append b)) _ _ _ = _ at h
    unfold decodeRow at h
    obtain ⟨_, c₁, placed, h⟩ := Scan.bind_eq_ok.1 h
    obtain ⟨_, c₂, one, h⟩ := Scan.bind_eq_ok.1 h
    obtain ⟨_, c₃, others, h⟩ := Scan.bind_eq_ok.1 h
    cases h
    obtain ⟨c₄, before⟩ := decodeRow_divide rest b others
    refine ⟨c₄, ?_⟩
    unfold decodeRow
    exact Scan.bind_eq_ok.2 ⟨_, c₁, placed, Scan.bind_eq_ok.2 ⟨_, c₂, one,
      Scan.bind_eq_ok.2 ⟨_, c₄, before, rfl⟩⟩⟩

/-- Each of some items was read where the reader stood at some time. -/
theorem exists_of_mem_many {α : Type} {place : Nat → Scan Unit} {read : Scan α} {stride count : Nat}
    {offset : Nat} {c c' : Cursor} {items : List α}
    (h : Scan.many place read stride count offset c = .ok (items, c')) {x : α} (hx : x ∈ items) :
    ∃ c₁ c₂, read c₁ = .ok (x, c₂) := by
  induction count generalizing offset c items with
  | zero =>
    cases h
    cases hx
  | succ count ih =>
    unfold Scan.many at h
    obtain ⟨-, c₁, -, h⟩ := Scan.bind_eq_ok.1 h
    obtain ⟨first, c₂, one, h⟩ := Scan.bind_eq_ok.1 h
    obtain ⟨rest, c₃, others, h⟩ := Scan.bind_eq_ok.1 h
    cases h
    rcases List.mem_cons.1 hx with rfl | hx
    · exact ⟨c₁, c₂, one⟩
    · exact ih others hx

/-- Each item of an array was read as one. -/
theorem exists_of_mem_decode_array {data : Bytes} {item : Ty} {base : Nat} {c c' : Cursor}
    {items : List item.Val} (h : decode data (.array item) base c = .ok (items, c')) {x : item.Val}
    (hx : x ∈ items) : ∃ start c₁ c₂, decode data item start c₁ = .ok (x, c₂) := by
  unfold decode Scan.follow at h
  obtain ⟨offset, c₁, -, h⟩ := Scan.bind_eq_ok.1 h
  obtain ⟨found, c₂, read, h⟩ := Scan.bind_eq_ok.1 h
  obtain ⟨-, c₃, -, h⟩ := Scan.bind_eq_ok.1 h
  cases h
  obtain ⟨-, c₄, -, read⟩ := Scan.bind_eq_ok.1 read
  obtain ⟨length, c₅, -, read⟩ := Scan.bind_eq_ok.1 read
  obtain ⟨c₆, c₇, one⟩ := exists_of_mem_many read hx
  exact ⟨_, c₆, c₇, one⟩

/-- The arguments that a text writes are read as a row from its start. -/
theorem decodeFields_eq_ok {fields : Fields} {data : Hex} {values : fields.Val} :
    decodeFields fields data = .ok values ↔
      ∃ bytes, data.read? = some bytes ∧ 32 ≤ bytes.length ∧
        ∃ c, decodeRow bytes (Scan.approach bytes) fields 0 0 .start = .ok (values, c) := by
  unfold decodeFields
  cases data.read? with
  | none => simp
  | some bytes =>
    simp only [Option.some.injEq, exists_eq_left']
    unfold decodeBytes StateT.run'
    rw [error_ite_eq_ok, error_ite_eq_ok]
    cases decodeRow bytes (Scan.approach bytes) fields 0 0 .start with
    | error e =>
      constructor
      · rintro ⟨-, -, h⟩
        cases h
      · rintro ⟨-, c, h⟩
        cases h
    | ok read =>
      constructor
      · rintro ⟨-, enough, h⟩
        cases h
        exact ⟨Nat.le_of_not_lt enough, read.2, rfl⟩
      · rintro ⟨enough, c, h⟩
        cases h
        exact ⟨by omega, by omega, rfl⟩

/-- The arguments that a text writes were read from some bytes. -/
theorem decodeRow_of_decodeFields {fields : Fields} {data : Hex} {values : fields.Val}
    (h : decodeFields fields data = .ok values) :
    ∃ bytes place c c', decodeRow bytes place fields 0 0 c = .ok (values, c') := by
  obtain ⟨bytes, -, -, c', row⟩ := decodeFields_eq_ok.1 h
  exact ⟨bytes, _, _, c', row⟩

/-- Where more fields can be read, the first of them can be read alone. -/
theorem decodeFields_divide {a b : Fields} {data : Hex} {values : (a.append b).Val}
    (h : decodeFields (a.append b) data = .ok values) :
    decodeFields a data = .ok (a.divide b values).1 := by
  obtain ⟨bytes, reads, enough, c, row⟩ := decodeFields_eq_ok.1 h
  obtain ⟨c₁, before⟩ := decodeRow_divide a b row
  exact decodeFields_eq_ok.2 ⟨bytes, reads, enough, c₁, before⟩

/-- The arguments of a call were read from some bytes. -/
theorem decodeRow_of_decodeCall {f : Function} {data : Hex} {values : f.inputs.Val}
    (h : f.decodeCall data = .ok values) :
    ∃ bytes place c c', decodeRow bytes place f.inputs 0 0 c = .ok (values, c') := by
  unfold Function.decodeCall at h
  rw [error_ite_eq_ok, error_ite_eq_ok] at h
  exact decodeRow_of_decodeFields h.2.2

end SessionKeys.Abi
