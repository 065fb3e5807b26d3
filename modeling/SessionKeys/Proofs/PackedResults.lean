import SessionKeys.Proofs.ServerState
import SessionKeys.Proofs.ToolRefusals

/-!
Packed results. A result whose times have 48 bits is packed into fields that do not overlap, so unpacking
gives it back (`ValidationData.unpack_packedValue`). The windows of sessions are written by operators, but
whatever reaches a result of a server has such times. Main statement: `packed_result_faithful`.
-/

namespace SessionKeys

/-! ### The fields of a packed result -/

namespace ValidationData

/-- A result as the sum of its fields. -/
def packedValue (failed : Bool) (validUntil validAfter : Nat) : Nat :=
  (if failed then 1 else 0) + validUntil * 2 ^ 160 + validAfter * 2 ^ 208

/-- A field above all bits of a number is added to it. -/
theorem orBits_field {low bits : Nat} (below : low < 2 ^ bits) (field : Nat) :
    orBits low ((field * 2 ^ bits : Nat) : Int) = ((low + field * 2 ^ bits : Nat) : Int) := by
  show ((low ||| field * 2 ^ bits : Nat) : Int) = _
  rw [Nat.lor_comm, Nat.mul_comm, ← Nat.two_pow_add_eq_or_of_lt below, Nat.add_comm]

variable {failed : Bool} {validUntil validAfter : Nat}

/-- The fields of a result do not overlap. -/
theorem pack_ofInt (validAfter : Nat) (fits : validUntil < 2 ^ 48) :
    pack ⟨failed, .ofInt validUntil, .ofInt validAfter⟩ =
      .ok (packedValue failed validUntil validAfter : Nat) := by
  have mark : (if failed then failureMark else 0) = ((if failed then 1 else 0 : Nat) : Int) := by
    cases failed <;> rfl
  have bit : (if failed then 1 else 0 : Nat) < 2 ^ 160 := by
    cases failed <;> decide
  have endField : (validUntil : Int) * endWeight = ((validUntil * 2 ^ 160 : Nat) : Int) := by
    rw [Nat.cast_mul]
    rfl
  have startField : (validAfter : Int) * startWeight = ((validAfter * 2 ^ 208 : Nat) : Int) := by
    rw [Nat.cast_mul]
    rfl
  have low : (if failed then 1 else 0 : Nat) + validUntil * 2 ^ 160 < 2 ^ 208 := by omega
  unfold pack
  simp only [integral_ofInt, ok_bind, pure_eq_ok]
  rw [mark, endField, startField, orBits_field bit, orBits_field low]
  rfl

theorem packedValue_lt (untilFits : validUntil < 2 ^ 48) (afterFits : validAfter < 2 ^ 48) :
    packedValue failed validUntil validAfter < 2 ^ 256 := by
  unfold packedValue
  split <;> omega

/-- The bounds of a window do not reach the mark. -/
theorem packedValue_emod :
    (packedValue failed validUntil validAfter : Int) % endWeight = if failed then 1 else 0 := by
  unfold packedValue endWeight
  split <;> omega

/-- What was packed is unpacked, if both bounds have 48 bits. -/
theorem unpack_packedValue (untilFits : validUntil < 2 ^ 48) (afterFits : validAfter < 2 ^ 48) :
    unpack (packedValue failed validUntil validAfter : Nat) =
      ⟨failed, .ofInt validUntil, .ofInt validAfter⟩ := by
  have endField : (packedValue failed validUntil validAfter : Int) / endWeight % timeCount =
      validUntil := by
    unfold packedValue endWeight timeCount
    split <;> omega
  have startField : (packedValue failed validUntil validAfter : Int) / startWeight % timeCount =
      validAfter := by
    unfold packedValue startWeight timeCount
    split <;> omega
  unfold unpack
  rw [packedValue_emod, endField, startField]
  cases failed <;> rfl

end ValidationData

/-! ### What is packed -/

namespace Engine

variable {e : Engine} {outside : Outside} {op : UserOperation} {hash : Hex}

/-- An operation that is accepted by the owner's validator or by the session-key validator is valid at
all times, or in the window in which it was settled. -/
inductive Accepts (e : Engine) (outside : Outside) (op : UserOperation) (hash : Hex) :
    ValidityWindow → Prop
  | owner : Accepts e outside op hash ⟨0, 0⟩
  | settled {p : PreparedOperation} {permit : Option VerifiedPermit} {s : Store} {w : ValidityWindow}
      (ready : e.ready outside op hash = .ok (p, permit)) (settled : p.settle permit e.store = .ok (s, w)) :
      Accepts e outside op hash w

/-- If no validator outside this library is asked, an operation is refused, not signed, or accepted. -/
theorem result_tryValidateUserOp (simulate : Bool)
    (known : ∀ address, e.registry.route op ≠ .ok (address, .external)) :
    let result := (e.tryValidateUserOp outside op hash simulate).result
    (∃ f, result = .error f) ∨ result = .ok .signatureFailed ∨
      ∃ w, result = .ok (.valid w) ∧ e.Accepts outside op hash w := by
  intro result
  rw [show result = (e.tryValidateUserOp outside op hash simulate).result from rfl]
  clear_value result
  unfold tryValidateUserOp validateRouted
  cases route : e.registry.route op with
  | error f => exact .inl ⟨_, rfl⟩
  | ok routed =>
    obtain ⟨address, v⟩ := routed
    cases v with
    | external => exact absurd route (known address)
    | ecdsa owners =>
      cases answered : validateOwnerSignature (.ecdsa owners) op hash with
      | error f =>
        simp only [answered]
        exact .inl ⟨_, rfl⟩
      | ok d =>
        simp only [answered]
        rcases validateOwnerSignature_cases answered with rfl | rfl
        · exact .inr (.inl rfl)
        · exact .inr (.inr ⟨_, rfl, .owner⟩)
    | sessionKeys =>
      rcases e.validateSignature_cases outside op hash simulate with
        ⟨_, ends, ⟨f, rfl⟩ | rfl⟩ | ⟨p, permit, s, w, ready, settled, ends⟩
      · simp only [ends]
        exact .inl ⟨_, rfl⟩
      · simp only [ends]
        exact .inr (.inl rfl)
      · simp only [ends]
        cases simulate <;> exact .inr (.inr ⟨w, rfl, .settled ready settled⟩)

/-- The window of an operation that is accepted has whole seconds of 48 bits as its bounds. -/
theorem Accepts.hasTimes {w : ValidityWindow} (accepts : e.Accepts outside op hash w)
    (times : e.store.HasTimes) : w.HasTimes := by
  cases accepts with
  | owner => exact ValidityWindow.hasTimes_unbounded
  | settled ready settled =>
    exact PreparedOperation.hasTimes_settle settled (hasTimes_inForce times ready)

/-- A new engine knows no validator outside this library. -/
theorem route_initialRegistry (config : Config) (address : Address) :
    (initialRegistry config).route op ≠ .ok (address, .external) := by
  intro route
  obtain ⟨addressed, -, found⟩ := bind_eq_ok.1 route
  split at found
  next v c known enabled =>
    obtain ⟨-, rfl⟩ := Prod.mk.inj (Except.ok.inj found)
    have keys : (({} : Registry).enable config.walletAddress config.validatorAddress .sessionKeys
        .normal).validator? addressed.validator ≠ some .external := by
      intro found
      rcases Table.find?_put_cases found with ⟨-, same⟩ | before
      · cases same
      · cases (Table.find?_empty _).symm.trans before
    unfold initialRegistry at known
    split at known
    · exact keys known
    next owner configured =>
      rcases Table.find?_put_cases known with ⟨-, same⟩ | before
      · cases same
      · exact keys before
  next => cases found

end Engine

/-- A server never changes its validators. -/
theorem Server.registry_calls (config : Config) (seen : List ToolCall) :
    (calls (.ofConfig config) seen).2.registry = Engine.initialRegistry config := by
  refine calls_induction (motive := fun e => e.registry = Engine.initialRegistry config) rfl ?_ seen
  intro e tool arguments request same read
  rw [e.run_engine request]
  exact same

/-- **No result of a server is mistaken once it is packed.** Take any state that a server reaches by calls
of tools, and any operation, hash and mode of validation. The validation is packed to an integer of 256
bits. It is the mark of a failure exactly when the operation is refused with an error or its signature
fails. Otherwise the 160 bits of the mark are zero, and the integer unpacks to the very result, with both
bounds of its window. -/
theorem packed_result_faithful (config : Config) (seen : List ToolCall) (outside : Outside)
    (op : UserOperation) (userOpHash : Hex) (simulate : Bool) :
    let e := (Server.calls (.ofConfig config) seen).2
    let result := (e.tryValidateUserOp outside op userOpHash simulate).result
    ∃ r, e.validateUserOp outside op userOpHash simulate = .ok r ∧ 0 ≤ r ∧ r < 2 ^ 256 ∧
      (r = ValidationData.failureMark ↔
        (∃ f, result = .error f) ∨ ∃ d, result = .ok d ∧ d.failed = true) ∧
      ∀ d, result = .ok d → d.failed = false →
        r % ValidationData.endWeight = 0 ∧ ValidationData.unpack r = d := by
  intro e result
  have known : ∀ address, e.registry.route op ≠ .ok (address, .external) := by
    rw [Server.registry_calls config seen]
    exact Engine.route_initialRegistry config
  have packs : e.validateUserOp outside op userOpHash simulate = ValidationData.packOutcome result := rfl
  rw [packs]
  rcases Engine.result_tryValidateUserOp simulate known with ⟨f, refused⟩ | unsigned | ⟨w, valid, accepts⟩
  · rw [show result = .error f from refused]
    exact ⟨1, rfl, by decide, by decide, ⟨fun _ => .inl ⟨f, rfl⟩, fun _ => rfl⟩, nofun⟩
  · rw [show result = .ok .signatureFailed from unsigned]
    refine ⟨1, ValidationData.pack_ofInt 0 (by decide : 0 < 2 ^ 48), by decide, by decide,
      ⟨fun _ => .inr ⟨_, rfl, rfl⟩, fun _ => rfl⟩, fun d same passed => ?_⟩
    cases same
    cases passed
  · obtain ⟨⟨u, hu, untilFits⟩, ⟨v, hv, afterFits⟩⟩ :=
      accepts.hasTimes (Server.hasTimes_calls config seen)
    have packed : (ValidationData.valid w).pack = .ok (ValidationData.packedValue false u v : Nat) := by
      rw [ValidationData.valid, hu, hv]
      exact ValidationData.pack_ofInt v untilFits
    have unpacked : ValidationData.unpack (ValidationData.packedValue false u v : Nat) = .valid w := by
      rw [ValidationData.unpack_packedValue untilFits afterFits, ValidationData.valid, hu, hv]
    have unmarked : (ValidationData.packedValue false u v : Int) % ValidationData.endWeight = 0 :=
      ValidationData.packedValue_emod
    rw [show result = .ok (.valid w) from valid]
    refine ⟨_, packed, Int.natCast_nonneg _, ?_, ⟨fun marked => ?_, ?_⟩, fun d same _ => ?_⟩
    · exact_mod_cast ValidationData.packedValue_lt untilFits afterFits
    · rw [marked] at unmarked
      cases unmarked
    · rintro (⟨f, refused⟩ | ⟨d, same, failed⟩)
      · cases refused
      · cases same
        cases failed
    · cases same
      exact ⟨unmarked, unpacked⟩

end SessionKeys
