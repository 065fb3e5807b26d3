import SessionKeys.Proofs.Settlement
import SessionKeys.Proofs.WalletCalldata
import SessionKeys.Proofs.WrittenSignatures

/-!
What a bad signature of an operator can change. An operation whose signature is written of some parts is
refused whoever signed it, or is accepted exactly with a good signature
(`Engine.validateSignature_of_writes`). Main statement: `outcome_independent_of_signature`.
-/

namespace SessionKeys

namespace Engine

variable {e : Engine} {outside : Outside} {op : UserOperation} {userOpHash : Hex} {simulate : Bool}
  {mode : ExecutionMode} {parts : SignatureParts}

/-- What comes of a validation: the same failure whoever signed the operation, or an accepted operation if
the operator signed it, and the mark of a bad signature if not. -/
theorem validateSignature_of_writes (e : Engine) (outside : Outside) (userOpHash : Hex) (simulate : Bool)
    (parts : SignatureParts)
    (matching : ∀ operation, WalletOperation.decode op.callData = .ok operation → operation.mode = mode) :
    (∃ f, ∀ x signature, parts.Writes mode x signature →
      e.validateSignature outside { op with signature } userOpHash simulate =
        .unchanged e.store (.error f)) ∨
    ∃ w accepted, Outcome.result accepted = .ok (.valid w) ∧ ∀ x signature, parts.Writes mode x signature →
      (parts.IsSigned e.config.validatorAddress userOpHash x →
        e.validateSignature outside { op with signature } userOpHash simulate = accepted) ∧
      (¬parts.IsSigned e.config.validatorAddress userOpHash x →
        e.validateSignature outside { op with signature } userOpHash simulate =
          .unchanged e.store (.ok .signatureFailed)) := by
  have prepares {x signature : Hex} (writes : parts.Writes mode x signature) :=
    writes.ofOperation e.config.validatorAddress userOpHash matching
  cases read : parts.readFor mode e.config.validatorAddress op.callData userOpHash with
  | error f =>
    refine .inl ⟨f, fun x signature writes => ?_⟩
    unfold validateSignature ready prepare
    rw [prepares writes, read]
    rfl
  | ok found =>
    obtain ⟨message, steps⟩ := found
    obtain ⟨_, _, -, -, -, -, hashed, -⟩ := SignatureParts.readFor_eq_ok.1 read
    have signed (x : Hex) : parts.IsSigned e.config.validatorAddress userOpHash x ↔
        isSignedBy message x parts.operator = true := by
      unfold SignatureParts.IsSigned
      rw [hashed]
      simp
    -- the operation with an empty signature stands for all the others
    let p := parts.prepared op .empty message steps
    have reads {x signature : Hex} (writes : parts.Writes mode x signature) :
        e.ready outside { op with signature } userOpHash =
          (e.verifiedPermit outside p).map fun permit =>
            (parts.prepared { op with signature } x message steps, permit) := by
      unfold ready prepare
      rw [prepares writes, read]
      rfl
    cases verified : e.verifiedPermit outside p with
    | error f =>
      refine .inl ⟨f, fun x signature writes => ?_⟩
      unfold validateSignature
      rw [reads writes, verified]
      rfl
    | ok permit =>
      have finishes {x signature : Hex} (writes : parts.Writes mode x signature) :
          e.validateSignature outside { op with signature } userOpHash simulate =
            (parts.prepared { op with signature } x message steps).finish permit simulate e.store := by
        unfold validateSignature
        rw [reads writes, verified]
        rfl
      have settles (x signature : Hex) :
          (parts.prepared { op with signature } x message steps).settle permit e.store =
            p.settle permit e.store := rfl
      cases settled : p.settle permit e.store with
      | error f =>
        refine .inl ⟨f, fun x signature writes => ?_⟩
        rw [finishes writes, PreparedOperation.finish_eq, settles, settled]
      | ok done =>
        obtain ⟨s, w⟩ := done
        refine .inr ⟨w, if simulate then .unchanged e.store (.ok (.valid w))
          else ⟨.ok (.valid w), s, p.permitEvents permit⟩, by cases simulate <;> rfl,
          fun x signature writes => ?_⟩
        rw [finishes writes, PreparedOperation.finish_eq, settles, settled, signed]
        constructor
        · intro good
          simp only [SignatureParts.prepared, good, Bool.true_eq_false, if_false]
          rfl
        · intro bad
          simp only [SignatureParts.prepared, bad, if_true]

end Engine

/-- **The signature of an operator decides nothing but whether an operation is accepted.** Take any engine,
any operation, and two signatures of it that are written of the same parts, with or without a permit, in the
form for its call data, but with `x` and `y` as the signature of the operator. If both of these or neither
is one of the operator, the outcomes are the same. If `x` is and `y` is not, the outcome with `y` is the mark
of a bad signature, with nothing written or reported, exactly when the operation is accepted with `x`; and
otherwise both are refused for the same failure. -/
theorem outcome_independent_of_signature (e : Engine) (outside : Outside) (op : UserOperation)
    (userOpHash : Hex) (simulate : Bool) {mode : ExecutionMode} {parts : SignatureParts} {x y sx sy : Hex}
    (matching : ∀ operation, WalletOperation.decode op.callData = .ok operation → operation.mode = mode)
    (hx : parts.Writes mode x sx) (hy : parts.Writes mode y sy) :
    let outcome := fun signature => e.validateSignature outside { op with signature } userOpHash simulate
    let isSigned := parts.IsSigned e.config.validatorAddress userOpHash
    let isAccepted := ∃ d, (outcome sx).result = .ok d ∧ d.failed = false
    ((isSigned x ↔ isSigned y) → outcome sx = outcome sy) ∧
      (isSigned x → ¬isSigned y →
        (outcome sy = .unchanged e.store (.ok .signatureFailed) ↔ isAccepted) ∧
        (¬isAccepted → ∃ f, outcome sx = .unchanged e.store (.error f) ∧
          outcome sy = .unchanged e.store (.error f))) := by
  intro outcome isSigned isAccepted
  rcases e.validateSignature_of_writes outside userOpHash simulate parts matching with ⟨f, refused⟩ | ⟨w, accepted, valid, ends⟩
  · have failsX : outcome sx = .unchanged e.store (.error f) := refused x sx hx
    have failsY : outcome sy = .unchanged e.store (.error f) := refused y sy hy
    have rejected : ¬isAccepted := by
      rintro ⟨d, same, -⟩
      rw [failsX] at same
      cases same
    refine ⟨fun _ => failsX.trans failsY.symm, fun _ _ => ⟨⟨fun marked => ?_, fun h => absurd h rejected⟩,
      fun _ => ⟨f, failsX, failsY⟩⟩⟩
    cases congrArg Outcome.result (failsY.symm.trans marked)
  · obtain ⟨goodX, badX⟩ := ends x sx hx
    obtain ⟨goodY, badY⟩ := ends y sy hy
    refine ⟨fun both => ?_, fun signed unsigned => ?_⟩
    · by_cases signed : isSigned x
      · exact (goodX signed).trans (goodY (both.1 signed)).symm
      · exact (badX signed).trans (badY fun h => signed (both.2 h)).symm
    · have passes : isAccepted := ⟨.valid w, (congrArg Outcome.result (goodX signed)).trans valid, rfl⟩
      exact ⟨⟨fun _ => passes, fun _ => badY unsigned⟩, fun rejected => absurd passes rejected⟩

/-- Whatever placeholder stands for the signature of the operator, what comes of a call is the same. -/
theorem placeholders_agree :
    let e : Engine := .ofConfig ⟨.zero, .zero, 1, .zero, none, none⟩
    let outcome := fun callData signature =>
      e.validateSignature .silent ⟨.zero, 0, .empty, callData, 0, 0, 0, 0, 0, .empty, signature⟩
        (Hex.ofBytes (List.replicate 32 1)) true
    ∃ callData sx sy, WalletOperation.encodeNormalExecute ⟨.zero, 0, .empty, 0⟩ = .ok callData ∧
      encodeSignature .single (grantedTransfer.signedWith .empty) = .ok sx ∧
      encodeSignature .single (grantedTransfer.signedWith (Hex.ofBytes [1])) = .ok sy ∧
      sx.size < sy.size ∧ outcome callData sx = outcome callData sy := by
  intro e outcome
  have called : (WalletOperation.encodeNormalExecute ⟨.zero, 0, .empty, 0⟩).toOption.map
      (·.chars.length) = some 330 := by
    decide +kernel
  have evaluated : ∀ pair ∈ [(Hex.empty, 2154), (Hex.ofBytes [1], 2218)],
      (encodeSignature .single (grantedTransfer.signedWith pair.1)).toOption.map
        (fun s => (s.chars.length, s.size)) = some (pair.2, (pair.2 - 2) / 2) := by
    decide +kernel
  obtain ⟨callData, hcall, length⟩ := exists_ok_of_toOption called
  have writes {x : Hex} {b : Bytes} {n : Nat} (hb : x.bytes? = some b) (length : b.length ≠ 65)
      (listed : (x, n) ∈ [(Hex.empty, 2154), (Hex.ofBytes [1], 2218)]) (small : n < textBound) :
      ∃ sx, grantedTransfer.Writes .single x sx ∧ sx.size = (n - 2) / 2 ∧
        ¬grantedTransfer.IsSigned e.config.validatorAddress (Hex.ofBytes (List.replicate 32 1)) x := by
    obtain ⟨sx, encoded, sizes⟩ := exists_ok_of_toOption (evaluated _ listed)
    obtain ⟨chars, size⟩ := Prod.mk.inj sizes
    exact ⟨sx, ⟨{ areEncodable_grantedTransfer with operatorSignature := ⟨b, hb⟩ }, encoded,
      by rw [chars]; exact small⟩, size, SignatureParts.not_isSigned_of_length hb length⟩
  obtain ⟨sx, hx, sizeX, unsignedX⟩ := writes Hex.bytes?_empty (by decide) (.head _) (by decide)
  obtain ⟨sy, hy, sizeY, unsignedY⟩ :=
    writes (Hex.bytes?_ofBytes [1]) (by decide) (.tail _ (.head _)) (by decide)
  have matching : ∀ operation, WalletOperation.decode callData = .ok operation →
      operation.mode = .single := by
    have zero : Address.zero.isStrict = true := by decide
    have decoded := WalletOperation.decode_encodeNormalExecute
      ⟨zero, by decide, ⟨[], Hex.bytes?_empty⟩, ⟨0, rfl, by decide, by decide⟩⟩ hcall
      (by rw [length]; decide)
    intro operation again
    rw [decoded] at again
    cases again
    rfl
  refine ⟨callData, sx, sy, hcall, hx.encoded, hy.encoded, by rw [sizeX, sizeY]; decide, ?_⟩
  exact (outcome_independent_of_signature e .silent
    ⟨.zero, 0, .empty, callData, 0, 0, 0, 0, 0, .empty, .empty⟩ _ true matching hx hy).1
    ⟨fun h => absurd h unsignedX, fun h => absurd h unsignedY⟩

end SessionKeys
