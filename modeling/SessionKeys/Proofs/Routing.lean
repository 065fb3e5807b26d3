import SessionKeys.Proofs.OwnerControl

/-!
How a new engine routes operations. Its registry enables the session-key validator as a normal one and, if an
owner is configured, the validator of the owner as sudo, both on the configured wallet, and nothing else. An
operation goes to the one whose bytes its signature begins with (`Registry.KeepsApart`). All this fails if an
owner is configured whose validator has the address of the session-key validator: then the latter is not
enabled, and its address may grant permits. Main statement: `validators_kept_apart_iff`.
-/

namespace SessionKeys

/-! ### Rows of two keys -/

theorem segments_ne_nil (cs : List Char) : segments cs ≠ [] := by
  cases cs with
  | nil => exact List.cons_ne_nil _ _
  | cons c cs =>
    rw [segments]
    split_ifs
    · exact List.cons_ne_nil _ _
    · cases segments cs with
      | nil => exact List.cons_ne_nil _ _
      | cons first rest => exact List.cons_ne_nil _ _

/-- A row of two words is split between two addresses in one way. -/
theorem Address.key_append_eq_iff {a b c d : Address} (hc : c.IsWritten) (hd : d.IsWritten) :
    a.key ++ b.key = c.key ++ d.key ↔ a.key = c.key ∧ b.key = d.key := by
  refine ⟨fun same => ?_, fun ⟨first, second⟩ => by rw [first, second]⟩
  obtain ⟨x, hx⟩ := hc.exists_key
  obtain ⟨y, hy⟩ := hd.exists_key
  have left : a.key ≠ [] := segments_ne_nil _
  have right : b.key ≠ [] := segments_ne_nil _
  rw [hx, hy] at same ⊢
  -- no key is empty, so each of the two has one of the words
  generalize a.key = l at same left
  generalize b.key = m at same right
  match l, m with
  | [_], [_] =>
    cases same
    exact ⟨rfl, rfl⟩
  | [_], _ :: _ :: _ => cases same
  | _ :: _ :: _, _ :: _ =>
    have lengths := congrArg List.length same
    simp only [List.length_append, List.length_cons, List.length_nil] at lengths
    omega

/-! ### Registries -/

namespace Registry

variable (r : Registry) {wallet address : Address} (v : Validator) (c : ValidatorClass)

theorem validator?_enable (a : Address) :
    (r.enable wallet address v c).validator? a =
      if address.key = a.key then some v else r.validator? a :=
  Table.find?_put _ _ _ _

theorem class?_enable (hwallet : wallet.IsWritten) (haddress : address.IsWritten) (w a : Address) :
    (r.enable wallet address v c).class? w a =
      if w.key = wallet.key ∧ a.key = address.key then some c else r.class? w a := by
  unfold class?
  rw [enabled_enable, Table.find?_put]
  exact if_congr (eq_comm.trans (Address.key_append_eq_iff hwallet haddress)) rfl rfl

variable {r} {v}

/-- An operation goes to the validator it is addressed to, if this is known and enabled on the sender. -/
theorem route_eq_ok {op : UserOperation} : r.route op = .ok (address, v) ↔
    ∃ payload, splitValidatorSignature op.signature = .ok ⟨address, payload⟩ ∧
      r.validator? address = some v ∧ ∃ c, r.class? op.sender address = some c := by
  unfold route
  rw [bind_eq_ok]
  constructor
  · rintro ⟨⟨named, payload⟩, split, found⟩
    split at found
    next w c known enabled =>
      cases found
      exact ⟨payload, split, known, c, enabled⟩
    next => cases found
  · rintro ⟨payload, split, known, c, enabled⟩
    refine ⟨_, split, ?_⟩
    simp only [known, enabled, pure_eq_ok]

end Registry

/-! ### Addressed operations -/

/-- An operation of a wallet is addressed to a validator: its signature begins with the bytes of the
validator, whatever the case of their letters. -/
structure UserOperation.IsAddressed (op : UserOperation) (wallet validator : Address) : Prop where
  sender : op.sender.key = wallet.key
  named : Address.Agrees ⟨op.signature.take 20⟩ validator

theorem UserOperation.IsAddressed.split {op : UserOperation} {wallet validator : Address}
    (h : op.IsAddressed wallet validator) (written : validator.IsWritten) :
    splitValidatorSignature op.signature = .ok ⟨validator, op.signature.drop 20⟩ := by
  obtain ⟨named, split, agrees⟩ := splitValidatorSignature_eq_ok.2 ⟨h.named, rfl⟩
  have same : named = validator :=
    (isWritten_of_splitValidatorSignature split).eq_of_agrees written agrees
  rw [split, same]

/-! ### Keeping apart -/

/-- A registry routes and enables the two validators of a configuration as it should. -/
structure Registry.KeepsApart (r : Registry) (config : Config) : Prop where
  /-- what is addressed to the session-key validator goes to it -/
  keys : ∀ op : UserOperation, op.IsAddressed config.walletAddress config.validatorAddress →
    r.route op = .ok (config.validatorAddress, .sessionKeys)
  /-- it is enabled as a normal validator -/
  keysNormal : r.class? config.walletAddress config.validatorAddress = some .normal
  /-- what is addressed to the validator of an owner goes to it, and it is enabled as sudo -/
  owner : ∀ owner, config.ownerAddress = some owner → ∃ signer, config.sudoValidatorAddress = some signer ∧
    r.class? config.walletAddress signer = some .sudo ∧
    ∀ op : UserOperation, op.IsAddressed config.walletAddress signer →
      r.route op = .ok (signer, .ecdsa ((∅ : Table Address).put config.walletAddress.key owner))
  /-- nothing goes to a validator of owner keys unless an owner is configured -/
  ownerOnly : ∀ op address owners, r.route op = .ok (address, .ecdsa owners) →
    ∃ owner, config.ownerAddress = some owner ∧ config.sudoValidatorAddress = some address
  /-- nothing else is enabled -/
  only : ∀ wallet address c, r.class? wallet address = some c →
    wallet.key = config.walletAddress.key ∧
      (address.key = config.validatorAddress.key ∨ ∃ owner signer, config.ownerAddress = some owner ∧
        config.sudoValidatorAddress = some signer ∧ address.key = signer.key)
  /-- the session-key validator may not grant permits -/
  keysNotSudo : ∀ wallet address, address.key = config.validatorAddress.key →
    r.class? wallet address ≠ some .sudo

namespace Engine

variable {config : Config}

/-- The address of the owner's validator, up to the case of its letters. -/
def IsOwnerKey (config : Config) (a : Address) : Prop :=
  ∃ signer owner, ownerValidator? config = some (signer, owner) ∧ a.key = signer.key

/-- The registry that knows and enables the session-key validator only. -/
def keysRegistry (config : Config) : Registry :=
  ({} : Registry).enable config.walletAddress config.validatorAddress .sessionKeys .normal

theorem initialRegistry_eq (config : Config) : initialRegistry config =
    match ownerValidator? config with
    | none => keysRegistry config
    | some (signer, owner) => (keysRegistry config).enable config.walletAddress signer
      (.ecdsa ((∅ : Table Address).put config.walletAddress.key owner)) .sudo := rfl

theorem validator?_keysRegistry {a : Address} {v : Validator} :
    (keysRegistry config).validator? a = some v ↔ a.key = config.validatorAddress.key ∧ v = .sessionKeys := by
  have none : ({} : Registry).validator? a = none := Table.find?_empty _
  rw [keysRegistry, Registry.validator?_enable, none, Option.ite_none_right_eq_some, Option.some.injEq,
    eq_comm, eq_comm (a := v)]

/-- The validators of a new engine: that of the owner stands before the session-key validator. -/
theorem validator?_initialRegistry {a : Address} {v : Validator} :
    (initialRegistry config).validator? a = some v ↔
      (∃ signer owner, ownerValidator? config = some (signer, owner) ∧ a.key = signer.key ∧
        v = .ecdsa ((∅ : Table Address).put config.walletAddress.key owner)) ∨
      ¬IsOwnerKey config a ∧ a.key = config.validatorAddress.key ∧ v = .sessionKeys := by
  rw [initialRegistry_eq]
  unfold IsOwnerKey
  cases ownerValidator? config with
  | none => simpa using validator?_keysRegistry
  | some x =>
    obtain ⟨signer, owner⟩ := x
    dsimp only
    rw [Registry.validator?_enable]
    by_cases same : a.key = signer.key
    · simp [same, eq_comm]
    · simpa [same, Ne.symm same] using validator?_keysRegistry

variable (hwallet : config.walletAddress.IsWritten) (hvalidator : config.validatorAddress.IsWritten)

include hwallet hvalidator

theorem class?_keysRegistry {w a : Address} {c : ValidatorClass} :
    (keysRegistry config).class? w a = some c ↔
      w.key = config.walletAddress.key ∧ a.key = config.validatorAddress.key ∧ c = .normal := by
  have none : ({} : Registry).class? w a = none := Table.find?_empty _
  rw [keysRegistry, Registry.class?_enable _ _ _ hwallet hvalidator, none, Option.ite_none_right_eq_some,
    Option.some.injEq, and_assoc, eq_comm (a := c)]

variable (hsudo : ∀ a, config.sudoValidatorAddress = some a → a.IsWritten)

include hsudo

/-- What a new engine enables: the validator of the owner as sudo, and the session-key validator as normal
unless it has the same address. -/
theorem class?_initialRegistry {w a : Address} {c : ValidatorClass} :
    (initialRegistry config).class? w a = some c ↔ w.key = config.walletAddress.key ∧
      (IsOwnerKey config a ∧ c = .sudo ∨
        ¬IsOwnerKey config a ∧ a.key = config.validatorAddress.key ∧ c = .normal) := by
  have keys := class?_keysRegistry hwallet hvalidator (w := w) (a := a) (c := c)
  rw [initialRegistry_eq]
  unfold IsOwnerKey
  cases configured : ownerValidator? config with
  | none => simpa using keys
  | some x =>
    obtain ⟨signer, owner⟩ := x
    have hsigner := hsudo signer (ownerValidator?_eq_some.1 configured).2
    dsimp only
    rw [Registry.class?_enable _ _ _ hwallet hsigner]
    by_cases same : a.key = signer.key
    · by_cases wallet : w.key = config.walletAddress.key
      · simp [same, wallet, eq_comm]
      · simpa [same, wallet] using keys
    · simpa [same] using keys

/-- The validators of a new engine are kept apart if they have different addresses. -/
theorem keepsApart_initialRegistry
    (complete : ∀ owner, config.ownerAddress = some owner →
      ∃ signer, config.sudoValidatorAddress = some signer)
    (apart : ¬IsOwnerKey config config.validatorAddress) : (initialRegistry config).KeepsApart config := by
  have enabled (w a : Address) (c : ValidatorClass) :=
    class?_initialRegistry hwallet hvalidator hsudo (w := w) (a := a) (c := c)
  exact {
    keys := fun op addressed => Registry.route_eq_ok.2 ⟨_, addressed.split hvalidator,
      validator?_initialRegistry.2 (.inr ⟨apart, rfl, rfl⟩), .normal,
      (enabled _ _ _).2 ⟨addressed.sender, .inr ⟨apart, rfl, rfl⟩⟩⟩
    keysNormal := (enabled _ _ _).2 ⟨rfl, .inr ⟨apart, rfl, rfl⟩⟩
    owner := by
      intro owner configured
      obtain ⟨signer, named⟩ := complete owner configured
      have both := ownerValidator?_eq_some.2 ⟨configured, named⟩
      have isOwner : IsOwnerKey config signer := ⟨signer, owner, both, rfl⟩
      refine ⟨signer, named, (enabled _ _ _).2 ⟨rfl, .inl ⟨isOwner, rfl⟩⟩, fun op addressed => ?_⟩
      exact Registry.route_eq_ok.2 ⟨_, addressed.split (hsudo signer named),
        validator?_initialRegistry.2 (.inl ⟨signer, owner, both, rfl, rfl⟩), .sudo,
        (enabled _ _ _).2 ⟨addressed.sender, .inl ⟨isOwner, rfl⟩⟩⟩
    ownerOnly := by
      intro op address owners routed
      obtain ⟨payload, split, known, -⟩ := Registry.route_eq_ok.1 routed
      rcases validator?_initialRegistry.1 known with ⟨signer, owner, both, same, -⟩ | ⟨-, -, same⟩
      · obtain ⟨configured, named⟩ := ownerValidator?_eq_some.1 both
        have written : address.IsWritten := isWritten_of_splitValidatorSignature split
        rw [written.key_inj (hsudo signer named) same]
        exact ⟨owner, configured, named⟩
      · cases same
    only := by
      intro wallet address c found
      obtain ⟨onWallet, ⟨⟨signer, owner, both, same⟩, -⟩ | ⟨-, same, -⟩⟩ := (enabled _ _ _).1 found
      · obtain ⟨configured, named⟩ := ownerValidator?_eq_some.1 both
        exact ⟨onWallet, .inr ⟨owner, signer, configured, named, same⟩⟩
      · exact ⟨onWallet, .inl same⟩
    keysNotSudo := by
      intro wallet address same grants
      obtain ⟨-, ⟨⟨signer, owner, both, key⟩, -⟩ | ⟨-, -, normal⟩⟩ := (enabled _ _ _).1 grants
      · exact apart ⟨signer, owner, both, same.symm.trans key⟩
      · cases normal }

/-- Where both validators of a configuration have one address, it is that of the owner's validator. -/
theorem initialRegistry_of_isOwnerKey (shared : IsOwnerKey config config.validatorAddress) :
    (initialRegistry config).class? config.walletAddress config.validatorAddress = some .sudo ∧
      ∀ op : UserOperation, op.IsAddressed config.walletAddress config.validatorAddress →
        ∃ owners, (initialRegistry config).route op = .ok (config.validatorAddress, .ecdsa owners) := by
  have enabled (w : Address) := class?_initialRegistry hwallet hvalidator hsudo (w := w)
    (a := config.validatorAddress) (c := .sudo)
  obtain ⟨signer, owner, both, same⟩ := shared
  have isOwner : IsOwnerKey config config.validatorAddress := ⟨signer, owner, both, same⟩
  refine ⟨(enabled _).2 ⟨rfl, .inl ⟨isOwner, rfl⟩⟩, fun op addressed =>
    ⟨(∅ : Table Address).put config.walletAddress.key owner, ?_⟩⟩
  exact Registry.route_eq_ok.2 ⟨_, addressed.split hvalidator,
    validator?_initialRegistry.2 (.inl ⟨signer, owner, both, same, rfl⟩), .sudo,
    (enabled _).2 ⟨addressed.sender, .inl ⟨isOwner, rfl⟩⟩⟩

end Engine

/-! ### Loaded configurations -/

namespace Config

variable {env : Environment} {config : Config} {name : String}

/-- An owner is configured, and a validator of the owner that has the address of the session-key validator. -/
def SharesAddress (env : Environment) : Prop :=
  (bytes? env "OWNER_ADDRESS").isSome ∧ bytes? env "SUDO_VALIDATOR_ADDRESS" = bytes? env "VALIDATOR_ADDRESS"

theorem length_of_bytes? {b : Bytes} (h : bytes? env name = some b) : b.length = 20 := by
  obtain ⟨text, -, read⟩ := Option.bind_eq_some_iff.1 h
  exact (Address.bytes?_eq_some_iff.1 read).2

theorem eq_of_optionalAddress {a : Option Address} (read : optionalAddress env name = .ok a) :
    a = (bytes? env name).map .ofBytes := by
  cases a with
  | some a =>
    obtain ⟨b, hb, rfl⟩ := optionalAddress_eq_ok.1 read
    rw [hb, Option.map_some]
  | none =>
    unfold optionalAddress at read
    unfold bytes?
    cases present : present? env name with
    | none => rfl
    | some text =>
      rw [present] at read
      obtain ⟨a, -, same⟩ := bind_eq_ok.1 read
      cases same

/-- The validators of a configuration that is loaded are those that the environment writes. -/
theorem validators_of_load (loaded : load env = .ok config) :
    (∃ v, bytes? env "VALIDATOR_ADDRESS" = some v ∧ config.validatorAddress = .ofBytes v) ∧
      config.ownerAddress = (bytes? env "OWNER_ADDRESS").map .ofBytes ∧
      config.sudoValidatorAddress = (bytes? env "SUDO_VALIDATOR_ADDRESS").map .ofBytes ∧
      ∀ owner, config.ownerAddress = some owner → ∃ signer, config.sudoValidatorAddress = some signer := by
  have made := load_eq_ok.1 loaded
  refine ⟨made.validator, eq_of_optionalAddress made.owner, eq_of_optionalAddress made.signer, ?_⟩
  intro owner configured
  exact Option.isSome_iff_exists.1 (made.complete (Option.isSome_iff_exists.2 ⟨owner, configured⟩))

/-- The two validators have one address in the environment exactly if they have one in the configuration. -/
theorem sharesAddress_iff (loaded : load env = .ok config) :
    SharesAddress env ↔ Engine.IsOwnerKey config config.validatorAddress := by
  obtain ⟨-, hvalidator, hsudo⟩ := isWritten_of_load loaded
  obtain ⟨⟨v, hv, validator⟩, owner, signer, complete⟩ := validators_of_load loaded
  unfold SharesAddress Engine.IsOwnerKey
  simp only [Engine.ownerValidator?_eq_some]
  constructor
  · rintro ⟨configured, same⟩
    rw [same, hv, Option.map_some, ← validator] at signer
    obtain ⟨o, ho⟩ := Option.isSome_iff_exists.1 configured
    rw [ho, Option.map_some] at owner
    exact ⟨_, _, ⟨owner, signer⟩, rfl⟩
  · rintro ⟨s, o, ⟨configured, named⟩, same⟩
    rw [← hvalidator.key_inj (hsudo s named) same, signer, validator] at named
    obtain ⟨b, hb, equal⟩ := Option.map_eq_some_iff.1 named
    obtain ⟨c, hc, -⟩ := Option.map_eq_some_iff.1 (owner.symm.trans configured)
    -- equal checksummed addresses have equal bytes
    have bytes := congrArg Address.bytes? equal
    rw [Address.bytes?_ofBytes (length_of_bytes? hb), Address.bytes?_ofBytes (length_of_bytes? hv)] at bytes
    exact ⟨by rw [hc]; rfl, by rw [hb, hv, bytes]⟩

end Config

/-- The validators of a new engine are kept apart, unless an owner is configured whose validator has the
address of the session-key validator, in whatever case of letters. Then that address may grant permits, and
what is addressed to it goes to the owner's validator. -/
theorem validators_kept_apart_iff {env : Environment} {config : Config}
    (loaded : Config.load env = .ok config) :
    ((Engine.ofConfig config).registry.KeepsApart config ↔ ¬Config.SharesAddress env) ∧
      (Config.SharesAddress env →
        (Engine.ofConfig config).registry.class? config.walletAddress config.validatorAddress = some .sudo ∧
          ∀ op : UserOperation, op.IsAddressed config.walletAddress config.validatorAddress →
            ∃ owners, (Engine.ofConfig config).registry.route op =
              .ok (config.validatorAddress, .ecdsa owners)) := by
  obtain ⟨hwallet, hvalidator, hsudo⟩ := Config.isWritten_of_load loaded
  obtain ⟨-, -, -, complete⟩ := Config.validators_of_load loaded
  have together (shared : Config.SharesAddress env) :=
    Engine.initialRegistry_of_isOwnerKey hwallet hvalidator hsudo
      ((Config.sharesAddress_iff loaded).1 shared)
  refine ⟨⟨fun apart shared => ?_, fun differ => ?_⟩, together⟩
  · cases apart.keysNormal.symm.trans (together shared).1
  · exact Engine.keepsApart_initialRegistry hwallet hvalidator hsudo complete fun isOwner =>
      differ ((Config.sharesAddress_iff loaded).2 isOwner)

/-- The address of the session-key validator is written in capitals, and that of the owner's validator in
small letters. -/
theorem recased_validators_not_apart :
    let env : Environment := fun name =>
      if name = "WALLET_ADDRESS" then some "0x1000000000000000000000000000000000000001"
      else if name = "VALIDATOR_ADDRESS" then some "0xABABABABABABABABABABABABABABABABABABABAB"
      else if name = "OWNER_ADDRESS" then some "0x3000000000000000000000000000000000000003"
      else if name = "SUDO_VALIDATOR_ADDRESS" then some "0xabababababababababababababababababababab"
      else none
    ∃ config, Config.load env = .ok config ∧ ¬(Engine.ofConfig config).registry.KeepsApart config ∧
      (Engine.ofConfig config).registry.class? config.walletAddress config.validatorAddress =
        some .sudo := by
  intro env
  have loads : (Config.load env).toOption.isSome = true := by decide +kernel
  have shared : Config.SharesAddress env := ⟨by decide +kernel, by decide +kernel⟩
  cases loaded : Config.load env with
  | error e =>
    rw [loaded] at loads
    cases loads
  | ok config =>
    obtain ⟨apart, together⟩ := validators_kept_apart_iff loaded
    exact ⟨config, rfl, fun kept => apart.1 kept shared, (together shared).1⟩

end SessionKeys
