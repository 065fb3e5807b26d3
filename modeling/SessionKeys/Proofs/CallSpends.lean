import SessionKeys.Proofs.ReadingBack
import SessionKeys.Proofs.Recasing

/-!
What a call spends, from the bytes of its data alone. The arguments of the token functions are words,
and a reader of words neither looks at the bytes in front of an address nor at what follows the last
word: it finds a value in any data that is long enough (`finds_words`), and none in data that is not
(`inside_of_words`). So the token that a call takes from a wallet, and how much of it, are known from
the selector and a few bytes at fixed places. Main statement: `outgoing_amounts_are_shown`.
-/

namespace SessionKeys

namespace Abi

open Scan (Finds)

/-! ### Words -/

/-- The word that starts at a position of the data. -/
def wordAt (data : Bytes) (position : Nat) : Bytes :=
  (data.drop position).take 32

theorem length_wordAt {data : Bytes} {position : Nat} (inside : position + 32 ≤ data.length) :
    (wordAt data position).length = 32 := by
  rw [wordAt, List.length_take, List.length_drop]
  omega

/-- A value that is read from one word, whatever the word is. -/
inductive Ty.OfWord : (t : Ty) → (word : Bytes) → t.Val → Prop
  | address (word : Bytes) : OfWord .address word (Address.ofBytes (word.drop 12))
  | uint {bits : Nat} (wide : 48 < bits) (word : Bytes) : OfWord (.uint bits) word (word.toNat : Int)

/-- Values that are read from the words of the data, one after the other. -/
inductive Fields.OfWords (data : Bytes) : (fields : Fields) → (offset : Nat) → fields.Val → Prop
  | nil (offset : Nat) : OfWords data .nil offset ()
  | cons {first : Ty} {rest : Fields} {offset : Nat} {v : first.Val} {vs : rest.Val}
    (one : first.OfWord (wordAt data offset) v) (others : OfWords data rest (offset + 32) vs) :
    OfWords data (.cons first rest) offset (v, vs)

theorem Ty.OfWord.headSize_eq {t : Ty} {word : Bytes} {v : t.Val} (h : t.OfWord word v) :
    t.headSize = 32 := by
  cases h <;> rfl

section

variable {data : Bytes} {t : Ty} {v : t.Val} {fields : Fields} {vs : fields.Val} {offset : Nat}

/-! ### Enough data -/

theorem holds_wordAt (inside : offset + 32 ≤ data.length) : Holds data offset (wordAt data offset) := by
  refine ⟨data.take offset, (data.drop offset).drop 32, ?_, ?_⟩
  · rw [wordAt, List.take_append_drop, List.take_append_drop]
  · rw [List.length_take]
    omega

theorem finds_wordAt (inside : offset + 32 ≤ data.length) :
    Finds (Scan.bytes data 32 32) offset {offset} (wordAt data offset) (offset + 32) := by
  have found := Scan.finds_bytes (holds_wordAt inside) 32
  rwa [length_wordAt inside] at found

theorem Ty.OfWord.finds (h : t.OfWord (wordAt data offset) v) (base : Nat)
    (inside : offset + 32 ≤ data.length) :
    Finds (decode data t base) offset {offset} v (offset + 32) := by
  have word := finds_wordAt inside
  cases h with
  | address =>
    rw [decode]
    exact word.map fun word => Address.ofBytes (word.drop 12)
  | @uint bits wide =>
    have wide : ¬bits ≤ 48 := Nat.not_le.2 wide
    rw [decode, unsigned]
    simp only [if_neg wide]
    exact ((word.map Bytes.toNat).map fun n => n).map fun n => (n : Int)

/-- A reader that stands where it goes to, or goes there, is there. -/
theorem finds_approach : Finds (Scan.approach data offset) offset ∅ () offset := by
  intro c position rereads _
  unfold Scan.approach
  split
  · exact ⟨{ c with position := offset }, rfl, rfl, rereads, fun _ hp => .inl hp⟩
  · exact ⟨c, rfl, position, rereads, fun _ hp => .inl hp⟩

/-- Words are read one after the other, and what follows them is not looked at. -/
theorem finds_words (h : fields.OfWords data offset vs) (base : Nat)
    (inside : offset + fields.headSize ≤ data.length) :
    Finds (decodeRow data (Scan.approach data) fields base offset) offset
      (Set.Ico offset (offset + fields.headSize)) vs (offset + fields.headSize) := by
  induction h with
  | nil offset =>
    rw [decodeRow]
    exact (Finds.pure ()).mono (Set.empty_subset _)
  | @cons first rest offset v vs one others ih =>
    have size : (Fields.cons first rest).headSize = 32 + rest.headSize := by
      rw [Fields.headSize, one.headSize_eq]
    rw [size] at inside
    have here := (one.finds base (by omega)).mono (singleton_subset_word offset)
    have both := here.map₂ (ih (by omega)) Set.Ico_disjoint_Ico_same Prod.mk
    rw [Set.Ico_union_Ico_eq_Ico (Nat.le_add_right _ _) (Nat.le_add_right _ _), Nat.add_assoc,
      ← size] at both
    rw [decodeRow, one.headSize_eq]
    exact finds_approach.after both

/-! ### Too little data -/

theorem inside_of_bytes {n step : Nat} {c : Cursor} {r : Bytes × Cursor}
    (h : Scan.bytes data n step c = .ok r) :
    c.position + n ≤ data.length ∧ r.2.position = c.position + step := by
  unfold Scan.bytes at h
  rw [error_ite_eq_ok, error_ite_eq_ok] at h
  obtain ⟨-, inside, h⟩ := h
  cases h
  exact ⟨Nat.not_lt.1 inside, rfl⟩

theorem Ty.OfWord.inside {word : Bytes} (h : t.OfWord word v) {base : Nat} {c : Cursor} {r : t.Val × Cursor}
    (read : decode data t base c = .ok r) :
    c.position + 32 ≤ data.length ∧ r.2.position = c.position + 32 := by
  cases h with
  | address =>
    rw [decode] at read
    obtain ⟨_, c₁, word, read⟩ := Scan.bind_eq_ok.1 read
    cases read
    exact inside_of_bytes word
  | @uint bits wide =>
    have wide : ¬bits ≤ 48 := Nat.not_le.2 wide
    rw [decode, unsigned] at read
    simp only [if_neg wide] at read
    obtain ⟨_, c₁, number, read⟩ := Scan.bind_eq_ok.1 read
    obtain ⟨_, c₂, word, number⟩ := Scan.bind_eq_ok.1 number
    obtain ⟨_, c₃, bytes, word⟩ := Scan.bind_eq_ok.1 word
    cases word
    cases number
    cases read
    exact inside_of_bytes bytes

theorem position_of_approach {c : Cursor} {r : Unit × Cursor} (h : Scan.approach data offset c = .ok r)
    (here : c.position = offset) : r.2.position = offset := by
  unfold Scan.approach at h
  split at h
  · cases h
    rfl
  · cases h
    exact here

/-- Words that were read are inside the data. -/
theorem inside_of_words (h : fields.OfWords data offset vs) {base : Nat} {c : Cursor}
    {r : fields.Val × Cursor}
    (here : c.position = offset) (inside : offset ≤ data.length)
    (read : decodeRow data (Scan.approach data) fields base offset c = .ok r) :
    offset + fields.headSize ≤ data.length := by
  induction h generalizing c with
  | nil offset => exact inside
  | @cons first rest offset v vs one others ih =>
    -- what follows is read from the end of this word, which is inside the data if the word was found
    rw [decodeRow, one.headSize_eq] at read
    obtain ⟨_, c₁, placed, read⟩ := Scan.bind_eq_ok.1 read
    obtain ⟨_, c₂, now, read⟩ := Scan.bind_eq_ok.1 read
    obtain ⟨_, c₃, later, -⟩ := Scan.bind_eq_ok.1 read
    have start := position_of_approach placed here
    obtain ⟨enough, next⟩ := one.inside now
    dsimp only at start next
    rw [start] at enough next
    have beyond := ih next enough later
    rw [Fields.headSize, one.headSize_eq]
    omega

/-! ### Arguments of a call -/

/-- Arguments that are words are found in data that is long enough. -/
theorem decodeBytes_words (h : fields.OfWords data 0 vs) (nonempty : 32 ≤ fields.headSize)
    (enough : fields.headSize ≤ data.length) : decodeBytes fields data = .ok vs := by
  have found := finds_words h 0 (by omega)
  obtain ⟨c, run, -⟩ := found .start rfl rfl fun _ _ => Std.ExtTreeSet.not_mem_empty
  unfold decodeBytes StateT.run'
  rw [if_neg (by omega), if_neg (by omega), run]
  rfl

/-- Arguments that are words are not found in data that is too short. -/
theorem decodeBytes_short (h : fields.OfWords data 0 vs) (short : data.length < fields.headSize) :
    ∃ e, decodeBytes fields data = .error e := by
  unfold decodeBytes StateT.run'
  split
  · exact ⟨_, rfl⟩
  split
  · exact ⟨_, rfl⟩
  cases read : decodeRow data (Scan.approach data) fields 0 0 .start with
  | error e => exact ⟨e, rfl⟩
  | ok r =>
    have inside := inside_of_words h rfl (Nat.zero_le _) read
    omega

end

end Abi

/-! ### Arguments of the token functions -/

/-- The address in a word of some arguments: its last twenty bytes. -/
def addressIn (arguments : Bytes) (index : Nat) : Bytes :=
  (Abi.wordAt arguments (32 * index)).drop 12

/-- The number in a word of some arguments. -/
def numberIn (arguments : Bytes) (index : Nat) : Nat :=
  (Abi.wordAt arguments (32 * index)).toNat

/-- The writing of some bytes starts with the writing of the first of them. -/
theorem Hex.take_ofBytes (n : Nat) (b : Bytes) : (Hex.ofBytes b).take n = Hex.ofBytes (b.take n) := by
  have digits : (b.flatMap Hex.byteDigits).take (2 * n) = (b.take n).flatMap Hex.byteDigits := by
    induction b generalizing n with
    | nil => simp
    | cons x rest ih =>
      cases n with
      | zero => rfl
      | succ n => simp [Hex.byteDigits, Nat.mul_succ, ih]
  exact congrArg Hex.ofDigits digits

namespace TokenFunction

theorem length_selector (f : TokenFunction) : f.selector.length = 4 := by
  cases f <;> rfl

theorem length_of_named {f : TokenFunction} {data : Bytes} (named : data.take 4 = f.selector) :
    4 ≤ data.length := by
  have size := congrArg List.length named
  rw [List.length_take, f.length_selector] at size
  omega

/-- How many bytes the arguments of a token function take. -/
def argumentSize : TokenFunction → Nat
  | transferFrom => 96
  | transfer | approve | increaseAllowance => 64

/-- The arguments take something from the wallet with these bytes: tokens of the wallet go to another
holder, or another may spend them. -/
def TakesFrom (wallet arguments : Bytes) : TokenFunction → Prop
  | transferFrom => addressIn arguments 0 = wallet ∧ addressIn arguments 1 ≠ wallet
  | transfer | approve | increaseAllowance => addressIn arguments 0 ≠ wallet

instance (wallet arguments : Bytes) : (f : TokenFunction) → Decidable (f.TakesFrom wallet arguments)
  | transferFrom => inferInstanceAs (Decidable (_ ∧ _))
  | transfer | approve | increaseAllowance => inferInstanceAs (Decidable (_ ≠ _))

/-- The amount in the arguments. -/
def amountIn (arguments : Bytes) : TokenFunction → Nat
  | transferFrom => numberIn arguments 2
  | transfer | approve | increaseAllowance => numberIn arguments 1

/-- Arguments that differ at most in the bytes in front of an address, and in what follows the words. -/
def Alike (a b : Bytes) : TokenFunction → Prop
  | transferFrom =>
    addressIn a 0 = addressIn b 0 ∧ addressIn a 1 = addressIn b 1 ∧ numberIn a 2 = numberIn b 2
  | transfer | approve | increaseAllowance =>
    addressIn a 0 = addressIn b 0 ∧ numberIn a 1 = numberIn b 1

section

variable {f : TokenFunction} {wallet : Address} {w a b : Bytes}

theorem Alike.takesFrom_iff (h : f.Alike a b) : f.TakesFrom w a ↔ f.TakesFrom w b := by
  cases f with
  | transferFrom =>
    obtain ⟨holder, recipient, -⟩ := h
    unfold TakesFrom
    rw [holder, recipient]
  | transfer | approve | increaseAllowance =>
    unfold TakesFrom
    rw [h.1]

theorem Alike.amountIn_eq (h : f.Alike a b) : f.amountIn a = f.amountIn b := by
  cases f with
  | transferFrom => exact h.2.2
  | transfer | approve | increaseAllowance => exact h.2

/-! ### Reading the arguments -/

/-- The values in the arguments of a function that names a recipient. -/
def recipientArguments (f : TokenFunction) (arguments : Bytes) : f.toRecipient.inputs.Val :=
  (Address.ofBytes (addressIn arguments 0), (numberIn arguments 1 : Int), ())

/-- The values in the arguments of a function that names a holder and a recipient. -/
def holderArguments (arguments : Bytes) : betweenHolders.inputs.Val :=
  (Address.ofBytes (addressIn arguments 0), Address.ofBytes (addressIn arguments 1),
    (numberIn arguments 2 : Int), ())

theorem ofWords_recipientArguments (f : TokenFunction) (arguments : Bytes) :
    f.toRecipient.inputs.OfWords arguments 0 (f.recipientArguments arguments) :=
  .cons (.address _) <| .cons (.uint (by decide) _) <| .nil _

theorem ofWords_holderArguments (arguments : Bytes) :
    betweenHolders.inputs.OfWords arguments 0 (holderArguments arguments) :=
  .cons (.address _) <| .cons (.address _) <| .cons (.uint (by decide) _) <| .nil _

theorem length_addressIn {arguments : Bytes} {index : Nat}
    (inside : 32 * index + 32 ≤ arguments.length) : (addressIn arguments index).length = 20 := by
  rw [addressIn, List.length_drop, Abi.length_wordAt inside]

/-- An address in the arguments is compared by its bytes. -/
theorem same_addressIn (own : wallet.bytes? = some w) {arguments : Bytes} {index : Nat}
    (inside : 32 * index + 32 ≤ arguments.length) :
    (Address.ofBytes (addressIn arguments index)).same wallet =
      .ok (decide (addressIn arguments index = w)) := by
  have bytes := Address.bytes?_ofBytes (length_addressIn inside)
  have formed : (Address.ofBytes (addressIn arguments index)).IsWellFormed :=
    Option.isSome_iff_exists.2 ⟨_, bytes⟩
  have ownFormed : wallet.IsWellFormed := Option.isSome_iff_exists.2 ⟨w, own⟩
  rw [Address.same_eq_ok formed ownFormed]
  refine congrArg _ (Bool.eq_iff_iff.2 ?_)
  rw [decide_eq_true_iff]
  exact Hex.same_iff (Address.bytes?_eq_some_iff.1 bytes).1 (Address.bytes?_eq_some_iff.1 own).1

end

end TokenFunction

/-! ### Calls -/

/-- A call carries some bytes, and the selector among them is written in small letters. -/
structure WalletCall.Carries (call : WalletCall) (data : Bytes) : Prop where
  writes : call.data.bytes? = some data
  small : call.data.take 4 = Hex.ofBytes (data.take 4)

section

variable {call : WalletCall} {data : Bytes} {wallet : Address} {w : Bytes} {f : TokenFunction}

namespace WalletCall.Carries

theorem decodeCall_eq (carried : call.Carries data) {g : Abi.Function}
    (named : data.take 4 = g.selector) :
    g.decodeCall call.data =
      if data.length ≤ 4 then .error .outOfBounds else Abi.decodeBytes g.inputs (data.drop 4) := by
  have selector : call.data.take 4 = g.writtenSelector := by
    rw [carried.small, named, Abi.Function.writtenSelector]
  unfold Abi.Function.decodeCall Abi.decodeFields
  rw [if_neg (not_not_intro selector), Hex.size_of_bytes? carried.writes,
    Hex.read?_of_bytes? (Hex.bytes?_drop carried.writes 4)]

/-- The arguments of a call are read if its data is long enough. -/
theorem read_arguments (carried : call.Carries data) {g : Abi.Function} {vs : g.inputs.Val}
    (named : data.take 4 = g.selector) (h : g.inputs.OfWords (data.drop 4) 0 vs)
    (nonempty : 32 ≤ g.inputs.headSize) (enough : g.inputs.headSize ≤ (data.drop 4).length) :
    reading "token call" (orFail (g.decodeCall call.data)) = .ok vs := by
  have long : ¬data.length ≤ 4 := by
    rw [List.length_drop] at enough
    omega
  rw [carried.decodeCall_eq named, if_neg long, Abi.decodeBytes_words h nonempty enough]
  rfl

/-- The arguments of a call are malformed if its data is too short. -/
theorem malformed_arguments (carried : call.Carries data) {g : Abi.Function} {vs : g.inputs.Val}
    (named : data.take 4 = g.selector) (h : g.inputs.OfWords (data.drop 4) 0 vs)
    (short : (data.drop 4).length < g.inputs.headSize) :
    ∃ reason, reading "token call" (orFail (g.decodeCall call.data)) =
      .error (.refused (.malformed "token call" reason)) := by
  rw [carried.decodeCall_eq named]
  split
  · exact ⟨_, rfl⟩
  · obtain ⟨e, failed⟩ := Abi.decodeBytes_short h short
    rw [failed]
    exact ⟨_, rfl⟩

theorem called?_eq_some (carried : call.Carries data) :
    TokenFunction.called? call.data = some f ↔ data.take 4 = f.selector := by
  have selectorOf : Abi.selectorOf call.data =
      if 4 ≤ data.length then Hex.ofBytes (data.take 4) else .empty := by
    unfold Abi.selectorOf
    rw [Hex.size_of_bytes? carried.writes, Hex.lower_of_bytes? (Hex.bytes?_take carried.writes 4)]
  constructor
  · intro called
    have named := TokenFunction.selectorOf_of_called? called
    rw [selectorOf] at named
    split at named
    · exact Hex.ofBytes_inj.1 named
    · exact absurd named (by cases f <;> decide)
  · intro named
    refine TokenFunction.called?_of_selectorOf ?_
    rw [selectorOf, if_pos (TokenFunction.length_of_named named), named]

/-- What a token function takes from a wallet is known from its arguments. -/
theorem amountTaken_eq_ok (carried : call.Carries data) (own : wallet.bytes? = some w)
    (named : data.take 4 = f.selector) (enough : f.argumentSize ≤ (data.drop 4).length) :
    f.amountTaken wallet call.data =
      .ok (if f.TakesFrom w (data.drop 4) then some (f.amountIn (data.drop 4) : Int) else none) := by
  have compared (index : Nat) (inside : 32 * index + 32 ≤ f.argumentSize) :=
    TokenFunction.same_addressIn own (Nat.le_trans inside enough)
  have sent := carried.read_arguments (g := f.toRecipient) named (f.ofWords_recipientArguments _)
  unfold TokenFunction.amountTaken TokenFunction.TakesFrom TokenFunction.amountIn
  cases f with
  | transferFrom =>
    have read := carried.read_arguments (g := TokenFunction.betweenHolders) named
      (TokenFunction.ofWords_holderArguments _) (by decide) enough
    have holder := compared 0 (by decide)
    have recipient := compared 1 (by decide)
    simp only [read, ok_bind]
    simp only [TokenFunction.holderArguments, holder, recipient, orFail_ok, ok_bind]
    by_cases held : addressIn (data.drop 4) 0 = w <;>
      by_cases kept : addressIn (data.drop 4) 1 = w <;> simp [held, kept, pure_eq_ok]
  | transfer | approve | increaseAllowance =>
    have read := sent (by decide) enough
    have recipient := compared 0 (by decide)
    simp only [read, ok_bind]
    simp only [TokenFunction.recipientArguments, recipient, orFail_ok, ok_bind]
    by_cases kept : addressIn (data.drop 4) 0 = w <;> simp [kept, pure_eq_ok]

/-- A token function with too few arguments is malformed. -/
theorem amountTaken_short (carried : call.Carries data) (wallet : Address) (named : data.take 4 = f.selector)
    (short : (data.drop 4).length < f.argumentSize) :
    ∃ reason, f.amountTaken wallet call.data = .error (.refused (.malformed "token call" reason)) := by
  have sent := carried.malformed_arguments (g := f.toRecipient) named (f.ofWords_recipientArguments _)
  unfold TokenFunction.amountTaken
  cases f with
  | transferFrom =>
    obtain ⟨reason, read⟩ := carried.malformed_arguments (g := TokenFunction.betweenHolders) named
      (TokenFunction.ofWords_holderArguments _) short
    exact ⟨reason, by simp only [read, error_bind]⟩
  | transfer | approve | increaseAllowance =>
    obtain ⟨reason, read⟩ := sent short
    exact ⟨reason, by simp only [read, error_bind]⟩

/-! ### Spendings of the call -/

theorem spends_of_named (carried : call.Carries data) (own : wallet.bytes? = some w)
    (named : data.take 4 = f.selector) (enough : f.argumentSize ≤ (data.drop 4).length) :
    call.spends wallet = .ok (nativeSpends call ++
      if f.TakesFrom w (data.drop 4) then [⟨call.target, f.amountIn (data.drop 4)⟩] else []) := by
  unfold WalletCall.spends tokenSpends
  simp only [carried.called?_eq_some.2 named, carried.amountTaken_eq_ok own named enough, ok_bind]
  by_cases taken : f.TakesFrom w (data.drop 4) <;> simp [taken, pure_eq_ok]

theorem spends_of_short (carried : call.Carries data) (wallet : Address)
    (named : data.take 4 = f.selector) (short : (data.drop 4).length < f.argumentSize) :
    ∃ reason, call.spends wallet = .error (.refused (.malformed "token call" reason)) := by
  obtain ⟨reason, taken⟩ := carried.amountTaken_short wallet named short
  unfold WalletCall.spends tokenSpends
  simp only [carried.called?_eq_some.2 named, taken, error_bind]
  exact ⟨reason, rfl⟩

theorem spends_of_unnamed (carried : call.Carries data) (wallet : Address)
    (unnamed : ∀ f : TokenFunction, data.take 4 ≠ f.selector) :
    call.spends wallet = .ok (nativeSpends call) := by
  have uncalled : TokenFunction.called? call.data = none := by
    rw [Option.eq_none_iff_forall_not_mem]
    intro f called
    exact unnamed f (carried.called?_eq_some.1 called)
  unfold WalletCall.spends tokenSpends
  simp only [uncalled, ok_bind, List.append_nil]
  rfl

end WalletCall.Carries

/-- Call data that is written from bytes. -/
theorem WalletCall.carries_ofBytes (h : call.data = Hex.ofBytes data) : call.Carries data where
  writes := by rw [h, Hex.bytes?_ofBytes]
  small := by rw [h, Hex.take_ofBytes]

/-- Bytes behind the arguments are not looked at. -/
theorem TokenFunction.alike_append (f : TokenFunction) {arguments : Bytes}
    (enough : f.argumentSize ≤ arguments.length) (more : Bytes) : f.Alike arguments (arguments ++ more) := by
  have word (index : Nat) (inside : 32 * index + 32 ≤ f.argumentSize) :
      Abi.wordAt (arguments ++ more) (32 * index) = Abi.wordAt arguments (32 * index) := by
    unfold Abi.wordAt
    rw [List.drop_append_of_le_length (by omega), List.take_append_of_le_length]
    rw [List.length_drop]
    omega
  unfold Alike addressIn numberIn
  cases f with
  | transferFrom => simp only [word 0 (by decide), word 1 (by decide), word 2 (by decide), and_self]
  | transfer | approve | increaseAllowance =>
    simp only [word 0 (by decide), word 1 (by decide), and_self]

/-- Calls with like arguments spend the same. -/
theorem WalletCall.Carries.spends_of_alike (carried : call.Carries data) (own : wallet.bytes? = some w)
    (named : data.take 4 = f.selector) (enough : f.argumentSize ≤ (data.drop 4).length)
    {other : WalletCall} {data' : Bytes} (carried' : other.Carries data')
    (named' : data'.take 4 = f.selector) (enough' : f.argumentSize ≤ (data'.drop 4).length)
    (alike : f.Alike (data.drop 4) (data'.drop 4)) (target : other.target = call.target)
    (value : other.value = call.value) : other.spends wallet = call.spends wallet := by
  rw [carried.spends_of_named own named enough, carried'.spends_of_named own named' enough']
  simp only [nativeSpends, target, value, alike.takesFrom_iff, alike.amountIn_eq]

/-- A call whose data is not too short for a selector and its arguments spends the same with more data. -/
theorem WalletCall.Carries.spends_append (carried : call.Carries data) (own : wallet.bytes? = some w)
    (long : 4 ≤ data.length)
    (enough : ∀ f : TokenFunction, data.take 4 = f.selector → f.argumentSize ≤ (data.drop 4).length)
    (more : Bytes) :
    { call with data := Hex.ofBytes (data ++ more) }.spends wallet = call.spends wallet := by
  have carried' : { call with data := Hex.ofBytes (data ++ more) }.Carries (data ++ more) :=
    carries_ofBytes rfl
  have selector : (data ++ more).take 4 = data.take 4 := List.take_append_of_le_length long
  have arguments : (data ++ more).drop 4 = data.drop 4 ++ more := List.drop_append_of_le_length long
  by_cases named : ∃ f : TokenFunction, data.take 4 = f.selector
  · obtain ⟨f, named⟩ := named
    have enough := enough f named
    refine carried.spends_of_alike own named enough carried' (selector.trans named) ?_ ?_ rfl rfl
    · rw [arguments, List.length_append]
      omega
    · rw [arguments]
      exact f.alike_append enough more
  · rw [carried.spends_of_unnamed wallet (not_exists.1 named),
      carried'.spends_of_unnamed wallet (selector ▸ not_exists.1 named)]
    rfl

/-- No outgoing amount is hidden. A call spends its native value, if there is one, and of the token that
it calls at most one amount, which is known from its bytes: if they name a token function and hold its
arguments, the amount is in the last of them, and it is spent if the addresses in the others say so; if
they do not hold the arguments, the call is malformed; and otherwise nothing of a token is spent. What
stands in front of an address or behind the arguments does not matter. -/
theorem WalletCall.outgoing_amounts_are_shown (own : wallet.bytes? = some w)
    (carried : call.Carries data) :
    (∀ f : TokenFunction, data.take 4 = f.selector → f.argumentSize ≤ (data.drop 4).length →
      call.spends wallet = .ok ((if 0 < call.value then [⟨Address.zero, call.value⟩] else []) ++
        if f.TakesFrom w (data.drop 4) then [⟨call.target, f.amountIn (data.drop 4)⟩] else [])) ∧
    (∀ f : TokenFunction, data.take 4 = f.selector → (data.drop 4).length < f.argumentSize →
      ∃ refusal, call.spends wallet = .error (.refused refusal) ∧ refusal.code = .malformedInput) ∧
    ((data.length < 4 ∨ ∀ f : TokenFunction, data.take 4 ≠ f.selector) →
      call.spends wallet = .ok (if 0 < call.value then [⟨Address.zero, call.value⟩] else [])) ∧
    (∀ f : TokenFunction, data.take 4 = f.selector → f.argumentSize ≤ (data.drop 4).length →
      ∀ (other : WalletCall) (data' : Bytes), other.Carries data' → data'.take 4 = f.selector →
        f.argumentSize ≤ (data'.drop 4).length → f.Alike (data.drop 4) (data'.drop 4) →
        other.target = call.target → other.value = call.value →
        other.spends wallet = call.spends wallet) ∧
    (4 ≤ data.length →
      (∀ f : TokenFunction, data.take 4 = f.selector → f.argumentSize ≤ (data.drop 4).length) →
      ∀ more : Bytes, { call with data := Hex.ofBytes (data ++ more) }.spends wallet =
        call.spends wallet) := by
  refine ⟨fun f named enough => carried.spends_of_named own named enough, ?_, ?_, ?_, ?_⟩
  · intro f named short
    obtain ⟨reason, refused⟩ := carried.spends_of_short wallet named short
    exact ⟨_, refused, rfl⟩
  · intro unnamed
    refine carried.spends_of_unnamed wallet fun f named => ?_
    rcases unnamed with short | unnamed
    · exact absurd (TokenFunction.length_of_named named) (Nat.not_le.2 short)
    · exact unnamed f named
  · intro f named enough other data' carried' named' enough' alike target value
    exact carried.spends_of_alike own named enough carried' named' enough' alike target value
  · intro long enough more
    exact carried.spends_append own long enough more

/-- Three coins are sent to a recipient other than the wallet, with bytes in front of its address and
behind the amount. -/
theorem WalletCall.outgoing_amounts_are_shown_of_transfer :
    let wallet : Bytes := List.replicate 20 1
    let data : Bytes := [0xa9, 0x05, 0x9c, 0xbb] ++ List.replicate 12 0xff ++ List.replicate 20 2 ++
      (List.replicate 31 0 ++ [3]) ++ [7, 7]
    let call : WalletCall := ⟨⟨Hex.ofBytes (List.replicate 20 9)⟩, 5, Hex.ofBytes data, .ofInt 0⟩
    (⟨Hex.ofBytes wallet⟩ : Address).bytes? = some wallet ∧ call.Carries data ∧
      call.spends ⟨Hex.ofBytes wallet⟩ =
        .ok [⟨Address.zero, 5⟩, ⟨⟨Hex.ofBytes (List.replicate 20 9)⟩, 3⟩] := by
  intro wallet data call
  have own : (⟨Hex.ofBytes wallet⟩ : Address).bytes? = some wallet :=
    Address.bytes?_eq_some_iff.2 ⟨Hex.bytes?_ofBytes wallet, by decide⟩
  have carried : call.Carries data := carries_ofBytes rfl
  refine ⟨own, carried, ?_⟩
  rw [(outgoing_amounts_are_shown own carried).1 .transfer (by decide) (by decide)]
  decide

end

end SessionKeys
