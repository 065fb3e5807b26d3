import SessionKeys.Proofs.Atomicity
import SessionKeys.Proofs.History

/-!
Dry runs tell what a validation would do, and nobody else notices them. A dry run ends with the result
of the validation that commits (`PreparedOperation.finish_dry`). From a run in which validations of both
kinds and changes of the owner go side by side, all steps of dry runs can be taken out
(`Timeline.withoutDryRuns`): the validations that are left are counted anew, but go through the same
stages (`Timeline.step_committing`). Main statement: `dry_runs_faithful_and_invisible`.
-/

namespace SessionKeys

/-! ### One validation -/

/-- A dry run has the result of the validation that commits; it writes and reports nothing. -/
theorem PreparedOperation.finish_dry (p : PreparedOperation) (permit : Option VerifiedPermit)
    (s : Store) :
    p.finish permit true s = .unchanged s (p.finish permit false s).result := by
  rw [finish_eq, finish_eq]
  cases p.settle permit s with
  | error f => rfl
  | ok x =>
    simp only [if_true, Bool.false_eq_true, if_false]
    split
    · rfl
    · rfl

/-- So it is for a validation as a whole. -/
theorem Engine.validateSignature_dry (e : Engine) (outside : Outside) (op : UserOperation)
    (userOpHash : Hex) :
    e.validateSignature outside op userOpHash true =
      .unchanged e.store (e.validateSignature outside op userOpHash false).result := by
  unfold validateSignature
  cases e.ready outside op userOpHash with
  | error f => rfl
  | ok x => exact x.1.finish_dry x.2 e.store

/-! ### Places among those that are left -/

section

variable {α : Type} {p : α → Bool} {l : List α} {index : Nat}

/-- The place that something in a list has after the list was filtered. What is behind the end of the
list stays behind the end. -/
def placeAmong (p : α → Bool) : List α → Nat → Nat
  | [], index => index
  | _ :: _, 0 => 0
  | a :: l, index + 1 => placeAmong p l index + if p a then 1 else 0

theorem getElem?_placeAmong (kept : ∀ a, l[index]? = some a → p a = true) :
    (l.filter p)[placeAmong p l index]? = l[index]? := by
  induction l generalizing index with
  | nil => rfl
  | cons b l ih =>
    cases index with
    | zero => simp [placeAmong, kept b rfl]
    | succ index =>
      rw [placeAmong, List.getElem?_cons_succ, ← ih kept]
      cases hb : p b with
      | true => simp [hb]
      | false => simp [hb]

theorem placeAmong_of_forall (all : ∀ a ∈ l, p a = true) (index : Nat) :
    placeAmong p l index = index := by
  induction l generalizing index with
  | nil => rfl
  | cons a l ih =>
    cases index with
    | zero => rfl
    | succ index =>
      rw [placeAmong, if_pos (all a List.mem_cons_self), ih fun x hx => all x (List.mem_cons_of_mem a hx)]

theorem filter_modify_of_kept {f : α → α} (stays : ∀ a, p (f a) = p a)
    (kept : ∀ a, l[index]? = some a → p a = true) :
    (l.modify index f).filter p = (l.filter p).modify (placeAmong p l index) f := by
  induction l generalizing index with
  | nil => simp
  | cons b l ih =>
    cases index with
    | zero => simp [placeAmong, kept b rfl, stays]
    | succ index =>
      rw [List.modify_succ_cons, placeAmong]
      cases hb : p b with
      | true => simp [hb, ih kept]
      | false => simp [hb, ih kept]

theorem filter_modify_of_dropped {f : α → α} (stays : ∀ a, p (f a) = p a)
    (dropped : ∀ a, l[index]? = some a → p a = false) : (l.modify index f).filter p = l.filter p := by
  induction l generalizing index with
  | nil => simp
  | cons b l ih =>
    cases index with
    | zero => simp [dropped b rfl, stays]
    | succ index => rw [List.modify_succ_cons, List.filter_cons, List.filter_cons, ih dropped]

end

/-! ### Runs without dry runs -/

def Running.commits (r : Running) : Bool :=
  !r.simulate

namespace Timeline

/-- The same timeline with the validations that are no dry runs. -/
def committing (t : Timeline) : Timeline :=
  { t with running := t.running.filter Running.commits }

/-- The place of a validation among those that are no dry runs. -/
def place (t : Timeline) (index : Nat) : Nat :=
  placeAmong Running.commits t.running index

/-- The validation at a place is a dry run. -/
def IsDry (t : Timeline) (index : Nat) : Prop :=
  t.running[index]?.map Running.simulate = some true

instance (t : Timeline) (index : Nat) : Decidable (t.IsDry index) :=
  inferInstanceAs (Decidable (_ = _))

/-- What is left of an action without dry runs. -/
def kept? (t : Timeline) : Action → Option Action
  | .start op userOpHash simulate => if simulate then none else some (.start op userOpHash simulate)
  | .read index => if t.IsDry index then none else some (.read (t.place index))
  | .answer index approved => if t.IsDry index then none else some (.answer (t.place index) approved)
  | .finish index => if t.IsDry index then none else some (.finish (t.place index))
  | a => some a

/-- What is left of a run without dry runs. -/
def withoutDryRuns : Timeline → List Action → List Action
  | _, [] => []
  | t, a :: rest => (t.kept? a).toList ++ (t.step a).1.withoutDryRuns rest

/-- What a change of the owner comes to: its events, or why it is refused. -/
def managed? (t : Timeline) : Action → Option (Except Refusal (List Event))
  | .manage call => some ((t.engine.manage call).map Prod.snd)
  | _ => none

/-- What the changes of the owner in a run come to. -/
def managed : Timeline → List Action → List (Except Refusal (List Event))
  | _, [] => []
  | t, a :: rest => (t.managed? a).toList ++ (t.step a).1.managed rest

variable {t : Timeline} {index : Nat}

theorem commits_of_not_isDry (kept : ¬t.IsDry index) :
    ∀ r, t.running[index]? = some r → r.commits = true := by
  intro r at_
  unfold IsDry at kept
  rw [at_] at kept
  simpa [Running.commits] using kept

theorem not_commits_of_isDry (dry : t.IsDry index) :
    ∀ r, t.running[index]? = some r → r.commits = false := by
  intro r at_
  unfold IsDry at dry
  rw [at_] at dry
  simpa [Running.commits] using dry

/-- A validation that is no dry run is found in its place. -/
theorem running_committing (kept : ¬t.IsDry index) :
    t.committing.running[t.place index]? = t.running[index]? :=
  getElem?_placeAmong (commits_of_not_isDry kept)

theorem advance_committing (kept : ¬t.IsDry index) (change : Stage → Stage) :
    t.committing.advance (t.place index) change = (t.advance index change).committing := by
  have goes := filter_modify_of_kept (f := fun r => { r with stage := change r.stage })
    (fun _ => rfl) (commits_of_not_isDry kept)
  exact congrArg (Timeline.mk t.engine) goes.symm

theorem committing_advance_of_isDry (dry : t.IsDry index) (change : Stage → Stage) :
    (t.advance index change).committing = t.committing := by
  have stays := filter_modify_of_dropped (f := fun r => { r with stage := change r.stage })
    (fun _ => rfl) (not_commits_of_isDry dry)
  exact congrArg (Timeline.mk t.engine) stays

/-- The end of a dry run is not noticed. -/
theorem finish_of_isDry (dry : t.IsDry index) :
    (t.step (.finish index)).1.committing = t.committing ∧ (t.step (.finish index)).2 = [] := by
  rcases t.step_finish_cases index with idle | ⟨simulate, p, permit, ready, ends⟩
  · rw [idle]
    exact ⟨rfl, rfl⟩
  · obtain rfl : simulate = true := by
      simpa [Running.commits] using not_commits_of_isDry dry _ ready
    rw [ends, p.finish_dry]
    exact ⟨committing_advance_of_isDry dry _, rfl⟩

/-- The end of any other validation is the end of the one in its place. -/
theorem finish_committing (kept : ¬t.IsDry index) :
    t.committing.step (.finish (t.place index)) =
      ((t.step (.finish index)).1.committing, (t.step (.finish index)).2) := by
  simp only [step, finish, running_committing kept,
    show t.committing.engine = t.engine from rfl]
  cases t.running[index]?.bind fun r => r.outcome? t.engine.store with
  | none => rfl
  | some o =>
    have moves := advance_committing (t := { t with engine := { t.engine with store := o.store } }) kept
    exact congrArg (·, o.events) (moves fun _ => .done o.result)

/-- A step that is left out is not noticed by the validations that are left, and a step that is kept
does to them what it did before. -/
theorem step_committing (t : Timeline) (a : Action) :
    match t.kept? a with
    | none => (t.step a).1.committing = t.committing ∧ (t.step a).2 = []
    | some b => t.committing.step b = ((t.step a).1.committing, (t.step a).2) := by
  cases a with
  | start op userOpHash simulate =>
    have filtered (r : Running) : (t.running ++ [r]).filter Running.commits =
        t.running.filter Running.commits ++ if r.commits then [r] else [] := by
      simp [List.filter_append, List.filter_singleton]
    cases simulate with
    | true => exact ⟨congrArg (Timeline.mk t.engine) ((filtered _).trans (List.append_nil _)), rfl⟩
    | false => exact congrArg (·, []) (congrArg (Timeline.mk t.engine)
      (filtered ⟨false, .start t.engine op userOpHash⟩).symm)
  | read index =>
    simp only [kept?]
    by_cases dry : t.IsDry index
    · rw [if_pos dry]
      exact ⟨committing_advance_of_isDry dry _, rfl⟩
    · rw [if_neg dry]
      exact congrArg (·, []) (advance_committing dry _)
  | answer index approved =>
    simp only [kept?]
    by_cases dry : t.IsDry index
    · rw [if_pos dry]
      exact ⟨committing_advance_of_isDry dry _, rfl⟩
    · rw [if_neg dry]
      exact congrArg (·, []) (advance_committing dry _)
  | finish index =>
    simp only [kept?]
    by_cases dry : t.IsDry index
    · rw [if_pos dry]
      exact finish_of_isDry dry
    · rw [if_neg dry]
      exact finish_committing dry
  | manage call =>
    simp only [kept?, step, Engine.manage, committing]
    cases call.apply t.engine.store with
    | error f => rfl
    | ok x => rfl
  | enable | disable | setOwner => rfl

/-- The changes of the owner are kept, and come to the same. -/
theorem managed?_committing (t : Timeline) (a : Action) :
    (t.kept? a).bind t.committing.managed? = t.managed? a := by
  cases a with
  | start op userOpHash simulate =>
    cases simulate with
    | true => rfl
    | false => rfl
  | read index | answer index approved | finish index =>
    simp only [kept?]
    split
    · rfl
    · rfl
  | manage | enable | disable | setOwner => rfl

/-- Without its dry runs a run leads to the same timeline without its dry runs. It reports the same, and
the changes of the owner come to the same. -/
theorem run_committing (t : Timeline) (actions : List Action) :
    t.committing.run (t.withoutDryRuns actions) = ((t.run actions).1.committing, (t.run actions).2) ∧
      t.committing.managed (t.withoutDryRuns actions) = t.managed actions := by
  have run_cons (t : Timeline) (a : Action) (rest : List Action) : t.run (a :: rest) =
      (((t.step a).1.run rest).1, (t.step a).2 ++ ((t.step a).1.run rest).2) := rfl
  induction actions generalizing t with
  | nil => exact ⟨rfl, rfl⟩
  | cons a rest ih =>
    have now := t.step_committing a
    have changes := t.managed?_committing a
    obtain ⟨runs, manages⟩ := ih (t.step a).1
    rw [withoutDryRuns, managed, run_cons]
    cases kept : t.kept? a with
    | none =>
      rw [kept] at now changes
      rw [← changes, now.2]
      rw [now.1] at runs manages
      exact ⟨runs, manages⟩
    | some b =>
      rw [kept] at now changes
      simp only [Option.bind_some] at now changes
      rw [← changes, Option.toList_some, List.singleton_append, run_cons, managed, now, runs, manages]
      exact ⟨rfl, rfl⟩

/-- No dry run is left. -/
theorem not_mem_withoutDryRuns {actions : List Action} {op : UserOperation} {userOpHash : Hex} :
    .start op userOpHash true ∉ t.withoutDryRuns actions := by
  induction actions generalizing t with
  | nil => exact List.not_mem_nil
  | cons a rest ih =>
    rw [withoutDryRuns, List.mem_append, not_or]
    refine ⟨fun left => ?_, ih⟩
    have kept := Option.mem_toList.1 left
    cases a with
    | start op userOpHash simulate =>
      cases simulate with
      | true => cases kept
      | false => cases kept
    | read index | answer index approved | finish index =>
      simp only [kept?] at kept
      split at kept
      · cases kept
      · cases kept
    | manage | enable | disable | setOwner => cases kept

/-- Nothing is left out of a run without dry runs. -/
theorem withoutDryRuns_eq_self {actions : List Action} (all : t.committing = t)
    (none : ∀ op userOpHash, .start op userOpHash true ∉ actions) :
    t.withoutDryRuns actions = actions := by
  induction actions generalizing t with
  | nil => rfl
  | cons a rest ih =>
    have commits : ∀ r ∈ t.running, r.commits = true :=
      List.filter_eq_self.1 (congrArg Timeline.running all)
    have wet (index : Nat) : ¬t.IsDry index := by
      intro dry
      obtain ⟨r, at_, -⟩ := Option.map_eq_some_iff.1 dry
      have dropped := not_commits_of_isDry dry r at_
      rw [commits r (List.mem_of_getElem? at_)] at dropped
      cases dropped
    have kept : t.kept? a = some a := by
      cases a with
      | start op userOpHash simulate =>
        cases simulate with
        | true => exact absurd List.mem_cons_self (none op userOpHash)
        | false => rfl
      | read index | answer index approved | finish index =>
        rw [kept?, if_neg (wet index), place, placeAmong_of_forall commits]
      | manage | enable | disable | setOwner => rfl
    have next := t.step_committing a
    rw [kept] at next
    simp only [all] at next
    rw [withoutDryRuns, kept, ih (congrArg Prod.fst next).symm fun op userOpHash later =>
      none op userOpHash (List.mem_cons_of_mem a later)]
    rfl

end Timeline

/-- **Dry runs are faithful and invisible.** A dry run has the result of the validation that commits
from the same engine, and writes and reports nothing. And in any run of validations of both kinds, step
by step, and changes of the owner and of the validators of wallets, the dry runs can be taken out. The
engine at the end is the same, with its store, and so are the events that are reported; each change of
the owner comes to the same; and each other validation stands where it stood, which is its result once
it has ended. -/
theorem dry_runs_faithful_and_invisible (e : Engine) :
    (∀ outside op userOpHash, e.validateSignature outside op userOpHash true =
      .unchanged e.store (e.validateSignature outside op userOpHash false).result) ∧
    ∀ actions,
      let t := Timeline.ofEngine e
      let all := t.run actions
      let kept := t.run (t.withoutDryRuns actions)
      (∀ op userOpHash, .start op userOpHash true ∉ t.withoutDryRuns actions) ∧
        kept.1.engine = all.1.engine ∧ kept.2 = all.2 ∧
        t.managed (t.withoutDryRuns actions) = t.managed actions ∧
        ∀ index stage, all.1.running[index]? = some ⟨false, stage⟩ →
          kept.1.running[all.1.place index]? = some ⟨false, stage⟩ := by
  refine ⟨e.validateSignature_dry, fun actions => ?_⟩
  intro t all kept
  obtain ⟨runs, manages⟩ := t.run_committing actions
  have last : kept = (all.1.committing, all.2) := runs
  refine ⟨fun _ _ => Timeline.not_mem_withoutDryRuns, ?_, ?_, manages, fun index stage at_ => ?_⟩
  · rw [last]
    rfl
  · rw [last]
  · have wet : ¬all.1.IsDry index := by
      unfold Timeline.IsDry
      rw [at_]
      nofun
    rw [last, ← at_]
    exact Timeline.running_committing wet

end SessionKeys
