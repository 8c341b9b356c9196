import MonitorExport.Proofs.Store.Lost
import MonitorExport.Proofs.Store.Operations

/-!
# Programs that have handles

A program can ask for an operation on what it has handles to. What nothing keeps is given up when the operation ends,
and whenever the program lets handles go. An operation leaves the collections that it is not for as they were, but for
those of what is given up.
-/

namespace MonitorExport

open Edit

theorem Handles.and_iff {h : Handles} {es : List EntityId} {e : EntityId} :
    h.and es e = true ↔ h e = true ∨ e ∈ es := by
  simp [Handles.and]

@[simp] theorem Handles.and_nil (h : Handles) : h.and [] = h := funext fun e => by simp [Handles.and]

@[simp] theorem Handles.all_and (es : List EntityId) : Handles.all.and es = .all := rfl

namespace Store

variable {s t u : Store} {h h' : Handles} {σ : Scope} {c : CollectionId} {e : EntityId} {n : Nat}
  {given : EntityId → Prop}

/-! ## What a run retains -/

/-- The scope that lets all be written, since members of what is lost are taken out wherever they are. -/
def Scope.everywhere (σ : Scope) : Scope := ⟨fun _ => True, σ.moves, σ.outer⟩

theorem Scope.within_everywhere : σ.Within σ.everywhere := ⟨fun _ _ => trivial, fun _ => id, fun _ => id⟩

theorem Scope.losing_within_everywhere : (Scope.losing t h).Within σ.everywhere :=
  ⟨fun _ _ => trivial, fun _ => False.elim, fun _ => False.elim⟩

/-- The scope that lets nothing become a member. -/
def Scope.still (σ : Scope) : Scope := ⟨σ.writes, fun _ => False, σ.outer⟩

theorem Scope.still_within : σ.still.Within σ := ⟨fun _ => id, fun _ => False.elim, fun _ => id⟩

/-- Whether a run in the midst of which entities are given up keeps the members of all collections out of scope, but for
those of what is lost in the end. -/
structure Retains (σ : Scope) (h : Handles) (s t : Store) : Prop where
  run : Run σ.everywhere s t
  members : ∀ c, s.Has c.owner → ¬ σ.writes c → ¬ t.Lost h c.owner → t.members c = s.members c

namespace Retains

theorem of_run (hs : s.Linked) (hrun : Run σ s t) : Retains σ h s t :=
  ⟨hrun.mono Scope.within_everywhere, fun _ _ hw _ => hrun.members hs hw⟩

theorem after_run (hs : s.Linked) (hrun : Run σ s t) (hp : Retains σ h t u) : Retains σ h s u :=
  ⟨(hrun.mono Scope.within_everywhere).trans hp.run, fun c hc hw hl =>
    (hp.members c (hrun.has hc) hw hl).trans (hrun.members hs hw)⟩

/-- What is given up before other changes is lost in the end if these make nothing keep it. -/
theorem after_sweep (hh : ∀ x, h' x = true → h x = true) (ha : Abandons s h u) (hp : Retains σ h' (s.sweep h) u) :
    Retains σ h' s u := by
  refine ⟨((sweep_run s h).mono Scope.losing_within_everywhere).trans hp.run, fun c hc hw hl => ?_⟩
  have hkept : ¬ s.Lost h c.owner := fun hlost =>
    hl (hlost.of_abandons ha fun x hx => not_lost_of_handle (hh x hx))
  exact (hp.members c (by rwa [Has, size_sweep]) hw hl).trans (members_sweep hkept)

theorem sweep (hp : Retains σ h s t) : Retains σ h s (t.sweep h) := by
  refine ⟨hp.run.trans ((sweep_run t h).mono Scope.losing_within_everywhere), fun c hc hw hl => ?_⟩
  rw [lost_sweep] at hl
  exact (members_sweep hl).trans (hp.members c hc hw hl)

end Retains

/-! ## Writing changes -/

theorem commitAllHolding_all (s : Store) (e : EntityId) (changes : List Change) :
    s.commitAllHolding .all e changes = s.commitAll e changes := by
  induction changes generalizing s with
  | nil => rfl
  | cons change changes ih =>
      rw [commitAllHolding, Handles.all_and, sweep_all, ih]
      rfl

/-- What a change puts others in place of can be taken out first. -/
theorem commit_vacate (s : Store) (e : EntityId) (change : Change) :
    (s.vacate e change).commit e false change = s.commit e true change := by
  cases change <;> rfl

theorem vacate_run {change : Change} (hw : σ.writes ⟨e, change.index⟩) (hf : change.Suits s e given) :
    Run σ.still s (s.vacate e change) := by
  cases change with
  | members index xs => exact clear_run hw hf.1
  | scalar index stored => exact .refl
  | bind index bound => exact .refl

/-- Writing changes of a scope retains the collections out of it. -/
theorem commitAllHolding_retains {changes : List Change} (hs : s.Linked) (he : s.Has e)
    (ho : ∀ change ∈ changes, σ.writes ⟨e, change.index⟩ ∧ σ.outer ⟨e, change.index⟩)
    (hf : ∀ change ∈ changes, change.Suits s e given) (hn : n ≤ s.entities.size) (hlt : e.index < n)
    (hg : ∀ x, given x → σ.moves x ∧ x.index < n) (hw : ∀ d, n ≤ d.owner.index → σ.writes d)
    (hm : ∀ y, n ≤ y.index → σ.moves y) (hq : Waiting s n (changes.flatMap Change.made)) :
    Retains σ h s (s.commitAllHolding h e changes) := by
  induction changes generalizing s with
  | nil => exact .of_run hs .refl
  | cons change changes ih =>
      obtain ⟨hopen, hrest⟩ := List.forall_mem_cons.mp ho
      have hcommit : Run σ s (s.commit e false change) ∧
          Waiting (s.commit e false change) n (changes.flatMap Change.made) :=
        commit_run hs ⟨hopen.1, .inl hopen.2⟩ (hf change (by simp)) hn hlt hg hw hm (by simpa using hq)
      obtain ⟨hrun, hwait⟩ := hcommit
      have hsweep := sweep_run (s.commit e false change) (h.and (changes.flatMap Change.inHand))
      have hlinked := hsweep.linked (hrun.linked hs)
      have hsuits : ∀ d ∈ changes, d.Suits _ e given := fun d hd =>
        Change.Suits.run (Change.Suits.run (hf d (by simp [hd])) hs hrun he) (hrun.linked hs) hsweep (hrun.has he)
      have hretains := ih hlinked (hsweep.has (hrun.has he)) hrest hsuits
        (Nat.le_trans hn (Nat.le_trans hrun.size_le hsweep.size_le)) (hwait.run hsweep fun _ _ => id)
      -- what the later changes bring is in hand, so nothing that is given up now is kept by them
      have hinHand : ∀ d ∈ changes, ∀ y ∈ d.inHand,
          ¬ (s.commit e false change).Lost (h.and (changes.flatMap Change.inHand)) y := fun d hd y hy =>
        not_lost_of_handle (Handles.and_iff.mpr (.inr (List.mem_flatMap.mpr ⟨d, hd, hy⟩)))
      exact .after_run hs hrun (.after_sweep (fun x hx => Handles.and_iff.mpr (.inl hx))
        ((Abandons.refl.sweep _).commitAllHolding hinHand h) hretains)

/-! ## Operations in the midst of which something is lost -/

theorem updateHolding_ends {fields : Fields} (hs : s.Linked) (hr : s.NamesGiven) (hσ : σ.Hosts s given)
    (hn : ∀ x, NamedIn fields x → given x) (he : s.Has e)
    (ho : ∀ key ∈ fields.keys, ∀ i, s.fieldIndex e key = .ok i → σ.writes ⟨e, i⟩ ∧ σ.outer ⟨e, i⟩) :
    Ends (updateHolding h e fields) (fun _ t => Retains σ h s t) (Undone given s) s := by
  refine ends_undoing hs (ends_bind (stageFields_ends (builderFor_sound _) hs hr (fun x hx => (hσ.given x hx).1) hn he)
    fun changes t _ hstaged => ends_apply ?_)
  obtain ⟨indices, hindices, hstaged⟩ := hstaged
  have hopens : ∀ change ∈ changes, σ.writes ⟨e, change.index⟩ ∧ σ.outer ⟨e, change.index⟩ := fun change hc => by
    obtain ⟨key, hkey, hf⟩ := mapM_ok_mem hindices _ (hstaged.index change hc)
    exact ho key hkey _ hf
  have hrun := hstaged.run
  exact .after_run hs (hrun.mono hσ.within) (commitAllHolding_retains (hrun.linked hs) (hrun.has he) hopens hstaged.suits
    hrun.size_le he (fun x hx => ⟨(hσ.given x hx).2, (hσ.given x hx).1⟩) hσ.writes hσ.moves hstaged.waiting)

theorem assignHolding_ends {field : String} {input : Input} (hs : s.Linked) (hr : s.NamesGiven) (hσ : σ.Hosts s given)
    (hn : ∀ x, input.Names x → given x) (he : s.Has e)
    (ho : ∀ i, s.fieldIndex e field = .ok i → σ.writes ⟨e, i⟩ ∧ σ.outer ⟨e, i⟩) :
    Ends (assignHolding h e field input) (fun _ t => Retains σ h s t) (Undone given s) s := by
  refine ends_undoing hs (ends_bind (stageField_ends (builderFor_sound _) hs hr (fun x hx => (hσ.given x hx).1) hn)
    fun change t _ hstaged => ends_apply ?_)
  obtain ⟨hrun, hsuits, hindex, hwait⟩ := hstaged
  have hlinked := hrun.linked hs
  have hopens := ho _ hindex
  have hvacate := vacate_run hopens.1 hsuits
  have hsweep := sweep_run (t.vacate e change) (h.and change.inHand)
  have hvacated := hvacate.linked hlinked
  have hretains : Retains σ h ((t.vacate e change).sweep (h.and change.inHand))
      (((t.vacate e change).sweep (h.and change.inHand)).commitAllHolding h e [change]) := by
    refine commitAllHolding_retains (hsweep.linked hvacated) (hsweep.has (hvacate.has (hrun.has he)))
      (List.forall_mem_singleton.mpr hopens) (List.forall_mem_singleton.mpr ?_)
      (Nat.le_trans hrun.size_le (Nat.le_trans hvacate.size_le hsweep.size_le)) he
      (fun x hx => ⟨(hσ.given x hx).2, (hσ.given x hx).1⟩) hσ.writes hσ.moves ?_
    · exact Change.Suits.run (Change.Suits.run hsuits hlinked hvacate (hrun.has he)) hvacated hsweep
        (hvacate.has (hrun.has he))
    · simpa using (hwait.run hvacate fun _ _ => id).run hsweep fun _ _ => id
  have hinHand : ∀ d ∈ [change], ∀ y ∈ d.inHand, ¬ (t.vacate e change).Lost (h.and change.inHand) y :=
    List.forall_mem_singleton.mpr fun y hy => not_lost_of_handle (Handles.and_iff.mpr (.inr hy))
  have hswept : Retains σ h (t.vacate e change) _ := .after_sweep (fun x hx => Handles.and_iff.mpr (.inl hx))
    ((Abandons.refl.sweep _).commitAllHolding hinHand h) hretains
  exact .after_run hs (hrun.mono hσ.within) (.after_run hlinked (hvacate.mono Scope.still_within) hswept)

end Store

/-! ## Operations -/

namespace Operation

variable {s t : Store} {h : Handles} {op : Operation} {c : CollectionId}

/-- Whether an operation works on an entity, or is given it. -/
def Uses (x : EntityId) (op : Operation) : Prop := op.Names x ∨ op.subject? = some x ∨ op = .duplicate x

/-- What an operation does for a program that has handles, until it ends. -/
def perform (h : Handles) : Operation → Edit (List EntityId)
  | .assign e field input => do
    Store.assignHolding h e field input
    return []
  | .update e fields => do
    Store.updateHolding h e fields
    return []
  | op => op.step

/-- The entities that the program has handles to after an operation. -/
def held (h : Handles) : Except ConfigError (List EntityId) → Handles
  | .ok es => h.and es
  | .error _ => h

/-- An operation for a program that has handles: what nothing keeps is given up as the operation ends. -/
def stepHolding (h : Handles) (op : Operation) : Edit (List EntityId) := fun s =>
  let (result, t) := op.perform h s
  (result, t.sweep (held h result))

/-- What the program has handles to after it asked for an operation. -/
def handlesAfter (h : Handles) (op : Operation) (s : Store) : Handles :=
  held h (op.stepHolding h s).1

/-- A program that has a handle to everything gives nothing up. -/
theorem perform_all (op : Operation) : op.perform .all = op.step := by
  cases op with
  | assign e field input =>
      have hassign : Store.assignHolding .all e field input = Store.assign e field input := by
        unfold Store.assignHolding Store.assign
        simp only [Handles.all_and, Store.sweep_all, Store.commitAllHolding_all]
        simp only [Store.commitAll, List.foldl_cons, List.foldl_nil, Store.commit_vacate]
      rw [perform, hassign]
      rfl
  | update e fields =>
      have hupdate : Store.updateHolding .all e fields = Store.update e fields := by
        unfold Store.updateHolding
        simp only [Store.commitAllHolding_all]
        rfl
      rw [perform, hupdate]
      rfl
  | _ => rfl

theorem held_all (result : Except ConfigError (List EntityId)) : held .all result = .all := by
  cases result <;> rfl

theorem stepHolding_all (op : Operation) : op.stepHolding .all = op.step := by
  funext s
  rw [stepHolding, perform_all]
  rcases op.step s with ⟨result, t⟩
  simp only [held_all, Store.sweep_all]

/-- An operation retains the collections that it is not for, and what it returns of a collection is there. One that
fails leaves all as it was. -/
theorem perform_ends (hs : s.Linked) (hr : s.NamesGiven) (hv : op.Valid s) (h : Handles) :
    Ends (op.perform h)
      (fun ms t => Store.Retains (op.scope s) (h.and ms) s t ∧ ∀ c, op.adds? = some c → ∀ m ∈ ms, m ∈ t.members c)
      (Store.Undone (fun x => op.Names x) s) s := by
  have hσ := scope_hosts hv.names
  have hstep : Ends op.step
      (fun ms t => Store.Retains (op.scope s) (h.and ms) s t ∧ ∀ c, op.adds? = some c → ∀ m ∈ ms, m ∈ t.members c)
      (Store.Undone (fun x => op.Names x) s) s :=
    (step_ends hs hr hv).mono (fun ms t hend => ⟨.of_run hs hend.1, hend.2⟩) fun _ hend => hend
  cases op with
  | assign e field input =>
      refine ends_bind (Store.assignHolding_ends hs hr hσ (fun _ => id) hv.handle fun i hi => ?_)
        fun _ t _ hend => ends_pure ⟨(Handles.and_nil h).symm ▸ hend, nofun⟩
      exact ⟨.inr ⟨rfl, hi⟩, ⟨rfl, hi⟩⟩
  | update e fields =>
      refine ends_bind (Store.updateHolding_ends hs hr hσ (fun _ => id) hv.handle fun key hkey i hi => ?_)
        fun _ t _ hend => ends_pure ⟨(Handles.and_nil h).symm ▸ hend, nofun⟩
      exact ⟨.inr ⟨rfl, key, hkey, hi⟩, ⟨rfl, key, hkey, hi⟩⟩
  | _ => exact hstep

/-- Whatever an operation ends with, it retains the collections that it is not for. -/
theorem retains_after (hs : s.Linked) (hr : s.NamesGiven) (hv : op.Valid s) (h : Handles) :
    Store.Retains (op.scope s) (op.handlesAfter h s) s (op.stepHolding h s).2 := by
  have hends := perform_ends hs hr hv h
  unfold handlesAfter stepHolding
  rcases hp : op.perform h s with ⟨err | ms, t⟩
  · exact .sweep (.of_run hs ((hends.error hp).run.mono (scope_hosts hv.names).within))
  · exact .sweep (hends.ok hp).1

theorem swept_after (op : Operation) (h : Handles) (s : Store) :
    (op.stepHolding h s).2.Swept (op.handlesAfter h s) := Store.swept_sweep

end Operation

namespace Store

variable {s : Store} {h : Handles} {allowed : Store → Handles → Operation → Prop}

/-- The stores that a program reaches, with the handles that it has there, if it asks only for operations that are
allowed and works on what it has handles to. Between operations it lets handles go, or has others to what is not lost. -/
inductive ReachesBy (allowed : Store → Handles → Operation → Prop) : Store → Handles → Prop
  | start {registries : List Registry} (h : Handles) (hr : ∀ r ∈ registries, r.NamesGiven) :
      ReachesBy allowed (.ofRegistries registries) h
  | step {s : Store} {h : Handles} {op : Operation} (hr : ReachesBy allowed s h) (hv : op.Valid s)
      (hu : ∀ x, op.Uses x → h x = true) (ha : allowed s h op) :
      ReachesBy allowed (op.stepHolding h s).2 (op.handlesAfter h s)
  | hold {s : Store} {h h' : Handles} (hr : ReachesBy allowed s h) (hh : ∀ x, h' x = true → ¬ s.Lost h x) :
      ReachesBy allowed (s.sweep h') h'

/-- The stores that a program reaches, with the handles that it has there. -/
abbrev Reaches : Store → Handles → Prop := ReachesBy fun _ _ _ => True

namespace ReachesBy

theorem linked_namesGiven (hr : ReachesBy allowed s h) : s.Linked ∧ s.NamesGiven := by
  induction hr with
  | start h hr => exact ⟨.ofRegistries _, hr⟩
  | @step s h op _ hv _ _ ih =>
      have hrun := (op.retains_after ih.1 ih.2 hv h).run
      exact ⟨hrun.linked ih.1, ih.2.run hrun⟩
  | @hold s h h' _ _ ih =>
      have hrun := sweep_run s h'
      exact ⟨hrun.linked ih.1, ih.2.run hrun⟩

theorem linked (hr : ReachesBy allowed s h) : s.Linked := hr.linked_namesGiven.1

theorem namesGiven (hr : ReachesBy allowed s h) : s.NamesGiven := hr.linked_namesGiven.2

/-- All that is lost was given up. -/
theorem swept (hr : ReachesBy allowed s h) : s.Swept h := by
  cases hr with
  | start h _ =>
      intro x c hp
      rw [parent_of_not_has (by simp [Has, ofRegistries])] at hp
      cases hp
  | step _ _ _ _ => exact Operation.swept_after _ _ _
  | hold _ _ => exact swept_sweep

theorem mono {more : Store → Handles → Operation → Prop} (hr : ReachesBy allowed s h)
    (hm : ∀ s h op, allowed s h op → more s h op) : ReachesBy more s h := by
  induction hr with
  | start h hr => exact .start h hr
  | step _ hv hu ha ih => exact .step ih hv hu (hm _ _ _ ha)
  | hold _ hh ih => exact .hold ih hh

end ReachesBy

/-- A program that has a handle to everything reaches what it reaches if nothing is given up. -/
theorem ReachableBy.reaches {may : Store → Operation → Prop} (hr : ReachableBy may s)
    (hm : ∀ s op, may s op → allowed s .all op) : ReachesBy allowed s .all := by
  induction hr with
  | start hr => exact .start .all hr
  | @step s op _ hv ha ih =>
      have hstep : ReachesBy allowed (op.stepHolding .all s).2 (op.handlesAfter .all s) :=
        .step ih hv (fun _ _ => rfl) (hm _ _ ha)
      rwa [op.stepHolding_all, Operation.handlesAfter, Operation.held_all] at hstep

end Store

end MonitorExport
