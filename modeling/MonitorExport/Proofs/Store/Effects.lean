import MonitorExport.Proofs.Store.Building

/-!
# What each operation does

An operation that succeeds is a run of writes: on what it makes, and on the slots that it is for. One that
fails leaves every entity that was there as it was.
-/

namespace MonitorExport.Store

open Edit

variable {s t u : Store} {σ : Scope} {c d : CollectionId} {e x : EntityId} {i n : Nat} {given : EntityId → Prop}

/-! ## Giving back what a failed step made -/

/-- What a failed step leaves: entities that it made, and those that were there as they were. -/
structure Undone (given : EntityId → Prop) (s t : Store) : Prop where
  run : Run (.since s.entities.size given) s t
  entity : ∀ e, s.Has e → t.entity e = s.entity e

theorem Undone.refl : Undone given s s := ⟨.refl, fun _ _ => rfl⟩

theorem parent_foldl_unlink (es : List EntityId) :
    (es.foldl unlink s).parent x = if x ∈ es then none else s.parent x := by
  induction es generalizing s with
  | nil => simp
  | cons e es ih =>
      rw [List.foldl_cons, ih, parent_unlink]
      by_cases hx : x = e <;> simp [hx]

/-- Older entities belong to older ones alone once the later ones are given up. -/
theorem parent_releaseSince (h : x.index < n) :
    (s.releaseSince n).parent x = (s.parent x).filter fun c => c.owner.index < n := by
  rw [releaseSince, parent_foldl_unlink]
  cases hp : s.parent x with
  | none => simp
  | some c =>
      by_cases hc : c.owner.index < n
      · have hl : ¬ s.isLent n x := by simp [isLent_iff, hp, hc]
        simp [hl, hc, Option.filter]
      · have hl : s.isLent n x := by simpa [isLent_iff, hp, h] using hc
        have hx : x ∈ (List.range n).map EntityId.mk := List.mem_map.mpr ⟨x.index, by simpa using h, rfl⟩
        simp [hl, hc, hx, Option.filter]

/-- A link between two older entities is there after a run on later ones if and only if it was before. -/
theorem Run.parent_old (hs : s.Linked) (h : Run (.since s.entities.size given) s t)
    (hc : s.Has c.owner) : t.parent x = some c ↔ s.parent x = some c := by
  rw [← (h.linked hs).mem_iff, ← hs.mem_iff, h.members hs (Nat.not_le.mpr hc)]

/-- Giving up all that was made undoes a run of writes on it. -/
theorem Undone.releaseSince (hs : s.Linked) (h : Run (.since s.entities.size given) s t) :
    Undone given s (t.releaseSince s.entities.size) := by
  have hrun := h.trans (releaseSince_run (σ := .since s.entities.size given) fun _ hc => hc)
  refine ⟨hrun, fun e he => ?_⟩
  have hparent : (t.releaseSince s.entities.size).parent e = s.parent e := by
    rw [parent_releaseSince he]
    refine Option.ext fun c => ?_
    rw [Option.filter_eq_some_iff, decide_eq_true_eq]
    constructor
    · rintro ⟨hp, hc⟩
      exact (h.parent_old hs hc).mp hp
    · intro hp
      have hc : s.Has c.owner := (hs.isCollection hp).has
      exact ⟨(h.parent_old hs hc).mpr hp, hc⟩
  exact entity_congr (hrun.model he) (hrun.slots he fun _ => Nat.not_le.mpr he) hparent

/-- A step that gives up what it made leaves nothing else behind after a failure. -/
theorem ends_undoing {α : Type} {step : Edit α} {post : α → Store → Prop} (hs : s.Linked)
    (h : Ends step post (Run (.since s.entities.size given) s) s) : Ends (orRelease step) post (Undone given s) s :=
  ends_orRelease h fun _ ht => .releaseSince hs ht

/-! ## Operations -/

/-- What is asked of a scope in which an operation on a store works: it allows all that the operation makes,
and what the operation is given. -/
structure Scope.Hosts (σ : Scope) (s : Store) (given : EntityId → Prop) : Prop where
  writes : ∀ c, s.entities.size ≤ c.owner.index → σ.writes c
  moves : ∀ e, s.entities.size ≤ e.index → σ.moves e
  given : ∀ e, given e → s.Has e ∧ σ.moves e

theorem Scope.Hosts.within (h : σ.Hosts s given) : (Scope.since s.entities.size given).Within σ :=
  ⟨h.writes, fun y hy => hy.elim (fun h' => h.moves y (Nat.le_of_lt h')) fun h' => (h.given y h').2, fun _ => False.elim⟩

theorem instantiate_ends (hσ : σ.Hosts s given) (registry : Nat) (name : String) :
    Ends (instantiate registry name) (fun _ t => Run σ s t) (Undone given s) s :=
  ends_bind_read .refl fun m _ => ends_ofChange ((create_run s m).mono hσ.within)

theorem build_ends {m : ModelId} {positional : Input} {fields : Fields} (hs : s.Linked) (hr : s.NamesGiven)
    (hg : ∀ x, given x → s.Has x) (hn : ∀ x, positional.Names x ∨ NamedIn fields x → given x) :
    Ends (build m positional fields)
      (fun e t => Run (.since s.entities.size given) s t ∧ e = ⟨s.entities.size⟩ ∧ t.Has e ∧ t.model e = m)
      (Undone given s) s :=
  ends_undoing hs (builderFor_sound _ hs hr hg hn)

theorem updateTo_ends {limit : List Registry → Nat} {fields : Fields} (hs : s.Linked) (hr : s.NamesGiven)
    (hσ : σ.Hosts s given) (hn : ∀ x, NamedIn fields x → given x) (he : s.Has e)
    (ho : ∀ key ∈ fields.keys, ∀ i, s.fieldIndex e key = .ok i → σ.Opens s e i) :
    Ends (updateTo limit e fields) (fun _ t => Run σ s t) (Undone given s) s :=
  ends_undoing hs (updateWith_ends (buildTo_sound _) hs hr hσ.given hn he ho hσ.writes hσ.moves)

theorem assign_ends {field : String} {input : Input} (hs : s.Linked) (hr : s.NamesGiven) (hσ : σ.Hosts s given)
    (hn : ∀ x, input.Names x → given x) (he : s.Has e) (ho : ∀ i, s.fieldIndex e field = .ok i → σ.Opens s e i) :
    Ends (assign e field input) (fun _ t => Run σ s t) (Undone given s) s := by
  refine ends_undoing hs (ends_bind (stageField_ends (builderFor_sound _) hs hr (fun x hx => (hσ.given x hx).1) hn)
    fun change t _ h => ?_)
  obtain ⟨hrun, hsuits, hindex, hwait⟩ := h
  have hwait' : Waiting t s.entities.size (change.made ++ []) := by simpa using hwait
  obtain ⟨hcommit, _⟩ := commit_run (hrun.linked hs) ((ho _ hindex).run (hrun.mono hσ.within)) hsuits hrun.size_le he
    (fun x hx => ⟨(hσ.given x hx).2, (hσ.given x hx).1⟩) hσ.writes hσ.moves hwait'
  exact ends_apply ((hrun.mono hσ.within).trans hcommit)

theorem addTo_ends {limit : List Registry → Nat} {input : Input} (hs : s.Linked) (hr : s.NamesGiven)
    (hσ : σ.Hosts s given) (hn : ∀ x, input.Names x → given x) (hc : Takes σ s c) :
    Ends (addTo limit c input) (fun m t => Run σ s t ∧ m ∈ t.members c) (Undone given s) s := by
  refine ends_undoing hs (ends_bind (coerceMember_ends (buildTo_sound _) hs hr (fun x hx => (hσ.given x hx).1) hn)
    fun x t _ h => ends_ofChange ?_)
  have hrun := h.run.mono hσ.within
  have hwait : Waiting t s.entities.size (made [x] ++ []) := by simpa using h.waiting
  have hready : x.Ready σ s.entities.size :=
    .of_waiting h.waiting (by simp) (fun hnew => (hσ.given _ (h.given x (by simp) hnew)).symm) hσ.moves
  have hfits : t.Admits (t.target c.owner c.field) x.entity :=
    h.run.later.target hc.isCollection.has c.field ▸ h.admits x (by simp)
  obtain ⟨hins, hst, _⟩ := insert_run (h.run.linked hs) (hc.run hs hrun) hready hfits h.run.size_le
    hc.isCollection.has hσ.writes hσ.moves hwait
  exact ⟨hrun.trans hins, hst.mem⟩

theorem extendTo_ends {limit : Input → List Registry → Nat} {inputs : List Input} (hs : s.Linked) (hr : s.NamesGiven)
    (hσ : σ.Hosts s given) (hn : ∀ i ∈ inputs, ∀ x, i.Names x → given x) (hc : Takes σ s c) :
    Ends (extendTo limit c inputs) (fun ms t => Run σ s t ∧ ∀ m ∈ ms, m ∈ t.members c) (Undone given s) s := by
  refine ends_undoing hs (ends_bind (coerceAll_ends (fun _ => buildTo_sound _) hs hr (fun x hx => (hσ.given x hx).1) hn
    hc.isCollection.has) fun xs t _ h => ends_ofChange ?_)
  have hrun := h.run.mono hσ.within
  have hwait : Waiting t s.entities.size (made xs ++ []) := by simpa using h.waiting
  have hready : ∀ x ∈ xs, x.Ready σ s.entities.size := fun x hx =>
    .of_waiting h.waiting hx (fun hnew => (hσ.given _ (h.given x hx hnew)).symm) hσ.moves
  have hfits : ∀ x ∈ xs, t.Admits (t.target c.owner c.field) x.entity := fun x hx =>
    h.run.later.target hc.isCollection.has c.field ▸ h.admits x hx
  obtain ⟨hins, _, hmem, _⟩ := insertAll_run (h.run.linked hs) (hc.run hs hrun) hready hfits h.run.size_le
    hc.isCollection.has hσ.writes hσ.moves hwait
  exact ⟨hrun.trans hins, hmem⟩

theorem addNew_ends {positional : Input} {fields : Fields} (hs : s.Linked) (hr : s.NamesGiven)
    (hσ : σ.Hosts s given) (hn : ∀ x, positional.Names x ∨ NamedIn fields x → given x) (hc : Takes σ s c) :
    Ends (addNew c positional fields) (fun m t => Run σ s t ∧ m ∈ t.members c) (Undone given s) s := by
  refine ends_bind_read .refl fun m hm => ?_
  cases hm
  refine ends_bind (build_ends hs hr (fun x hx => (hσ.given x hx).1) hn) fun e t _ h => ends_ofChange ?_
  obtain ⟨hrun, rfl, hhas, hmodel⟩ := h
  have hrun' := hrun.mono hσ.within
  have hwait : Waiting t s.entities.size (made [⟨⟨s.entities.size⟩, true⟩]) :=
    .made (fun x hx => (hσ.given x hx).1) hrun rfl hhas
  have hfits : t.Admits (t.target c.owner c.field) ⟨s.entities.size⟩ :=
    ⟨hhas, .inl (hmodel.trans (hrun.later.target hc.isCollection.has c.field).symm)⟩
  obtain ⟨hplace, hst⟩ := placeNew_run (hrun.linked hs) (hc.run hs hrun') (hσ.moves _ (Nat.le_refl _)) hfits
    (hwait.unowned _ (by simp [made])) hc.isCollection.has hσ.writes
  exact ⟨hrun'.trans hplace, hst.mem⟩

theorem detach_run (hs : s.Linked) (hw : σ.writes c) : Run σ s (s.detach c e).1 := by
  unfold detach
  split
  · exact .refl
  · next m hm =>
    have hp : s.parent m = some c := hs.mem_iff.mp (List.mem_of_find?_eq_some hm)
    rw [← unlink_of_parent hp]
    exact .single (.detach hw hp)

theorem discard_ends {input : Input} (hs : s.Linked) (hr : s.NamesGiven) (hσ : σ.Hosts s given)
    (hn : ∀ x, input.Names x → given x) (hc : σ.writes c) :
    Ends (discard c input) (fun _ t => Run σ s t) (Undone given s) s := by
  refine ends_undoing hs (ends_bind (coerceMember_ends (builderFor_sound _) hs hr (fun x hx => (hσ.given x hx).1) hn)
    fun x t _ h => ends_bind_change ?_)
  have hdetach : Run σ s (t.detach c x.entity).1 :=
    (h.run.mono hσ.within).trans (detach_run (h.run.linked hs) hc)
  split
  · next hnew =>
    have hrelease : Run σ s ((t.detach c x.entity).1.release x.entity) :=
      hdetach.trans (release_run fun d hd => hσ.writes d (Nat.le_trans (h.waiting.le _ (by simp [made, hnew])) hd))
    exact ends_bind_apply (ends_pure hrelease)
  · exact ends_pure hdetach

theorem bind_ends {input : Input} (hi : ∀ x, input.Names x → s.Has x) (hσ : σ.writes ⟨e, i⟩)
    (ho : σ.outer ⟨e, i⟩) (hk : (s.slot e i).emptied = .binding .unbound) :
    Ends (Store.bind e i input) (fun _ t => Run σ s t) (Undone given s) s := by
  refine ends_bind_read .refl fun bound hbound => ends_apply ?_
  exact setSlot_run hσ hk.symm (by simp [Slot.emptied]) (coerceBinding_fits hi hbound) trivial (.inl ho)

end MonitorExport.Store
