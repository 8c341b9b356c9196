import MonitorExport.Proofs.Store.Writes

/-!
# Attaching, copying and giving back

The changes of the store that cannot fail are runs of writes. Copying writes new entities only; giving an
entity back writes collections of that entity or of later ones only; inserting writes, besides, the
collection itself.
-/

namespace MonitorExport

/-! ## Trees drawn from a store -/

namespace Subtree

mutual

/-- Whether all members in a tree are members in the store. -/
def Drawn (s : Store) : Subtree → Prop
  | .node e branches => DrawnBranches s e 0 branches

/-- Whether the branches from `field` on hold members of an entity. -/
def DrawnBranches (s : Store) (e : EntityId) (field : Nat) : List (List Subtree) → Prop
  | [] => True
  | members :: rest => DrawnMembers s ⟨e, field⟩ members ∧ DrawnBranches s e (field + 1) rest

/-- Whether trees are those of members of a collection. -/
def DrawnMembers (s : Store) (c : CollectionId) : List Subtree → Prop
  | [] => True
  | t :: rest => t.root ∈ s.members c ∧ t.Drawn s ∧ DrawnMembers s c rest

end

variable {s : Store} {c : CollectionId} {e : EntityId}

theorem drawnMembers_iff {ts : List Subtree} :
    DrawnMembers s c ts ↔ ∀ t ∈ ts, t.root ∈ s.members c ∧ t.Drawn s := by
  induction ts with
  | nil => simp [DrawnMembers]
  | cons t ts ih => simp [DrawnMembers, ih, and_assoc]

theorem drawnBranches_iff {field : Nat} {bs : List (List Subtree)} :
    DrawnBranches s e field bs ↔ ∀ i ts, bs[i]? = some ts → DrawnMembers s ⟨e, field + i⟩ ts := by
  induction bs generalizing field with
  | nil => simp [DrawnBranches]
  | cons ts bs ih =>
      simp only [DrawnBranches, ih]
      constructor
      · rintro ⟨h0, h⟩ i us hi
        cases i with
        | zero => simp only [List.getElem?_cons_zero, Option.some.injEq] at hi; exact hi ▸ h0
        | succ i => simpa [Nat.add_assoc, Nat.add_comm 1] using h i us (by simpa using hi)
      · intro h
        exact ⟨by simpa using h 0 ts rfl,
          fun i us hi => by simpa [Nat.add_assoc, Nat.add_comm 1] using h (i + 1) us (by simpa using hi)⟩

theorem root_subtreeWithin (fuel : Nat) (above : List EntityId) :
    (s.subtreeWithin fuel above e).root = e := by
  cases fuel <;> rfl

@[simp] theorem root_subtree (s : Store) (e : EntityId) : (s.subtree e).root = e := root_subtreeWithin ..

theorem subtreeWithin_drawn (fuel : Nat) (above : List EntityId) : (s.subtreeWithin fuel above e).Drawn s := by
  induction fuel generalizing above e with
  | zero =>
      simp only [Store.subtreeWithin, Drawn, drawnBranches_iff]
      intro i ts hi
      obtain ⟨slot, _, rfl⟩ := List.getElem?_map .. ▸ hi |> Option.map_eq_some_iff.mp
      trivial
  | succ fuel ih =>
      simp only [Store.subtreeWithin, Drawn, drawnBranches_iff, drawnMembers_iff]
      intro i ts hi t ht
      obtain ⟨slot, hslot, rfl⟩ := List.getElem?_map .. ▸ hi |> Option.map_eq_some_iff.mp
      obtain ⟨m, hm, rfl⟩ := List.mem_map.mp ht
      have hs : s.slot e i = slot := by simp [Store.slot, List.getD_eq_getElem?_getD, hslot]
      rw [root_subtreeWithin, Nat.zero_add, Store.members_eq, hs]
      exact ⟨(List.mem_filter.mp hm).1, ih _⟩

theorem subtree_drawn (s : Store) (e : EntityId) : (s.subtree e).Drawn s := subtreeWithin_drawn ..

end Subtree

namespace Store

open Subtree

variable {s s₀ t : Store} {σ : Scope} {c d : CollectionId} {e x : EntityId} {n : Nat}

/-! ## Placing and giving back -/

theorem sameIdentity_self (s : Store) (e : EntityId) : s.sameIdentity e e = true := by
  simp [sameIdentity]

/-- Whether a collection keeps its members in their places and has an entity, in a later store. -/
structure Stores (s : Store) (c : CollectionId) (t : Store) (m : EntityId) : Prop where
  members_prefix : s.members c <+: t.members c
  mem : m ∈ t.members c

theorem Stores.of_mem (h : e ∈ s.members c) : Stores s c s e := ⟨List.prefix_rfl, h⟩

theorem Stores.link (h : s.IsCollection c) : Stores s c (s.link c e) e := by
  constructor <;> simp [members_link h]

theorem unequal_of_find? (h : (s.members c).find? (s.sameIdentity · e) = none) :
    ∀ m ∈ s.members c, s.sameIdentity m e = false :=
  fun m hm => Bool.eq_false_iff.mpr (List.find?_eq_none.mp h m hm)

/-- Placing an entity that belongs to nothing, or to that very collection, links it at most. -/
theorem place_run (hs : s.Linked) (hw : σ.writes c) (hv : σ.moves e) (hc : s.IsCollection c) (hh : s.Has e)
    (hp : ∀ p, s.parent e = some p → p = c) (ho : σ.outer c ∨ s.parent c.owner = none ∧ c.owner ≠ e)
    (hf : s.Admits (s.target c.owner c.field) e) :
    Run σ s (s.place c e).1 ∧ Stores s c (s.place c e).1 (s.place c e).2 := by
  unfold place
  split
  · next m hm => exact ⟨.refl, .of_mem (List.mem_of_find?_eq_some hm)⟩
  · next hm =>
    have hn : s.parent e = none := by
      cases hq : s.parent e with
      | none => rfl
      | some p =>
          have he : e ∈ s.members c := hs.mem_iff.mpr (hp p hq ▸ hq)
          exact absurd (s.sameIdentity_self e) (List.find?_eq_none.mp hm e he)
    exact ⟨.single (.attach hw hv hc hh hn ho hf (unequal_of_find? hm)), .link hc⟩

/-- Entities whose collections may be written can be unlinked one after the other. -/
theorem foldl_unlink_run (es : List EntityId) (hw : ∀ e ∈ es, ∀ c, s.parent e = some c → σ.writes c) :
    Run σ s (es.foldl unlink s) := by
  induction es generalizing s with
  | nil => exact .refl
  | cons e es ih =>
      have hrest : Run σ (s.unlink e) (es.foldl unlink (s.unlink e)) := ih fun x hx c hc => by
        rw [parent_unlink] at hc
        split at hc
        · cases hc
        · exact hw x (by simp [hx]) c hc
      cases hp : s.parent e with
      | none => rw [unlink_of_parent_none hp] at hrest; simpa [unlink_of_parent_none hp] using hrest
      | some c => exact .head (.detach (hw e (by simp) c hp) hp) hrest

theorem isLent_iff : s.isLent n e = true ↔ e.index < n ∧ ∃ c, s.parent e = some c ∧ n ≤ c.owner.index := by
  cases h : s.parent e <;> simp [isLent, owner, h]

/-- Giving an entity back takes members only from its collections and from those of later entities. -/
theorem release_run (hw : ∀ c, e.index ≤ c.owner.index → σ.writes c) : Run σ s (s.release e) := by
  refine foldl_unlink_run _ fun x hx c hc => hw c ?_
  obtain ⟨p, hp, hle⟩ := (isLent_iff.mp (List.mem_filter.mp hx).2).2
  rw [hc, Option.some.injEq] at hp
  exact hp ▸ hle

theorem releaseSince_run (hw : ∀ c, n ≤ c.owner.index → σ.writes c) : Run σ s (s.releaseSince n) := by
  refine foldl_unlink_run _ fun x hx c hc => hw c ?_
  obtain ⟨p, hp, hle⟩ := (isLent_iff.mp (List.mem_filter.mp hx).2).2
  rw [hc, Option.some.injEq] at hp
  exact hp ▸ hle

/-! ## Copying -/

/-- The scope of copying from the `n`-th entity on. -/
abbrev Scope.copying (n : Nat) : Scope := .since n fun _ => False

/-- The scope of copying into collections that are there: it works on those, and on entities still to be
made. -/
def Scope.filling (s : Store) (w : CollectionId → Prop) : Scope where
  writes d := w d ∧ s.IsCollection d ∨ s.entities.size ≤ d.owner.index
  moves e := s.entities.size ≤ e.index
  outer _ := False

theorem Scope.copying_within_filling {w : CollectionId → Prop} :
    (Scope.copying s.entities.size).Within (.filling s w) :=
  ⟨fun _ => .inr, fun _ he => he.elim Nat.le_of_lt False.elim, fun _ => id⟩

theorem Scope.filling_within {w : CollectionId → Prop} (hn : n < s.entities.size)
    (hw : ∀ d, w d → n ≤ d.owner.index) : (Scope.filling s w).Within (.copying n) where
  writes d hd := hd.elim (fun hd => hw d hd.1) (Nat.le_trans (Nat.le_of_lt hn))
  moves _ he := .inl (Nat.lt_of_lt_of_le hn he)
  outer _ := id

/-- A collection that is filled later is one that is there, or belongs to an entity still to be made. -/
theorem Scope.filling_later {w w' : CollectionId → Prop} (hs : s.Linked) (h : Run σ s t) (hw : ∀ d, w' d → w d) :
    (Scope.filling t w').Within (.filling s w) where
  writes d hd := by
    by_cases hh : s.Has d.owner
    · refine hd.imp (fun hd => ⟨hw d hd.1, (h.emptied hs hh).symm.trans hd.2⟩) (Nat.le_trans h.size_le)
    · exact .inr (Nat.not_lt.mp hh)
  moves _ := Nat.le_trans h.size_le
  outer _ := id

theorem entity_copyAlone : (s.copyAlone e).1.entity ⟨s.entities.size⟩ =
    ⟨s.model e, (s.entity e).slots.map copySlot, none⟩ := by
  rw [copyAlone_eq, entity_push, if_pos rfl]

theorem copySlot_fits {slot : Slot} {m : ModelId} (h : slot.Fits s m) : (copySlot slot).Fits s m := by
  cases slot with
  | members => exact fun _ he => absurd he List.not_mem_nil
  | scalar => exact h
  | binding => exact h

theorem copySlot_valued {slot : Slot} {field? : Option FieldSchema} (h : slot.Valued field?) :
    (copySlot slot).Valued field? := by
  cases slot with
  | members => trivial
  | scalar => exact h
  | binding => exact h

theorem copyAlone_run (hs : s.Linked) (he : s.Has e) : Run σ s (s.copyAlone e).1 := by
  have hslot : ∀ i, ((s.entity e).slots.map copySlot).getD i (.scalar none) = copySlot (s.slot e i) := fun i => by
    simp only [slot, List.getD_eq_getElem?_getD, List.getElem?_map]
    cases (s.entity e).slots[i]? <;> rfl
  refine .single (.push rfl (fun slot hslot => ?_) ⟨?_, fun i => ?_, fun i => ?_⟩)
  · obtain ⟨old, _, rfl⟩ := List.mem_map.mp hslot
    exact slotMembers_copySlot old
  · show _ = (s.schemaOf e).fields.map _
    rw [List.map_map, ← hs.typed.kinds e he]
    exact List.map_congr_left fun old _ => emptied_copySlot old
  · rw [hslot]
    exact copySlot_fits (hs.typed.fits e i)
  · rw [hslot]
    exact copySlot_valued (hs.typed.valued e i)

mutual

/-- Copying a tree writes new entities only, of which its copy is the first. -/
theorem copyTree_run (hs₀ : s₀.Linked) : (t : Subtree) → {s : Store} → Run .all s₀ s → t.Drawn s₀ → s₀.Has t.root →
    Run (.copying s.entities.size) s (s.copyTree t).1 ∧ (s.copyTree t).2 = ⟨s.entities.size⟩ ∧
      s.entities.size < (s.copyTree t).1.entities.size ∧
      (s.copyTree t).1.model ⟨s.entities.size⟩ = s₀.model t.root
  | .node e branches, s, h₀, hd, he => by
      have hs : s.Linked := h₀.linked hs₀
      have hrun : Run (.copying s.entities.size) s (s.copyAlone e).1 := copyAlone_run hs (h₀.has he)
      have hsize : s.entities.size < (s.copyAlone e).1.entities.size := by simp [copyAlone_eq]
      have hmodel : (s.copyAlone e).1.model ⟨s.entities.size⟩ = s₀.model e := by
        rw [Store.model, entity_copyAlone]
        exact h₀.model he
      have hbranches : Run (.copying s.entities.size) (s.copyAlone e).1
          (copyBranches (s.copyAlone e).1 ⟨s.entities.size⟩ 0 branches) :=
        (copyBranches_run hs₀ branches (h₀.trans (hrun.mono Scope.within_all)) hd he hsize hmodel
          (hrun.parent_none (Scope.not_moves_since (Nat.le_refl _) id) (parent_of_not_has (by simp [Has])))).mono
          (Scope.filling_within hsize fun d hd => Nat.le_of_eq (congrArg EntityId.index hd.1).symm)
      exact ⟨hrun.trans hbranches, rfl, Nat.lt_of_lt_of_le hsize hbranches.size_le,
        (hbranches.model hsize).trans hmodel⟩

/-- Copying the branches of an entity into a copy that belongs to nothing. -/
theorem copyBranches_run (hs₀ : s₀.Linked) : (bs : List (List Subtree)) → {s : Store} → {e copy : EntityId} →
    {field : Nat} → Run .all s₀ s → DrawnBranches s₀ e field bs → s₀.Has e → s.Has copy →
    s.model copy = s₀.model e → s.parent copy = none →
    Run (.filling s fun d => d.owner = copy ∧ field ≤ d.field) s (copyBranches s copy field bs)
  | [], _, _, _, _, _, _, _, _, _, _ => .refl
  | ts :: bs, s, e, copy, field, h₀, hd, he, hh, hm, hp => by
      have hs : s.Linked := h₀.linked hs₀
      have hmembers : Run (.filling s (· = ⟨copy, field⟩)) s (copyMembers s ⟨copy, field⟩ ts) :=
        copyMembers_run hs₀ ts (d := ⟨e, field⟩) h₀ hd.1 rfl he hh hm hp
      have hrun : Run (.filling s fun d => d.owner = copy ∧ field ≤ d.field) s (copyMembers s ⟨copy, field⟩ ts) :=
        hmembers.mono (Scope.filling_later (σ := .all) hs .refl (by rintro _ rfl; exact ⟨rfl, Nat.le_refl _⟩))
      have hrest := copyBranches_run hs₀ bs (h₀.trans (hrun.mono Scope.within_all)) hd.2 he (hrun.has hh)
        ((hrun.model hh).trans hm) (hrun.parent_none (Nat.not_le.mpr hh) hp)
      exact hrun.trans (hrest.mono (Scope.filling_later hs hrun fun d hd => ⟨hd.1, Nat.le_of_succ_le hd.2⟩))

/-- Copying members into a collection whose owner belongs to nothing. -/
theorem copyMembers_run (hs₀ : s₀.Linked) : (ts : List Subtree) → {s : Store} → {c d : CollectionId} →
    Run .all s₀ s → DrawnMembers s₀ d ts → c.field = d.field → s₀.Has d.owner → s.Has c.owner →
    s.model c.owner = s₀.model d.owner → s.parent c.owner = none →
    Run (.filling s (· = c)) s (copyMembers s c ts)
  | [], _, _, _, _, _, _, _, _, _, _ => .refl
  | t :: ts, s, c, d, h₀, hd, hfield, hdo, hco, hm, hp => by
      have hs : s.Linked := h₀.linked hs₀
      have hroot : s₀.Admits (s₀.target d.owner d.field) t.root := hs₀.typed.admits_of_mem hd.1
      have hc : s.IsCollection c := by
        have he := emptied_congr (i := d.field) hs₀.typed hs.typed h₀.registries hdo hco hm
        rw [IsCollection, hfield, he]
        exact IsCollection.of_mem hd.1
      obtain ⟨htree, hcopy, hsize, hmodel⟩ := copyTree_run hs₀ t h₀ hd.2.1 hroot.1
      have hn : ¬ s.Has (s.copyTree t).2 := by simp [hcopy, Has]
      have hhas : (s.copyTree t).1.Has (s.copyTree t).2 := by rw [hcopy]; exact hsize
      have hpm : (s.copyTree t).1.parent (s.copyTree t).2 = none :=
        htree.parent_none (Scope.not_moves_since (by simp [hcopy]) id) (parent_of_not_has hn)
      have hpc : (s.copyTree t).1.parent c.owner = none :=
        htree.parent_none (Scope.not_moves_since (Nat.le_of_lt hco) id) hp
      have h₁ : Run .all s₀ (s.copyTree t).1 := h₀.trans (htree.mono Scope.within_all)
      -- the copy is of the model of what it copies, and so are the owners of the two collections
      have hfits : (s.copyTree t).1.Admits ((s.copyTree t).1.target c.owner c.field) (s.copyTree t).2 := by
        rw [target_congr h₁.registries ((htree.model hco).trans hm), hfield]
        exact hroot.congr h₁.registries hhas (hcopy ▸ hmodel)
      have hplace := (place_run (σ := .filling s (· = c)) (e := (s.copyTree t).2) (htree.linked hs)
        (.inl ⟨rfl, hc⟩) (Nat.le_of_eq (by rw [hcopy])) (htree.isCollection hs hc) hhas (by simp [hpm])
        (Or.inr ⟨hpc, fun he => hn (he ▸ hco)⟩) hfits).1
      have hrun := (htree.mono Scope.copying_within_filling).trans hplace
      exact hrun.trans ((copyMembers_run hs₀ ts (h₀.trans (hrun.mono Scope.within_all)) hd.2.2 hfield hdo
        (hrun.has hco) ((hrun.model hco).trans hm)
        (hrun.parent_none (Nat.not_le.mpr hco) hp)).mono (Scope.filling_later hs hrun fun _ => id))

end

/-- Duplicating an entity writes new entities only, of which the copy is the first, and it belongs to
nothing. -/
theorem duplicate_run (hs : s.Linked) (he : s.Has e) :
    Run (.copying s.entities.size) s (s.duplicate e).1 ∧ (s.duplicate e).2 = ⟨s.entities.size⟩ ∧
      (s.duplicate e).1.Has (s.duplicate e).2 ∧ (s.duplicate e).1.parent (s.duplicate e).2 = none ∧
      (s.duplicate e).1.model (s.duplicate e).2 = s.model e := by
  obtain ⟨hrun, hcopy, hsize, hmodel⟩ := copyTree_run hs (s.subtree e) .refl (subtree_drawn s e) (by rwa [root_subtree])
  rw [root_subtree] at hmodel
  refine ⟨hrun, hcopy, by rw [Has, duplicate, hcopy]; exact hsize, ?_, by rw [duplicate, hcopy]; exact hmodel⟩
  exact hrun.parent_none (Scope.not_moves_since (by simp [duplicate, hcopy]) id)
    (parent_of_not_has (by simp [duplicate, hcopy, Has]))

/-- What was there before an entity was duplicated stays as it was. -/
theorem entity_duplicate (hs : s.Linked) (he : s.Has e) {x : EntityId} (hx : s.Has x) :
    (s.duplicate e).1.entity x = s.entity x :=
  (duplicate_run hs he).1.entity hs hx (Scope.not_moves_since (Nat.le_of_lt hx) id) fun _ hc => Nat.not_le.mpr hc

end Store

end MonitorExport
