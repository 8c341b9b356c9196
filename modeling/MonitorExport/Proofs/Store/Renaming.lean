import MonitorExport.Proofs.Store.Duplicating

/-!
# Stores under other names

Names of entities are of no account: a store can have another one as a part, with its entities under other names. What
is done in the other store can be done in the part too. It gives the same under these names, and leaves what is not in
the part as it was.
-/

namespace MonitorExport

variable {w : Store} {f : EntityId → EntityId}

/-! ## Other names -/

def CollectionId.rename (f : EntityId → EntityId) (c : CollectionId) : CollectionId := ⟨f c.owner, c.field⟩

def Binding.rename (f : EntityId → EntityId) : Binding → Binding
  | .entity e => .entity (f e)
  | bound => bound

def Slot.rename (f : EntityId → EntityId) : Slot → Slot
  | .members es => .members (es.map f)
  | .binding bound => .binding (bound.rename f)
  | .scalar stored => .scalar stored

def Entity.rename (f : EntityId → EntityId) (x : Entity) : Entity :=
  ⟨x.model, x.slots.map (Slot.rename f), x.parent.map (CollectionId.rename f)⟩

def Store.Candidate.rename (f : EntityId → EntityId) (x : Store.Candidate) : Store.Candidate := ⟨f x.entity, x.isNew⟩

def Change.rename (f : EntityId → EntityId) : Change → Change
  | .scalar index stored => .scalar index stored
  | .members index xs => .members index (xs.map (Store.Candidate.rename f))
  | .bind index bound => .bind index (bound.rename f)

theorem CollectionId.rename_injective (hf : Function.Injective f) : Function.Injective (CollectionId.rename f) := by
  intro c d h
  obtain ⟨howner, hfield⟩ := CollectionId.mk.inj h
  cases c
  cases d
  exact congrArg₂ CollectionId.mk (hf howner) hfield

namespace Slot

theorem shape_rename (slot : Slot) : (slot.rename f).shape = slot.shape := by
  cases slot with
  | members es => simp only [rename, shape, List.map_const', List.length_map]
  | scalar => rfl
  | binding => rfl

end Slot

/-- A tree under other names has its entities under these names. -/
theorem Subtree.Matched.preorder_eq_map {T T' : Subtree} (h : T.Matched (fun x y => y = f x) T') :
    T'.preorder = T.preorder.map f := by
  induction T using Subtree.induct generalizing T' with
  | h e bs ih =>
      cases h with
      | @node _ _ _ bs' he hb =>
          have hflat : List.Forall₂ (fun T T' => T'.preorder = T.preorder.map f) bs.flatten bs'.flatten :=
            List.rel_flatten (forall₂_imp_mem hb fun ts hts _ _ hm => forall₂_imp_mem hm fun T hT _ _ h => ih ts hts T hT h)
          rw [preorder_node, preorder_node, List.map_cons, he, List.map_flatMap]
          refine congrArg (List.cons (f e)) ?_
          generalize bs.flatten = ts at hflat
          generalize bs'.flatten = ts' at hflat
          induction hflat with
          | nil => rfl
          | cons hT _ ih => rw [List.flatMap_cons, List.flatMap_cons, hT, ih]

namespace Store

theorem slotMembers_rename (slot : Slot) : slotMembers (slot.rename f) = (slotMembers slot).map f := by
  cases slot <;> rfl

theorem copySlot_rename (slot : Slot) : copySlot (slot.rename f) = (copySlot slot).rename f := by
  cases slot <;> rfl

theorem freshSlot_rename (field : FieldSchema) : (freshSlot field).rename f = freshSlot field := by
  unfold freshSlot
  split <;> rfl

/-- Whether a store is a part of another one, under other names. Entities that are made in both get such names too. What
is not of the part is as in the store `w`. -/
structure Embeds (w : Store) (f : EntityId → EntityId) (s t : Store) : Prop where
  part : s.registries = w.registries
  whole : t.registries = w.registries
  injective : Function.Injective f
  has : ∀ x, s.Has x → t.Has (f x)
  entity : ∀ x, t.entity (f x) = (s.entity x).rename f
  outside : ∀ y, (∀ x, f x ≠ y) → t.entity y = w.entity y
  next : ∀ k, f ⟨s.entities.size + k⟩ = ⟨t.entities.size + k⟩

namespace Embeds

variable {s t : Store} {c : CollectionId} {e x y : EntityId} {i : Nat} (h : Embeds w f s t)

include h

/-! ## Reading -/

theorem registries : t.registries = s.registries := h.whole.trans h.part.symm

theorem size : f ⟨s.entities.size⟩ = ⟨t.entities.size⟩ := h.next 0

theorem has_iff : t.Has (f x) ↔ s.Has x := by
  refine ⟨fun hx => Decidable.byContradiction fun hn => ?_, h.has x⟩
  obtain ⟨k, hk⟩ := Nat.exists_eq_add_of_le (Nat.not_lt.mp hn)
  have hname : f x = ⟨t.entities.size + k⟩ := by
    rw [← h.next k, ← hk]
  rw [hname] at hx
  exact absurd hx (Nat.not_lt.mpr (Nat.le_add_right _ k))

theorem size_le : s.entities.size ≤ t.entities.size := by
  have hnodup : ((List.range s.entities.size).map fun i => f ⟨i⟩).Nodup :=
    List.nodup_range.map fun i j hij => EntityId.mk.inj (h.injective hij)
  have hle := length_le_size (s := t) hnodup fun y hy => by
    obtain ⟨i, hi, rfl⟩ := List.mem_map.mp hy
    exact h.has _ (List.mem_range.mp hi)
  simpa using hle

theorem model (x : EntityId) : t.model (f x) = s.model x := by
  rw [Store.model, h.entity]
  rfl

theorem slots (x : EntityId) : (t.entity (f x)).slots = (s.entity x).slots.map (Slot.rename f) :=
  congrArg Entity.slots (h.entity x)

theorem parent (x : EntityId) : t.parent (f x) = (s.parent x).map (CollectionId.rename f) :=
  congrArg Entity.parent (h.entity x)

theorem owner (x : EntityId) : t.owner (f x) = (s.owner x).map f := by
  rw [Store.owner, h.parent, Store.owner, Option.map_map, Option.map_map]
  rfl

theorem slot (x : EntityId) (i : Nat) : t.slot (f x) i = (s.slot x i).rename f := by
  rw [Store.slot, h.slots, Store.slot, List.getD_eq_getElem?_getD, List.getD_eq_getElem?_getD, List.getElem?_map]
  cases (s.entity x).slots[i]? <;> rfl

theorem members (c : CollectionId) : t.members (c.rename f) = (s.members c).map f := by
  rw [members_eq, members_eq, CollectionId.rename, h.slot, slotMembers_rename]

theorem resembles (x : EntityId) : Resembles s t x (f x) :=
  ⟨h.model x, fun i => by rw [h.slot, Slot.shape_rename]⟩

theorem schema : t.schema = s.schema := schema_congr h.registries

theorem schemaOf (x : EntityId) : t.schemaOf (f x) = s.schemaOf x := (h.resembles x).schemaOf h.registries

theorem isA : t.isA = s.isA := isA_congr h.registries

theorem field? (x : EntityId) (i : Nat) : t.field? (f x) i = s.field? x i := (h.resembles x).field? h.registries i

theorem target (x : EntityId) (i : Nat) : t.target (f x) i = s.target x i := by
  rw [Store.target, h.model, h.field?]
  rfl

theorem sameIdentity (x y : EntityId) : t.sameIdentity (f x) (f y) = s.sameIdentity x y := by
  have hagree : t.agree (f x) (f y) = s.agree x y :=
    funext fun field => (h.resembles x).agree h.registries (h.resembles y) field
  unfold Store.sameIdentity
  rw [h.schemaOf, h.schemaOf, h.model, h.model, h.isA, hagree, decide_eq_decide.mpr h.injective.eq_iff]

/-- The first member that is equal to an entity. -/
theorem find? (c : CollectionId) (e : EntityId) : (t.members (c.rename f)).find? (t.sameIdentity · (f e)) =
    ((s.members c).find? (s.sameIdentity · e)).map f := by
  rw [h.members, List.find?_map]
  refine congrArg (Option.map f) (congrArg (List.find? · _) (funext fun m => ?_))
  exact h.sameIdentity m e

/-! ## Writing -/

theorem modify {change change' : Entity → Entity} (hc : ∀ x : Entity, change' (x.rename f) = (change x).rename f)
    (e : EntityId) : Embeds w f (s.modify e change) (t.modify (f e) change') where
  part := h.part
  whole := h.whole
  injective := h.injective
  has x hx := by
    rw [Has, size_modify] at hx ⊢
    exact h.has x hx
  entity x := by
    simp only [entity_modify, h.entity, h.injective.eq_iff, h.has_iff]
    split
    · exact hc _
    · rfl
  outside y hy := by
    rw [entity_modify, if_neg fun h => hy e h.1.symm]
    exact h.outside y hy
  next k := by rw [size_modify, size_modify, h.next]

theorem setSlot (e : EntityId) (i : Nat) (slot : Slot) : Embeds w f (s.setSlot e i slot) (t.setSlot (f e) i (slot.rename f)) :=
  h.modify (fun x => by simp only [Entity.rename, List.map_set]) e

theorem setParent (e : EntityId) (p : Option CollectionId) :
    Embeds w f (s.setParent e p) (t.setParent (f e) (p.map (CollectionId.rename f))) :=
  h.modify (by intro x; rfl) e

theorem push (x : Entity) : Embeds w f (s.push x) (t.push (x.rename f)) where
  part := h.part
  whole := h.whole
  injective := h.injective
  has y hy := by
    rw [Has, size_push] at hy ⊢
    rcases Nat.lt_succ_iff_lt_or_eq.mp hy with hy | hy
    · exact Nat.lt_succ_of_lt (h.has y hy)
    · have hname : f y = ⟨t.entities.size⟩ := by rw [← h.size, ← hy]
      rw [hname]
      exact Nat.lt_succ_self _
  entity y := by
    have hsize : (f y).index = t.entities.size ↔ y.index = s.entities.size := by
      have hiff : f y = ⟨t.entities.size⟩ ↔ y = ⟨s.entities.size⟩ := by rw [← h.size, h.injective.eq_iff]
      rwa [← index_injective.eq_iff, ← index_injective.eq_iff] at hiff
    simp only [entity_push, hsize, h.entity]
    split <;> rfl
  outside y hy := by
    rw [entity_push, if_neg fun hlast => hy _ (h.size.trans (congrArg EntityId.mk hlast.symm))]
    exact h.outside y hy
  next k := by rw [size_push, size_push, Nat.add_assoc, Nat.add_assoc, h.next]

theorem link (c : CollectionId) (e : EntityId) : Embeds w f (s.link c e) (t.link (c.rename f) (f e)) := by
  rw [Store.link, Store.link, h.members]
  have hslot := (h.setParent e (some c)).setSlot c.owner c.field (.members (s.members c ++ [e]))
  rwa [Slot.rename, List.map_append] at hslot

theorem unlink (e : EntityId) : Embeds w f (s.unlink e) (t.unlink (f e)) := by
  cases hp : s.parent e with
  | none =>
      have hp' : t.parent (f e) = none := by rw [h.parent, hp]; rfl
      rwa [unlink_of_parent_none hp, unlink_of_parent_none hp']
  | some c =>
      have hp' : t.parent (f e) = some (c.rename f) := by rw [h.parent, hp]; rfl
      rw [unlink_of_parent hp, unlink_of_parent hp', h.members, ← List.map_erase h.injective]
      exact (h.setSlot c.owner c.field (.members ((s.members c).erase e))).setParent e none

theorem place (c : CollectionId) (e : EntityId) :
    Embeds w f (s.place c e).1 (t.place (c.rename f) (f e)).1 ∧ (t.place (c.rename f) (f e)).2 = f (s.place c e).2 := by
  unfold Store.place
  rw [h.find?]
  cases (s.members c).find? (s.sameIdentity · e) with
  | some m => exact ⟨h, rfl⟩
  | none => exact ⟨h.link c e, rfl⟩

theorem clear (c : CollectionId) : Embeds w f (s.clear c) (t.clear (c.rename f)) := by
  unfold Store.clear
  rw [h.members, List.foldl_map]
  have hslot : Embeds w f (s.setSlot c.owner c.field (.members []))
      (t.setSlot (c.rename f).owner (c.rename f).field (.members [])) := h.setSlot c.owner c.field (.members [])
  clear h
  generalize s.setSlot c.owner c.field (.members []) = s' at hslot
  generalize t.setSlot (c.rename f).owner (c.rename f).field (.members []) = t' at hslot
  induction s.members c generalizing s' t' with
  | nil => exact hslot
  | cons m ms ih => exact ih _ _ (hslot.setParent m none)

end Embeds

/-! ## Trees -/

open Subtree

variable {s t : Store} {e : EntityId}

/-- More steps than there are entities left find no more of a tree. -/
theorem subtreeWithin_of_le {fuel n : Nat} {above : List EntityId} (habove : above.Nodup) (hhas : ∀ x ∈ above, s.Has x)
    (he : e ∉ above) (hf : s.entities.size ≤ fuel + above.length) (hn : fuel ≤ n) :
    s.subtreeWithin n above e = s.subtreeWithin fuel above e := by
  induction fuel generalizing n above e with
  | zero =>
      have hno : ¬ s.Has e := fun hh => by
        have hle := length_le_size (List.nodup_cons.mpr ⟨he, habove⟩) (List.forall_mem_cons.mpr ⟨hh, hhas⟩)
        rw [List.length_cons] at hle
        omega
      cases n with
      | zero => rfl
      | succ n => rw [subtreeWithin, subtreeWithin, slots_of_not_has hno]; rfl
  | succ fuel ih =>
      obtain ⟨n, rfl⟩ : ∃ m, n = m + 1 := ⟨n - 1, by omega⟩
      rw [subtreeWithin, subtreeWithin]
      by_cases hh : s.Has e
      · refine congrArg (Subtree.node e) (List.map_congr_left fun slot _ => List.map_congr_left fun m hm => ?_)
        have hm' : m ∉ e :: above := of_decide_eq_true (List.mem_filter.mp hm).2
        exact ih (List.nodup_cons.mpr ⟨he, habove⟩) (List.forall_mem_cons.mpr ⟨hh, hhas⟩) hm'
          (by rw [List.length_cons]; omega) (by omega)
      · rw [slots_of_not_has hh]
        rfl

namespace Embeds

variable {c : CollectionId} {x y : EntityId} (h : Embeds w f s t)

include h

theorem subtreeWithin (fuel : Nat) (above : List EntityId) (e : EntityId) :
    (s.subtreeWithin fuel above e).Matched (fun x y => y = f x) (t.subtreeWithin fuel (above.map f) (f e)) := by
  induction fuel generalizing above e with
  | zero =>
      rw [Store.subtreeWithin, Store.subtreeWithin, h.slots, List.map_map]
      refine .node rfl (List.forall₂_map_left_iff.mpr (List.forall₂_map_right_iff.mpr ?_))
      exact List.forall₂_same.mpr fun _ _ => .nil
  | succ fuel ih =>
      rw [Store.subtreeWithin, Store.subtreeWithin, h.slots, List.map_map]
      refine .node rfl (List.forall₂_map_left_iff.mpr (List.forall₂_map_right_iff.mpr ?_))
      refine List.forall₂_same.mpr fun slot _ => ?_
      have hfilter : (slotMembers (slot.rename f)).filter (fun m => m ∉ f e :: above.map f) =
          ((slotMembers slot).filter fun m => m ∉ e :: above).map f := by
        rw [slotMembers_rename, List.filter_map]
        refine congrArg (List.map f) (List.filter_congr fun m _ => ?_)
        exact decide_eq_decide.mpr (not_congr (List.mem_map_of_injective (l := e :: above) h.injective))
      rw [Function.comp_apply, hfilter, List.map_map, List.forall₂_map_left_iff, List.forall₂_map_right_iff]
      exact List.forall₂_same.mpr fun m _ => ih (e :: above) m

/-- The tree of what an entity owns is the same in the larger store. -/
theorem subtree (e : EntityId) : (s.subtree e).Matched (fun x y => y = f x) (t.subtree (f e)) := by
  have hlarge : s.subtreeWithin t.entities.size [] e = s.subtree e :=
    subtreeWithin_of_le .nil (by simp) (by simp) (Nat.le_refl _) h.size_le
  rw [← hlarge]
  exact h.subtreeWithin _ [] e

/-! ## Copying -/

theorem copyAlone (e : EntityId) : Embeds w f (s.copyAlone e).1 (t.copyAlone (f e)).1 ∧
    (t.copyAlone (f e)).2 = f (s.copyAlone e).2 := by
  have hslots : (t.entity (f e)).slots.map copySlot = ((s.entity e).slots.map copySlot).map (Slot.rename f) := by
    rw [h.slots, List.map_map, List.map_map]
    exact List.map_congr_left fun slot _ => copySlot_rename slot
  rw [copyAlone_eq, copyAlone_eq, h.model, hslots]
  exact ⟨h.push _, h.size.symm⟩

end Embeds

mutual

theorem Embeds.copyTree : (T : Subtree) → {T' : Subtree} → T.Matched (fun x y => y = f x) T' → {s t : Store} →
    Embeds w f s t → Embeds w f (s.copyTree T).1 (t.copyTree T').1 ∧ (t.copyTree T').2 = f (s.copyTree T).2
  | .node e bs, .node e' bs', .node he hb, s, t, h => by
      obtain ⟨halone, hcopy⟩ := h.copyAlone e
      rw [Store.copyTree, Store.copyTree, he]
      dsimp only
      rw [hcopy]
      exact ⟨Embeds.copyBranches bs hb _ 0 halone, rfl⟩
termination_by structural T => T

theorem Embeds.copyBranches : (bs : List (List Subtree)) → {bs' : List (List Subtree)} →
    List.Forall₂ (List.Forall₂ (Matched fun x y => y = f x)) bs bs' → (copy : EntityId) → (field : Nat) →
    {s t : Store} → Embeds w f s t → Embeds w f (s.copyBranches copy field bs) (t.copyBranches (f copy) field bs')
  | [], _, .nil, _, _, _, _, h => h
  | ts :: bs, _, .cons hts hbs, copy, field, s, t, h => by
      rw [Store.copyBranches, Store.copyBranches]
      exact Embeds.copyBranches bs hbs copy (field + 1) (Embeds.copyMembers ts hts ⟨copy, field⟩ h)
termination_by structural bs => bs

theorem Embeds.copyMembers : (ts : List Subtree) → {ts' : List Subtree} →
    List.Forall₂ (Matched fun x y => y = f x) ts ts' → (c : CollectionId) → {s t : Store} → Embeds w f s t →
    Embeds w f (s.copyMembers c ts) (t.copyMembers (c.rename f) ts')
  | [], _, .nil, _, _, _, h => h
  | T :: ts, _, .cons hT hts, c, s, t, h => by
      obtain ⟨htree, hcopy⟩ := Embeds.copyTree T hT h
      rw [Store.copyMembers, Store.copyMembers]
      dsimp only
      rw [hcopy]
      exact Embeds.copyMembers ts hts c (htree.place c _).1
termination_by structural ts => ts

end

namespace Embeds

variable {c : CollectionId} {x y : EntityId} (h : Embeds w f s t)

include h

theorem duplicate (e : EntityId) : Embeds w f (s.duplicate e).1 (t.duplicate (f e)).1 ∧
    (t.duplicate (f e)).2 = f (s.duplicate e).2 :=
  Embeds.copyTree _ (h.subtree e) h

/-! ## Inserting -/

theorem insertGiven (c : CollectionId) (e : EntityId) : Embeds w f (s.insertGiven c e).1 (t.insertGiven (c.rename f) (f e)).1 ∧
    (t.insertGiven (c.rename f) (f e)).2 = f (s.insertGiven c e).2 := by
  unfold Store.insertGiven
  rw [h.parent]
  cases s.parent e with
  | none => exact h.place c e
  | some p =>
      obtain ⟨hcopied, hcopy⟩ := h.duplicate e
      simp only [Option.map_some, (CollectionId.rename_injective h.injective).eq_iff, hcopy]
      split
      · exact h.place c e
      · exact hcopied.place c _

theorem placeNew (c : CollectionId) {e : EntityId} (hr : Embeds w f (s.release e) (t.release (f e))) :
    Embeds w f (s.placeNew c e).1 (t.placeNew (c.rename f) (f e)).1 ∧
      (t.placeNew (c.rename f) (f e)).2 = f (s.placeNew c e).2 := by
  unfold Store.placeNew
  rw [h.find?]
  cases (s.members c).find? (s.sameIdentity · e) with
  | some m => exact ⟨hr, rfl⟩
  | none => exact ⟨h.link c e, rfl⟩

theorem insert (c : CollectionId) (x : Candidate)
    (hr : x.isNew = true → Embeds w f (s.release x.entity) (t.release (f x.entity))) :
    Embeds w f (s.insert c x).1 (t.insert (c.rename f) (x.rename f)).1 ∧
      (t.insert (c.rename f) (x.rename f)).2 = f (s.insert c x).2 := by
  unfold Store.insert
  change Embeds w f _ (if x.isNew then _ else _ : Store × EntityId).1 ∧ (if x.isNew then _ else _ : Store × EntityId).2 = _
  split
  · next hnew => exact h.placeNew c (hr hnew)
  · exact h.insertGiven c x.entity

/-! ## Names in the same order -/

variable (hf : ∀ x y, (f x).index < (f y).index ↔ x.index < y.index)

include hf

theorem isLent (start x : EntityId) : t.isLent (f start).index (f x) = s.isLent start.index x := by
  have howner : ((s.owner x).map f).map (fun o => decide ((f start).index ≤ o.index)) =
      (s.owner x).map fun o => decide (start.index ≤ o.index) := by
    rw [Option.map_map]
    refine Option.map_congr fun o _ => decide_eq_decide.mpr ?_
    rw [← Nat.not_lt, hf, Nat.not_lt]
  unfold Store.isLent
  rw [h.owner, howner, decide_eq_decide.mpr (hf x start)]

theorem release (e : EntityId) : Embeds w f (s.release e) (t.release (f e)) := by
  have hlent : (t.subtree (f e)).preorder.filter (t.isLent (f e).index) =
      ((s.subtree e).preorder.filter (s.isLent e.index)).map f := by
    rw [(h.subtree e).preorder_eq_map, List.filter_map]
    exact congrArg (List.map f) (List.filter_congr fun x _ => h.isLent hf e x)
  unfold Store.release
  rw [hlent, List.foldl_map]
  clear hlent
  induction (s.subtree e).preorder.filter (s.isLent e.index) generalizing s t with
  | nil => exact h
  | cons x xs ih => exact ih (h.unlink x)

theorem insertAll (c : CollectionId) (xs : List Candidate) :
    Embeds w f (s.insertAll c xs).1 (t.insertAll (c.rename f) (xs.map (Candidate.rename f))).1 ∧
      (t.insertAll (c.rename f) (xs.map (Candidate.rename f))).2 = (s.insertAll c xs).2.map f := by
  induction xs generalizing s t with
  | nil => exact ⟨h, rfl⟩
  | cons x xs ih =>
      obtain ⟨hinsert, hmember⟩ := h.insert c x fun _ => h.release hf x.entity
      obtain ⟨hall, hmembers⟩ := ih hinsert
      exact ⟨hall, congrArg₂ List.cons hmember hmembers⟩

theorem commit (e : EntityId) (replace : Bool) (change : Change) :
    Embeds w f (s.commit e replace change) (t.commit (f e) replace (change.rename f)) := by
  cases change with
  | scalar index stored => exact h.setSlot e index (.scalar stored)
  | bind index bound => exact h.setSlot e index (.binding bound)
  | members index xs =>
      cases replace with
      | false => exact (h.insertAll hf ⟨e, index⟩ xs).1
      | true => exact ((h.clear ⟨e, index⟩).insertAll hf ⟨e, index⟩ xs).1

theorem commitAll (e : EntityId) (changes : List Change) :
    Embeds w f (s.commitAll e changes) (t.commitAll (f e) (changes.map (Change.rename f))) := by
  unfold Store.commitAll
  rw [List.foldl_map]
  induction changes generalizing s t with
  | nil => exact h
  | cons change changes ih => exact ih (h.commit hf e false change)

end Embeds

end Store

end MonitorExport
