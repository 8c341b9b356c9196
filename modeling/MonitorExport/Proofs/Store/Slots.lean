import MonitorExport.Store.Edit

/-!
# Slots and links after a change

What the single changes of the store (a slot replaced, a link replaced, an entity made, a member linked,
unlinked, all members dropped) leave in every slot and in every link. Later modules unfold none of them.
-/

namespace MonitorExport

/-- A slot without what it holds: only its kind is left. -/
def Slot.emptied : Slot → Slot
  | .scalar _ => .scalar none
  | .members _ => .members []
  | .binding _ => .binding .unbound

namespace Slot

variable {slot : Slot}

theorem exists_scalar (h : slot.emptied = .scalar none) : ∃ stored, slot = .scalar stored := by
  cases slot with
  | scalar stored => exact ⟨stored, rfl⟩
  | members _ => cases h
  | binding _ => cases h

theorem exists_members (h : slot.emptied = .members []) : ∃ es, slot = .members es := by
  cases slot with
  | members es => exact ⟨es, rfl⟩
  | scalar _ => cases h
  | binding _ => cases h

theorem exists_binding (h : slot.emptied = .binding .unbound) : ∃ b, slot = .binding b := by
  cases slot with
  | binding b => exact ⟨b, rfl⟩
  | scalar _ => cases h
  | members _ => cases h

end Slot

@[simp] theorem Store.emptied_copySlot (slot : Slot) : (Store.copySlot slot).emptied = slot.emptied := by
  cases slot <;> rfl

@[simp] theorem Store.slotMembers_copySlot (slot : Slot) : Store.slotMembers (Store.copySlot slot) = [] := by
  cases slot <;> rfl

namespace Store

variable {s : Store} {c d : CollectionId} {e x : EntityId} {i j : Nat} {slot : Slot}

/-- Whether an entity was made. -/
def Has (s : Store) (e : EntityId) : Prop := e.index < s.entities.size

instance (s : Store) (e : EntityId) : Decidable (s.Has e) := inferInstanceAs (Decidable (_ < _))

/-- Whether a name is that of a collection. -/
def IsCollection (s : Store) (c : CollectionId) : Prop := (s.slot c.owner c.field).emptied = .members []

instance (s : Store) (c : CollectionId) : Decidable (s.IsCollection c) :=
  match h : s.slot c.owner c.field with
  | .members _ => isTrue (congrArg Slot.emptied h)
  | .scalar _ => isFalse fun hc => by cases hc.symm.trans (congrArg Slot.emptied h)
  | .binding _ => isFalse fun hc => by cases hc.symm.trans (congrArg Slot.emptied h)

/-- The store with one more entity. -/
def push (s : Store) (entity : Entity) : Store := { s with entities := s.entities.push entity }

/-! ## Reading -/

theorem entity_of_not_has (h : ¬ s.Has e) : s.entity e = default := by
  simp only [Has, Nat.not_lt] at h
  simp [entity, Array.getD_eq_getD_getElem?, Array.getElem?_eq_none h]

theorem entity_congr {t : Store} (hm : t.model e = s.model e) (hslots : (t.entity e).slots = (s.entity e).slots)
    (hp : t.parent e = s.parent e) : t.entity e = s.entity e := by
  unfold model at hm
  unfold parent at hp
  cases ht : t.entity e
  cases hs : s.entity e
  simp_all

theorem members_eq (s : Store) (c : CollectionId) : s.members c = slotMembers (s.slot c.owner c.field) := by
  unfold members
  cases s.slot c.owner c.field <;> rfl

theorem slot_of_not_has (h : ¬ s.Has e) : s.slot e i = .scalar none := by
  simp only [slot, entity_of_not_has h]
  rfl

theorem has_of_slot_ne (h : s.slot e i ≠ .scalar none) : s.Has e :=
  Decidable.byContradiction fun hn => h (slot_of_not_has hn)

theorem lt_of_slot_ne (h : s.slot e i ≠ .scalar none) : i < (s.entity e).slots.length := by
  refine Decidable.byContradiction fun hn => h ?_
  simp only [slot, List.getD_eq_getElem?_getD, List.getElem?_eq_none (Nat.le_of_not_lt hn), Option.getD_none]

theorem IsCollection.slot_ne (h : s.IsCollection c) : s.slot c.owner c.field ≠ .scalar none := by
  intro hs
  rw [IsCollection, hs] at h
  cases h

theorem IsCollection.has (h : s.IsCollection c) : s.Has c.owner := has_of_slot_ne h.slot_ne

theorem IsCollection.of_mem (h : e ∈ s.members c) : s.IsCollection c := by
  rw [members_eq] at h
  unfold IsCollection
  cases hs : s.slot c.owner c.field <;> simp_all [slotMembers, Slot.emptied]

theorem parent_of_not_has (h : ¬ s.Has e) : s.parent e = none := by
  simp only [parent, entity_of_not_has h]
  rfl

theorem has_of_parent (h : s.parent e = some c) : s.Has e :=
  Decidable.byContradiction fun hn => by simp [parent_of_not_has hn] at h

theorem owner_eq_some : s.owner e = some x ↔ ∃ c, s.parent e = some c ∧ c.owner = x := by
  simp [owner]

theorem owner_eq_none : s.owner e = none ↔ s.parent e = none := by
  simp [owner]

theorem owner_of_parent (h : s.parent e = some c) : s.owner e = some c.owner := by
  simp [owner, h]

/-! ## A slot replaced -/

theorem entity_modify (s : Store) (e x : EntityId) (f : Entity → Entity) :
    (s.modify e f).entity x = if x = e ∧ s.Has e then f (s.entity e) else s.entity x := by
  simp only [entity, modify, Has, Array.getD_eq_getD_getElem?, Array.getElem?_modify]
  by_cases hx : x = e
  · subst hx
    by_cases hh : x.index < s.entities.size <;> simp [hh]
  · have : e.index ≠ x.index := fun h => hx (by cases x; cases e; simp_all)
    simp [hx, this]

@[simp] theorem size_modify (s : Store) (e : EntityId) (f : Entity → Entity) :
    (s.modify e f).entities.size = s.entities.size := by
  simp [modify]

@[simp] theorem size_setSlot : (s.setSlot e i slot).entities.size = s.entities.size := size_modify ..

@[simp] theorem registries_setSlot : (s.setSlot e i slot).registries = s.registries := rfl

@[simp] theorem model_setSlot : (s.setSlot e i slot).model x = s.model x := by
  simp only [model, setSlot, entity_modify]
  split <;> simp_all

@[simp] theorem parent_setSlot : (s.setSlot e i slot).parent x = s.parent x := by
  simp only [parent, setSlot, entity_modify]
  split <;> simp_all

/-- Only the slot named is replaced, and only if the entity has it. -/
theorem slot_setSlot : (s.setSlot e i slot).slot x j =
    if x = e ∧ j = i ∧ i < (s.entity e).slots.length then slot else s.slot x j := by
  simp only [Store.slot, setSlot, entity_modify, List.getD_eq_getElem?_getD]
  by_cases hx : x = e
  · subst hx
    by_cases hh : s.Has x
    · simp only [hh, and_self, ↓reduceIte, List.getElem?_set, true_and]
      grind
    · simp [hh, entity_of_not_has hh, show (default : Entity).slots = [] from rfl]
  · simp [hx]

theorem slots_setSlot_of_ne (h : x ≠ e) : ((s.setSlot e i slot).entity x).slots = (s.entity x).slots := by
  rw [setSlot, entity_modify, if_neg fun hx => h hx.1]

theorem members_setSlot (h : s.IsCollection c) (es : List EntityId) :
    (s.setSlot c.owner c.field (.members es)).members d = if d = c then es else s.members d := by
  have hlt := lt_of_slot_ne h.slot_ne
  simp only [members_eq, slot_setSlot, hlt, and_true]
  by_cases hd : d = c
  · simp [hd, slotMembers]
  · have : ¬ (d.owner = c.owner ∧ d.field = c.field) := fun h => hd (by cases d; cases c; simp_all)
    simp [hd, this]

/-! ## A link replaced -/

@[simp] theorem size_setParent (p : Option CollectionId) :
    (s.setParent e p).entities.size = s.entities.size := size_modify ..

@[simp] theorem registries_setParent (p : Option CollectionId) :
    (s.setParent e p).registries = s.registries := rfl

@[simp] theorem model_setParent (p : Option CollectionId) : (s.setParent e p).model x = s.model x := by
  simp only [model, setParent, entity_modify]
  split <;> simp_all

@[simp] theorem slots_setParent (p : Option CollectionId) :
    ((s.setParent e p).entity x).slots = (s.entity x).slots := by
  simp only [setParent, entity_modify]
  split <;> simp_all

@[simp] theorem slot_setParent (p : Option CollectionId) : (s.setParent e p).slot x j = s.slot x j := by
  simp only [slot, slots_setParent]

@[simp] theorem members_setParent (p : Option CollectionId) : (s.setParent e p).members c = s.members c := by
  simp only [members_eq, slot_setParent]

@[simp] theorem has_setParent (p : Option CollectionId) : (s.setParent e p).Has x ↔ s.Has x := by
  simp [Has]

@[simp] theorem has_setSlot : (s.setSlot e i slot).Has x ↔ s.Has x := by simp [Has]

@[simp] theorem isCollection_setParent (p : Option CollectionId) :
    (s.setParent e p).IsCollection c ↔ s.IsCollection c := by
  simp [IsCollection]

theorem parent_setParent (h : s.Has e) (p : Option CollectionId) :
    (s.setParent e p).parent x = if x = e then p else s.parent x := by
  simp only [parent, setParent, entity_modify, h, and_true]
  split <;> rfl

theorem parent_setParent_none : (s.setParent e none).parent x = if x = e then none else s.parent x := by
  by_cases h : s.Has e
  · exact parent_setParent h none
  · simp only [parent, setParent, entity_modify, h, and_false, ↓reduceIte]
    split
    · next hx => rw [hx]; exact parent_of_not_has h
    · rfl

/-! ## An entity made -/

@[simp] theorem size_push (entity : Entity) : (s.push entity).entities.size = s.entities.size + 1 := by
  simp [push]

theorem entity_push (entity : Entity) :
    (s.push entity).entity x = if x.index = s.entities.size then entity else s.entity x := by
  simp only [Store.entity, push, Array.getD_eq_getD_getElem?, Array.getElem?_push]
  split <;> rfl

theorem entity_push_of_has (h : s.Has x) (entity : Entity) : (s.push entity).entity x = s.entity x := by
  rw [entity_push, if_neg (Nat.ne_of_lt h)]

theorem slot_push_of_has (h : s.Has x) (entity : Entity) : (s.push entity).slot x j = s.slot x j := by
  rw [slot, entity_push_of_has h]
  rfl

theorem has_push (h : s.Has x) (entity : Entity) : (s.push entity).Has x := by
  simp only [Has, size_push] at *
  omega

theorem parent_push {entity : Entity} (h : entity.parent = none) : (s.push entity).parent x = s.parent x := by
  simp only [parent, entity_push]
  split
  · next hx => exact h.trans (parent_of_not_has (by simp [Has, hx])).symm
  · rfl

theorem members_push {entity : Entity} (h : ∀ slot ∈ entity.slots, slotMembers slot = []) :
    (s.push entity).members c = s.members c := by
  simp only [members_eq, slot, entity_push]
  split
  · next hc =>
    have hs : s.slot c.owner c.field = .scalar none := slot_of_not_has (by simp [Has, hc])
    rw [← slot, hs, List.getD_eq_getElem?_getD]
    cases hg : entity.slots[c.field]? with
    | none => rfl
    | some slot => exact h slot (List.mem_of_getElem? hg)
  · rfl

theorem create_eq (s : Store) (m : ModelId) :
    s.create m = (s.push ⟨m, (s.schema m).fields.map freshSlot, none⟩, ⟨s.entities.size⟩) := rfl

theorem copyAlone_eq (s : Store) (e : EntityId) :
    s.copyAlone e = (s.push ⟨s.model e, (s.entity e).slots.map copySlot, none⟩, ⟨s.entities.size⟩) := rfl

theorem slotMembers_freshSlot (field : FieldSchema) : slotMembers (freshSlot field) = [] := by
  unfold freshSlot
  split <;> rfl

/-! ## A member linked or unlinked -/

@[simp] theorem size_link : (s.link c e).entities.size = s.entities.size := by simp [link]

theorem slot_link_of_ne (h : (⟨x, j⟩ : CollectionId) ≠ c) : (s.link c e).slot x j = s.slot x j := by
  rw [link, slot_setSlot, slot_setParent, if_neg]
  rintro ⟨rfl, rfl, _⟩
  exact h rfl

theorem members_link (h : s.IsCollection c) :
    (s.link c e).members d = if d = c then s.members c ++ [e] else s.members d := by
  rw [link, members_setSlot (by simpa using h), members_setParent]

theorem parent_link (h : s.Has e) : (s.link c e).parent x = if x = e then some c else s.parent x := by
  rw [link, parent_setSlot, parent_setParent h]

theorem unlink_of_parent (h : s.parent e = some c) :
    s.unlink e = (s.setSlot c.owner c.field (.members ((s.members c).erase e))).setParent e none := by
  simp only [unlink, h]

theorem unlink_of_parent_none (h : s.parent e = none) : s.unlink e = s := by
  simp only [unlink, h]

theorem slot_unlink_of_ne (hp : s.parent e = some c) (h : (⟨x, j⟩ : CollectionId) ≠ c) :
    (s.unlink e).slot x j = s.slot x j := by
  rw [unlink_of_parent hp, slot_setParent, slot_setSlot, if_neg]
  rintro ⟨rfl, rfl, _⟩
  exact h rfl

theorem members_unlink (hp : s.parent e = some c) (h : s.IsCollection c) :
    (s.unlink e).members d = if d = c then (s.members c).erase e else s.members d := by
  rw [unlink_of_parent hp, members_setParent, members_setSlot h]

theorem parent_unlink : (s.unlink e).parent x = if x = e then none else s.parent x := by
  cases hp : s.parent e with
  | none =>
      rw [unlink_of_parent_none hp]
      split
      · next hx => rw [hx, hp]
      · rfl
  | some c => rw [unlink_of_parent hp, parent_setParent_none, parent_setSlot]

theorem size_unlink : (s.unlink e).entities.size = s.entities.size := by
  unfold unlink
  split <;> simp

theorem registries_unlink : (s.unlink e).registries = s.registries := by
  unfold unlink
  split <;> rfl

/-! ## All members dropped -/

/-- Links of several entities taken away leave every slot and every other link as it was. -/
theorem foldl_setParent (es : List EntityId) (s : Store) :
    let t := es.foldl (fun s m => s.setParent m none) s
    t.entities.size = s.entities.size ∧ t.registries = s.registries ∧ (∀ x, t.model x = s.model x) ∧
      (∀ x, (t.entity x).slots = (s.entity x).slots) ∧ ∀ x, t.parent x = if x ∈ es then none else s.parent x := by
  induction es generalizing s with
  | nil => simp
  | cons m es ih =>
      obtain ⟨hz, hr, hm, hs, hp⟩ := ih (s.setParent m none)
      refine ⟨by simpa using hz, by simpa using hr, by simpa using hm, by simpa using hs, fun x => ?_⟩
      simp only [List.foldl_cons, List.mem_cons] at hp ⊢
      rw [hp, parent_setParent_none]
      by_cases hx : x = m <;> simp [hx]

@[simp] theorem size_clear : (s.clear c).entities.size = s.entities.size := by
  simpa [clear] using (foldl_setParent (s.members c) (s.setSlot c.owner c.field (.members []))).1

@[simp] theorem registries_clear : (s.clear c).registries = s.registries := by
  simpa [clear] using (foldl_setParent (s.members c) (s.setSlot c.owner c.field (.members []))).2.1

@[simp] theorem model_clear : (s.clear c).model x = s.model x := by
  simpa [clear] using (foldl_setParent (s.members c) (s.setSlot c.owner c.field (.members []))).2.2.1 x

theorem slots_clear :
    ((s.clear c).entity x).slots = ((s.setSlot c.owner c.field (.members [])).entity x).slots :=
  (foldl_setParent (s.members c) _).2.2.2.1 x

theorem slot_clear : (s.clear c).slot x j = (s.setSlot c.owner c.field (.members [])).slot x j := by
  rw [slot, slot, slots_clear]

theorem slot_clear_of_ne (h : (⟨x, j⟩ : CollectionId) ≠ c) : (s.clear c).slot x j = s.slot x j := by
  rw [slot_clear, slot_setSlot, if_neg]
  rintro ⟨rfl, rfl, _⟩
  exact h rfl

theorem members_clear (h : s.IsCollection c) :
    (s.clear c).members d = if d = c then [] else s.members d := by
  rw [← members_setSlot h, members_eq, members_eq, slot_clear]

theorem parent_clear : (s.clear c).parent x = if x ∈ s.members c then none else s.parent x := by
  simpa [clear] using (foldl_setParent (s.members c) (s.setSlot c.owner c.field (.members []))).2.2.2.2 x

end Store

end MonitorExport
