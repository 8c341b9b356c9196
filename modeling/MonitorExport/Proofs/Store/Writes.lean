import Mathlib.Logic.Relation
import MonitorExport.Proofs.Store.Typing

/-!
# Writes

All that an operation does to the store is a run of single writes, of five kinds. A scope says which
slots a run may write, which entities it may give an owner, and which collections are the ones worked on.
What every run keeps is derived here from what one write keeps: links and members agree, slots stay those
of the models, and what is out of scope stays.
-/

namespace MonitorExport.Store

variable {s t u : Store} {c d : CollectionId} {e x : EntityId} {j : Nat}

/-- Links and members agree, no entity is twice in one collection, and entities have the slots of their
models. -/
structure Linked (s : Store) : Prop where
  mem_iff : ∀ {e c}, e ∈ s.members c ↔ s.parent e = some c
  nodup : ∀ c, (s.members c).Nodup
  typed : s.Typed

namespace Linked

theorem isCollection (hs : s.Linked) (h : s.parent e = some c) : s.IsCollection c :=
  .of_mem (hs.mem_iff.mpr h)

theorem has_owner (hs : s.Linked) (h : s.owner e = some x) : s.Has x := by
  obtain ⟨c, hc, rfl⟩ := owner_eq_some.mp h
  exact (hs.isCollection hc).has

theorem ofRegistries (rs : List Registry) : (Store.ofRegistries rs).Linked := by
  have hn : ∀ e, ¬ (Store.ofRegistries rs).Has e := fun e => by simp [Has, Store.ofRegistries]
  have hm : ∀ c, (Store.ofRegistries rs).members c = [] := fun c => by
    rw [members_eq, slot_of_not_has (hn _)]
    rfl
  exact ⟨by simp [hm, parent_of_not_has (hn _)], by simp [hm], .ofRegistries rs⟩

theorem push (hs : s.Linked) {entity : Entity} (hp : entity.parent = none)
    (hm : ∀ slot ∈ entity.slots, slotMembers slot = []) (hf : entity.Fits s) : (s.push entity).Linked where
  mem_iff {x d} := by rw [members_push hm, parent_push hp, hs.mem_iff]
  nodup d := by
    rw [members_push hm]
    exact hs.nodup d
  typed := hs.typed.push hf

theorem setSlot (hs : s.Linked) {slot : Slot} (he : slot.emptied = (s.slot c.owner c.field).emptied)
    (hm : slotMembers slot = s.members c) (hf : slot.Fits s (s.target c.owner c.field))
    (hv : slot.Valued (s.field? c.owner c.field)) : (s.setSlot c.owner c.field slot).Linked := by
  have hmembers : ∀ d, (s.setSlot c.owner c.field slot).members d = s.members d := fun d => by
    rw [members_eq, slot_setSlot]
    split
    · next hd => rw [hm]; cases d; cases c; simp_all
    · rw [members_eq]
  exact ⟨by simp [hmembers, hs.mem_iff], fun d => by rw [hmembers]; exact hs.nodup d, hs.typed.setSlot he hf hv⟩

theorem link (hs : s.Linked) (hc : s.IsCollection c) (hh : s.Has e) (hp : s.parent e = none)
    (hf : s.Admits (s.target c.owner c.field) e) : (s.link c e).Linked where
  mem_iff {x d} := by
    rw [members_link hc, parent_link hh]
    by_cases hx : x = e
    · subst hx
      by_cases hd : d = c
      · simp [hd]
      · simp [hd, Ne.symm hd, hs.mem_iff, hp]
    · by_cases hd : d = c <;> simp [hx, hd, hs.mem_iff]
  nodup d := by
    have hn : e ∉ s.members c := fun hm => by simp [hs.mem_iff.mp hm] at hp
    rw [members_link hc]
    split
    · exact List.nodup_append.mpr ⟨hs.nodup c, by simp, fun x hx y hy he => hn (by simp_all)⟩
    · exact hs.nodup d
  typed := by
    refine (hs.typed.setParent _).setMembers ((isCollection_setParent _).mpr hc) fun x hx => ?_
    rw [target_setParent]
    refine Extends.setParent.admits ?_
    rcases List.mem_append.mp hx with hx | hx
    · exact hs.typed.admits_of_mem hx
    · exact List.mem_singleton.mp hx ▸ hf

theorem unlink (hs : s.Linked) (hp : s.parent e = some c) : (s.unlink e).Linked where
  mem_iff {x d} := by
    rw [members_unlink hp (hs.isCollection hp), parent_unlink]
    by_cases hx : x = e
    · subst hx
      by_cases hd : d = c
      · simp [hd, (hs.nodup c).mem_erase_iff]
      · simp [hd, Ne.symm hd, hs.mem_iff, hp]
    · by_cases hd : d = c <;> simp [hx, hd, (hs.nodup c).mem_erase_iff, hs.mem_iff]
  nodup d := by
    rw [members_unlink hp (hs.isCollection hp)]
    split
    · exact (hs.nodup c).erase e
    · exact hs.nodup d
  typed := by
    rw [unlink_of_parent hp]
    exact (hs.typed.setMembers (hs.isCollection hp) fun x hx =>
      hs.typed.admits_of_mem (List.mem_of_mem_erase hx)).setParent none

theorem clear (hs : s.Linked) (hc : s.IsCollection c) : (s.clear c).Linked where
  mem_iff {x d} := by
    rw [members_clear hc, parent_clear]
    by_cases hd : d = c
    · by_cases hx : x ∈ s.members c
      · simp [hd, hx]
      · simp [hd, hx, ← hs.mem_iff]
    · by_cases hx : x ∈ s.members c
      · simp [hd, hx, Ne.symm hd, hs.mem_iff, hs.mem_iff.mp hx]
      · simp [hd, hx, hs.mem_iff]
  nodup d := by
    rw [members_clear hc]
    split
    · exact List.nodup_nil
    · exact hs.nodup d
  typed := by
    have hempty : (s.setSlot c.owner c.field (.members [])).Typed :=
      hs.typed.setMembers hc fun x hx => absurd hx List.not_mem_nil
    exact List.foldlRecOn _ _ hempty fun t ht m _ => ht.setParent none

end Linked

/-- What a run of writes may do. -/
structure Scope where
  /-- The slots that may be written. -/
  writes : CollectionId → Prop
  /-- The entities that may become members. -/
  moves : EntityId → Prop
  /-- The collections that take members whoever owns them. -/
  outer : CollectionId → Prop

/-- The scope that allows everything. -/
def Scope.all : Scope := ⟨fun _ => True, fun _ => True, fun _ => True⟩

/-- A scope is within another if it allows no more. -/
structure Scope.Within (σ τ : Scope) : Prop where
  writes : ∀ c, σ.writes c → τ.writes c
  moves : ∀ e, σ.moves e → τ.moves e
  outer : ∀ c, σ.outer c → τ.outer c

/-- The scope of building and copying: it works on entities from `n` on, and the first of them becomes no
member. Older entities become members only if they are given. -/
def Scope.since (n : Nat) (given : EntityId → Prop) : Scope where
  writes c := n ≤ c.owner.index
  moves e := n < e.index ∨ given e
  outer _ := False

theorem Scope.within_all {σ : Scope} : σ.Within .all := ⟨fun _ _ => trivial, fun _ _ => trivial, fun _ _ => trivial⟩

theorem Scope.since_within {m n : Nat} {given : EntityId → Prop} (h : m ≤ n) :
    (Scope.since n given).Within (Scope.since m given) where
  writes _ hc := Nat.le_trans h hc
  moves _ he := he.imp_left (Nat.lt_of_le_of_lt h)
  outer _ hc := hc

theorem Scope.not_moves_since {n : Nat} {given : EntityId → Prop} {e : EntityId} (h : e.index ≤ n)
    (hg : ¬ given e) : ¬ (Scope.since n given).moves e :=
  not_or.mpr ⟨Nat.not_lt.mpr h, hg⟩

/-- One write. A slot out of the outer ones is changed only while its entity belongs to nothing; it takes a member only
if the entity is not that member. No member is equal to an earlier one as it is added. -/
inductive Write (σ : Scope) (s : Store) : Store → Prop
  | push {entity : Entity} (hp : entity.parent = none) (hm : ∀ slot ∈ entity.slots, slotMembers slot = [])
      (hf : entity.Fits s) : Write σ s (s.push entity)
  | assign {c : CollectionId} {slot : Slot} (hw : σ.writes c)
      (he : slot.emptied = (s.slot c.owner c.field).emptied) (hm : slotMembers slot = s.members c)
      (hf : slot.Fits s (s.target c.owner c.field)) (hv : slot.Valued (s.field? c.owner c.field))
      (ho : σ.outer c ∨ s.parent c.owner = none) : Write σ s (s.setSlot c.owner c.field slot)
  | attach {c : CollectionId} {e : EntityId} (hw : σ.writes c) (hv : σ.moves e) (hc : s.IsCollection c)
      (hh : s.Has e) (hp : s.parent e = none) (ho : σ.outer c ∨ s.parent c.owner = none ∧ c.owner ≠ e)
      (hf : s.Admits (s.target c.owner c.field) e) (hd : ∀ m ∈ s.members c, s.sameIdentity m e = false) :
      Write σ s (s.link c e)
  | detach {c : CollectionId} {e : EntityId} (hw : σ.writes c) (hp : s.parent e = some c) :
      Write σ s (s.unlink e)
  | clear {c : CollectionId} (hw : σ.writes c) (hc : s.IsCollection c) : Write σ s (s.clear c)

/-- Any number of writes. -/
abbrev Run (σ : Scope) (s t : Store) : Prop := Relation.ReflTransGen (Write σ) s t

variable {σ τ : Scope}

/-! ## One write -/

namespace Write

theorem mono (hσ : σ.Within τ) (h : Write σ s t) : Write τ s t := by
  cases h with
  | push hp hm hf => exact .push hp hm hf
  | assign hw he hm hf hx ho => exact .assign (hσ.writes _ hw) he hm hf hx (ho.imp_left (hσ.outer _))
  | attach hw hv hc hh hp ho hf hd =>
      exact .attach (hσ.writes _ hw) (hσ.moves _ hv) hc hh hp (ho.imp_left (hσ.outer _)) hf hd
  | detach hw hp => exact .detach (hσ.writes _ hw) hp
  | clear hw hc => exact .clear (hσ.writes _ hw) hc

theorem registries (h : Write σ s t) : t.registries = s.registries := by
  cases h with
  | push => rfl
  | assign => rfl
  | attach => rfl
  | detach => exact registries_unlink
  | clear => exact registries_clear

theorem size_le (h : Write σ s t) : s.entities.size ≤ t.entities.size := by
  cases h with
  | push => simp
  | assign => simp
  | attach => simp
  | detach => simp [size_unlink]
  | clear => simp

theorem model (h : Write σ s t) (hx : s.Has x) : t.model x = s.model x := by
  cases h with
  | push => rw [Store.model, entity_push_of_has hx]; rfl
  | assign => exact model_setSlot
  | attach => rw [link, model_setSlot, model_setParent]
  | detach _ hp => rw [unlink_of_parent hp, model_setParent, model_setSlot]
  | clear => exact model_clear

/-- A slot that is replaced keeps its kind if the new one is of that kind. -/
theorem emptied_setSlot {slot : Slot} (h : slot.emptied = (s.slot c.owner c.field).emptied) :
    ((s.setSlot c.owner c.field slot).slot x j).emptied = (s.slot x j).emptied := by
  rw [slot_setSlot]
  split
  · next hc => rw [h, hc.1, hc.2.1]
  · rfl

theorem emptied (hs : s.Linked) (h : Write σ s t) (hx : s.Has x) :
    (t.slot x j).emptied = (s.slot x j).emptied := by
  cases h with
  | push => rw [slot_push_of_has hx]
  | assign _ he _ => exact emptied_setSlot he
  | attach _ _ hc =>
      rw [link, emptied_setSlot, slot_setParent]
      rw [slot_setParent]
      exact hc.symm
  | detach _ hp =>
      rw [unlink_of_parent hp, slot_setParent, emptied_setSlot]
      exact (hs.isCollection hp).symm
  | clear _ hc =>
      rw [slot_clear, emptied_setSlot]
      exact hc.symm

theorem slot (h : Write σ s t) (hx : s.Has x) (hw : ¬ σ.writes ⟨x, j⟩) : t.slot x j = s.slot x j := by
  have hne : ∀ {c}, σ.writes c → (⟨x, j⟩ : CollectionId) ≠ c := fun hc he => hw (he ▸ hc)
  cases h with
  | push => exact slot_push_of_has hx _
  | assign hc =>
      rw [slot_setSlot, if_neg]
      rintro ⟨rfl, rfl, _⟩
      exact hne hc rfl
  | attach hc => exact slot_link_of_ne (hne hc)
  | detach hc hp => exact slot_unlink_of_ne hp (hne hc)
  | clear hc => exact slot_clear_of_ne (hne hc)

/-- An entity of which no slot is in scope keeps all that it holds. -/
theorem slots (h : Write σ s t) (hx : s.Has x) (hw : ∀ j, ¬ σ.writes ⟨x, j⟩) :
    (t.entity x).slots = (s.entity x).slots := by
  have hne : ∀ {c}, σ.writes c → x ≠ c.owner := fun {c} hc he => hw c.field (he ▸ hc)
  cases h with
  | push => rw [entity_push_of_has hx]
  | assign hc => exact slots_setSlot_of_ne (hne hc)
  | attach hc => rw [link, slots_setSlot_of_ne (hne hc), slots_setParent]
  | detach hc hp => rw [unlink_of_parent hp, slots_setParent, slots_setSlot_of_ne (hne hc)]
  | clear hc => rw [slots_clear, slots_setSlot_of_ne (hne hc)]

theorem members (hs : s.Linked) (h : Write σ s t) (hw : ¬ σ.writes d) : t.members d = s.members d := by
  have hne : ∀ {c}, σ.writes c → d ≠ c := fun hc he => hw (he ▸ hc)
  cases h with
  | push _ hm => exact members_push hm
  | @assign c _ hc =>
      have hd : ¬ (d.owner = c.owner ∧ d.field = c.field) := fun h => hne hc (by cases d; cases c; simp_all)
      rw [members_eq, members_eq, slot_setSlot, if_neg]
      exact fun h => hd ⟨h.1, h.2.1⟩
  | attach hc _ hi => rw [members_link hi, if_neg (hne hc)]
  | detach hc hp => rw [members_unlink hp (hs.isCollection hp), if_neg (hne hc)]
  | clear hc hi => rw [members_clear hi, if_neg (hne hc)]

/-- An entity that may not become a member has no new link after a write. -/
theorem parent_fewer (h : Write σ s t) (hv : ¬ σ.moves x) (hp : t.parent x = some c) : s.parent x = some c := by
  cases h with
  | push hn => rwa [parent_push hn] at hp
  | assign => rwa [parent_setSlot] at hp
  | attach _ hm _ hh =>
      rw [parent_link hh] at hp
      split at hp
      · next hx => exact absurd (hx ▸ hm) hv
      · exact hp
  | detach =>
      rw [parent_unlink] at hp
      split at hp
      · cases hp
      · exact hp
  | clear =>
      rw [parent_clear] at hp
      split at hp
      · cases hp
      · exact hp

theorem parent_some (hs : s.Linked) (h : Write σ s t) (hw : ¬ σ.writes c) (hp : s.parent x = some c) :
    t.parent x = some c := by
  cases h with
  | push hn => rw [parent_push hn, hp]
  | assign => rw [parent_setSlot, hp]
  | attach _ _ _ hh hn =>
      rw [parent_link hh, if_neg, hp]
      rintro rfl
      rw [hn] at hp
      cases hp
  | detach hd hq =>
      rw [parent_unlink, if_neg, hp]
      rintro rfl
      rw [hp, Option.some.injEq] at hq
      exact hw (hq ▸ hd)
  | clear hd =>
      rw [parent_clear, if_neg, hp]
      intro hm
      rw [hs.mem_iff.mp hm, Option.some.injEq] at hp
      exact hw (hp ▸ hd)

/-- Links and members agree after a write if they did before. -/
theorem linked (hs : s.Linked) (h : Write σ s t) : t.Linked := by
  cases h with
  | push hp hm hf => exact hs.push hp hm hf
  | assign _ he hm hf hv => exact hs.setSlot he hm hf hv
  | attach _ _ hc hh hp _ hf => exact hs.link hc hh hp hf
  | detach _ hp => exact hs.unlink hp
  | clear _ hc => exact hs.clear hc

end Write

/-! ## Any number of writes -/

namespace Run

theorem trans (h : Run σ s t) (h' : Run σ t u) : Run σ s u := Relation.ReflTransGen.trans h h'

theorem mono (hσ : σ.Within τ) (h : Run σ s t) : Run τ s t :=
  h.lift id fun _ _ hw => Write.mono hσ hw

theorem linked (hs : s.Linked) (h : Run σ s t) : t.Linked := by
  induction h with
  | refl => exact hs
  | tail _ hw ih => exact hw.linked ih

theorem registries (h : Run σ s t) : t.registries = s.registries := by
  induction h with
  | refl => rfl
  | tail _ hw ih => exact hw.registries.trans ih

theorem size_le (h : Run σ s t) : s.entities.size ≤ t.entities.size := by
  induction h with
  | refl => exact Nat.le_refl _
  | tail _ hw ih => exact Nat.le_trans ih hw.size_le

theorem has (h : Run σ s t) (hx : s.Has x) : t.Has x := Nat.lt_of_lt_of_le hx h.size_le

theorem model (h : Run σ s t) (hx : s.Has x) : t.model x = s.model x := by
  induction h with
  | refl => rfl
  | tail h hw ih => exact (hw.model (has h hx)).trans ih

theorem later (h : Run σ s t) : s.Extends t := ⟨h.registries, h.has, h.model⟩

theorem emptied (hs : s.Linked) (h : Run σ s t) (hx : s.Has x) :
    (t.slot x j).emptied = (s.slot x j).emptied := by
  induction h with
  | refl => rfl
  | tail h hw ih => exact (hw.emptied (linked hs h) (has h hx)).trans ih

theorem isCollection (hs : s.Linked) (h : Run σ s t) (hc : s.IsCollection c) : t.IsCollection c :=
  (h.emptied hs hc.has).trans hc

/-- A slot out of scope keeps what it holds. -/
theorem slot (h : Run σ s t) (hx : s.Has x) (hw : ¬ σ.writes ⟨x, j⟩) : t.slot x j = s.slot x j := by
  induction h with
  | refl => rfl
  | tail h hd ih => exact (hd.slot (has h hx) hw).trans ih

theorem slots (h : Run σ s t) (hx : s.Has x) (hw : ∀ j, ¬ σ.writes ⟨x, j⟩) :
    (t.entity x).slots = (s.entity x).slots := by
  induction h with
  | refl => rfl
  | tail h hd ih => exact (hd.slots (has h hx) hw).trans ih

/-- A collection out of scope keeps its members. -/
theorem members (hs : s.Linked) (h : Run σ s t) (hw : ¬ σ.writes c) : t.members c = s.members c := by
  induction h with
  | refl => rfl
  | tail h hd ih => exact (hd.members (linked hs h) hw).trans ih

/-- An entity that may not become a member belongs to nothing, or to what it belonged to before. -/
theorem parent_fewer (h : Run σ s t) (hv : ¬ σ.moves x) (hp : t.parent x = some c) : s.parent x = some c := by
  induction h with
  | refl => exact hp
  | tail _ hw ih => exact ih (hw.parent_fewer hv hp)

/-- An entity that belongs to nothing and may not become a member belongs to nothing. -/
theorem parent_none (h : Run σ s t) (hv : ¬ σ.moves x) (hp : s.parent x = none) : t.parent x = none :=
  Option.eq_none_iff_forall_ne_some.mpr fun _ hc => nomatch hp.symm.trans (h.parent_fewer hv hc)

/-- A member of a collection out of scope stays its member. -/
theorem parent_some (hs : s.Linked) (h : Run σ s t) (hw : ¬ σ.writes c) (hp : s.parent x = some c) :
    t.parent x = some c := by
  induction h with
  | refl => exact hp
  | tail h hd ih => exact hd.parent_some (linked hs h) hw ih

/-- An entity that may not become a member stays as it was if only slots of new entities may be written. -/
theorem entity (hs : s.Linked) (h : Run σ s t) (hx : s.Has x) (hv : ¬ σ.moves x)
    (hw : ∀ c, s.Has c.owner → ¬ σ.writes c) : t.entity x = s.entity x := by
  refine entity_congr (h.model hx) (h.slots hx fun j => hw ⟨x, j⟩ hx) ?_
  cases hp : s.parent x with
  | none => exact h.parent_none hv hp
  | some c => exact h.parent_some hs (hw c (hs.isCollection hp).has) hp

end Run

end MonitorExport.Store
