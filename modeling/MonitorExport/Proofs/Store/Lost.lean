import MonitorExport.Proofs.Store.Effects
import MonitorExport.Store.Handles

/-!
# What is lost

An entity is lost to a program that has no handle to it if all that keeps it is lost. What is given up is
what is lost, and it stays lost: no change of the store makes anything keep it but what kept it before.
-/

namespace MonitorExport.Store

variable {s t : Store} {h h' : Handles} {c : CollectionId} {e x y : EntityId} {i : Nat} {slot : Slot}
  {left : List EntityId}

/-- Whether an entity is lost: there is no handle to it, and all that keeps it is lost. Entities that keep one another
in a circle are not. -/
inductive Lost (s : Store) (h : Handles) : EntityId → Prop
  | intro {e : EntityId} (he : s.Has e) (hh : h e = false) (hk : ∀ x, s.keeps x e = true → Lost s h x) : Lost s h e

namespace Lost

theorem has (hl : s.Lost h e) : s.Has e := by
  cases hl with
  | intro he => exact he

theorem not_handle (hl : s.Lost h e) : h e = false := by
  cases hl with
  | intro _ hh => exact hh

theorem keeper (hl : s.Lost h e) (hk : s.keeps x e = true) : s.Lost h x := by
  cases hl with
  | intro _ _ hall => exact hall x hk

end Lost

theorem not_lost_of_handle (hh : h e = true) : ¬ s.Lost h e := fun hl => by
  rw [hl.not_handle] at hh
  cases hh

theorem not_lost_all : ¬ s.Lost .all e := not_lost_of_handle rfl

/-! ## Keeping -/

theorem keeps_iff : s.keeps x y = true ↔ ∃ i, y ∈ slotKeeps (s.slot x i) := by
  simp only [keeps, List.any_eq_true, List.contains_iff_mem, Store.slot, List.getD_eq_getElem?_getD]
  constructor
  · rintro ⟨slot, hslot, hy⟩
    obtain ⟨i, hi⟩ := List.getElem?_of_mem hslot
    exact ⟨i, by rwa [hi, Option.getD_some]⟩
  · rintro ⟨i, hy⟩
    cases hi : (s.entity x).slots[i]? with
    | none =>
        rw [hi] at hy
        cases hy
    | some slot => exact ⟨slot, List.mem_of_getElem? hi, by rwa [hi] at hy⟩

theorem slotKeeps_of_member (hy : y ∈ slotMembers slot) : y ∈ slotKeeps slot := by
  cases slot with
  | members es => exact hy
  | scalar _ => cases hy
  | binding _ => cases hy

theorem keeps_of_mem (hy : y ∈ s.members c) : s.keeps c.owner y = true :=
  keeps_iff.mpr ⟨c.field, slotKeeps_of_member (members_eq s c ▸ hy)⟩

theorem has_of_keeps (hk : s.keeps x y = true) : s.Has x := by
  obtain ⟨i, hi⟩ := keeps_iff.mp hk
  refine has_of_slot_ne (i := i) fun hslot => ?_
  rw [hslot] at hi
  cases hi

theorem keeps_congr (hx : (t.entity x).slots = (s.entity x).slots) : t.keeps x y = s.keeps x y := by
  rw [keeps, keeps, hx]

/-! ## What is given up -/

theorem mem_allEntities : e ∈ s.allEntities ↔ s.Has e := by
  simp only [allEntities, List.mem_map, List.mem_range, Has]
  exact ⟨fun ⟨_, hi, he⟩ => he ▸ hi, fun he => ⟨e.index, he, rfl⟩⟩

theorem mem_keepOnce : y ∈ s.keepOnce h left ↔ y ∈ left ∧ (h y = true ∨ ∃ x ∈ left, s.keeps x y = true) := by
  simp [keepOnce, List.mem_filter, List.any_eq_true]

theorem keepTimes_of_fixed (hl : s.keepOnce h left = left) (n : Nat) : s.keepTimes h n left = left := by
  induction n with
  | zero => rfl
  | succ n ih => rw [keepTimes, hl, ih]

/-- After as many rounds as there are entities nothing more is given up: a round that gives up nothing is the last. -/
theorem keepOnce_keepTimes {n : Nat} (hn : left.length ≤ n) :
    s.keepOnce h (s.keepTimes h n left) = s.keepTimes h n left := by
  induction n generalizing left with
  | zero =>
      rw [List.length_eq_zero_iff.mp (Nat.le_zero.mp hn)]
      rfl
  | succ n ih =>
      by_cases hl : s.keepOnce h left = left
      · rw [keepTimes_of_fixed hl, hl]
      · have hsub : (s.keepOnce h left).Sublist left := List.filter_sublist
        have hlt : (s.keepOnce h left).length < left.length :=
          Nat.lt_of_le_of_ne hsub.length_le fun he => hl (hsub.eq_of_length he)
        exact ih (by omega)

theorem lost_of_not_mem_keepTimes {n : Nat} (hl : ∀ y, s.Has y → y ∉ left → s.Lost h y) (hy : s.Has y)
    (hn : y ∉ s.keepTimes h n left) : s.Lost h y := by
  induction n generalizing left with
  | zero => exact hl y hy hn
  | succ n ih =>
      refine ih (fun z hz hout => ?_) hn
      by_cases hin : z ∈ left
      · obtain ⟨hh, hkeeper⟩ := not_or.mp fun hkept => hout (mem_keepOnce.mpr ⟨hin, hkept⟩)
        refine .intro hz (by simpa using hh) fun x hx => ?_
        exact hl x (has_of_keeps hx) fun hmem => hkeeper ⟨x, hmem, hx⟩
      · exact hl z hz hin

/-- What is lost is what is not kept. -/
theorem lost_iff : s.Lost h e ↔ s.Has e ∧ e ∉ s.kept h := by
  constructor
  · refine fun hl => ⟨hl.has, ?_⟩
    have hfixed : s.keepOnce h (s.kept h) = s.kept h := keepOnce_keepTimes (by simp [allEntities])
    induction hl with
    | intro _ hh _ ih =>
        intro hmem
        rw [← hfixed, mem_keepOnce] at hmem
        rcases hmem.2 with hhandle | ⟨x, hx, hk⟩
        · rw [hh] at hhandle
          cases hhandle
        · exact ih x hk hx
  · rintro ⟨he, hout⟩
    exact lost_of_not_mem_keepTimes (fun y hy hn => absurd (mem_allEntities.mpr hy) hn) he hout

instance (s : Store) (h : Handles) (e : EntityId) : Decidable (s.Lost h e) := decidable_of_iff _ lost_iff.symm

theorem mem_givenUp : e ∈ s.givenUp h ↔ s.Lost h e := by
  rw [givenUp, List.mem_filter, mem_allEntities, lost_iff]
  simp

theorem mem_orphans : x ∈ s.orphans h ↔ ∃ c, s.parent x = some c ∧ s.Lost h c.owner := by
  rw [orphans, List.mem_filter, mem_allEntities]
  cases hp : s.parent x with
  | none => simp [owner, hp]
  | some c => simp [owner_of_parent hp, mem_givenUp, has_of_parent hp]

/-- What belonged to an entity that is lost belongs to nothing, and all else belongs to what it belonged to. -/
theorem parent_sweep : (s.sweep h).parent x = some c ↔ s.parent x = some c ∧ ¬ s.Lost h c.owner := by
  rw [sweep, parent_foldl_unlink]
  split
  · next hx =>
    obtain ⟨d, hd, hl⟩ := mem_orphans.mp hx
    refine ⟨nofun, fun ⟨hc, hn⟩ => ?_⟩
    cases hd.symm.trans hc
    exact absurd hl hn
  · next hx => exact ⟨fun hc => ⟨hc, fun hl => hx (mem_orphans.mpr ⟨c, hc, hl⟩)⟩, And.left⟩

/-- The scope of giving up: the collections of what is lost. -/
def Scope.losing (s : Store) (h : Handles) : Scope where
  writes c := s.Lost h c.owner
  moves _ := False
  outer _ := False

theorem sweep_run (s : Store) (h : Handles) : Run (.losing s h) s (s.sweep h) :=
  foldl_unlink_run _ fun x hx c hc => by
    obtain ⟨d, hd, hl⟩ := mem_orphans.mp hx
    cases hd.symm.trans hc
    exact hl

theorem size_sweep : (s.sweep h).entities.size = s.entities.size :=
  List.foldlRecOn (motive := fun t => t.entities.size = s.entities.size) _ unlink rfl fun _ ht _ _ =>
    size_unlink.trans ht

theorem slots_sweep (hx : ¬ s.Lost h x) : ((s.sweep h).entity x).slots = (s.entity x).slots := by
  by_cases hhas : s.Has x
  · exact (sweep_run s h).slots hhas fun _ => hx
  · rw [entity_of_not_has hhas, entity_of_not_has (by rwa [Has, size_sweep])]

theorem members_sweep (hc : ¬ s.Lost h c.owner) : (s.sweep h).members c = s.members c := by
  rw [members_eq, members_eq, Store.slot, Store.slot, slots_sweep hc]

/-- Whether no entity belongs to one that is lost. -/
def Swept (s : Store) (h : Handles) : Prop := ∀ x c, s.parent x = some c → ¬ s.Lost h c.owner

/-- Where nothing belongs to what is lost, giving it up changes nothing. -/
theorem Swept.sweep_eq (hw : s.Swept h) : s.sweep h = s := by
  have hnone : s.orphans h = [] := List.eq_nil_iff_forall_not_mem.mpr fun x hx => by
    obtain ⟨c, hc, hl⟩ := mem_orphans.mp hx
    exact hw x c hc hl
  rw [sweep, hnone]
  rfl

theorem sweep_all (s : Store) : s.sweep .all = s := Swept.sweep_eq fun _ _ _ => not_lost_all

/-! ## What stays lost -/

/-- Whether a later store has nothing that keeps a lost entity but what kept it before. -/
structure Abandons (s : Store) (h : Handles) (t : Store) : Prop where
  size_le : s.entities.size ≤ t.entities.size
  keeps : ∀ x y, s.Lost h y → t.keeps x y = true → s.keeps x y = true

theorem Abandons.refl : Abandons s h s := ⟨Nat.le_refl _, fun _ _ _ => id⟩

/-- What is lost stays lost if no handle to it is had again. -/
theorem Lost.of_abandons (ha : Abandons s h t) (hh : ∀ x, h' x = true → ¬ s.Lost h x) (hl : s.Lost h y) :
    t.Lost h' y := by
  induction hl with
  | @intro y hy hn hk ih =>
      have hlost : s.Lost h y := .intro hy hn hk
      exact .intro (Nat.lt_of_lt_of_le hy ha.size_le) (Bool.eq_false_iff.mpr fun hy => hh y hy hlost)
        fun x hx => ih x (ha.keeps x y hlost hx)

namespace Abandons

variable {s₀ s₁ : Store}

/-- What is kept by what is not lost is not lost. -/
theorem not_lost (ha : Abandons s₀ h s) (hx : ¬ s₀.Lost h x) (hk : s.keeps x y = true) : ¬ s₀.Lost h y :=
  fun hl => hx (hl.keeper (ha.keeps x y hl hk))

/-- What was made later is not lost. -/
theorem not_lost_next (ha : Abandons s₀ h s) : ¬ s₀.Lost h ⟨s.entities.size⟩ :=
  fun hl => Nat.not_le.mpr hl.has ha.size_le

theorem of_keeps (ha : Abandons s₀ h s) (hsize : s.entities.size ≤ t.entities.size)
    (hk : ∀ x y, s₀.Lost h y → t.keeps x y = true → s.keeps x y = true) : Abandons s₀ h t :=
  ⟨Nat.le_trans ha.size_le hsize, fun x y hl hy => ha.keeps x y hl (hk x y hl hy)⟩

theorem setSlot (ha : Abandons s₀ h s) (hslot : ∀ y ∈ slotKeeps slot, s₀.Lost h y → s.keeps e y = true) :
    Abandons s₀ h (s.setSlot e i slot) := by
  refine ha.of_keeps (by simp) fun x y hl hk => ?_
  obtain ⟨j, hj⟩ := keeps_iff.mp hk
  rw [slot_setSlot] at hj
  split at hj
  · next hx => exact hx.1 ▸ hslot y hj hl
  · exact keeps_iff.mpr ⟨j, hj⟩

theorem setParent (ha : Abandons s₀ h s) (p : Option CollectionId) : Abandons s₀ h (s.setParent e p) :=
  ha.of_keeps (by simp) fun x y _ hk => by rwa [keeps_congr (slots_setParent p)] at hk

theorem push {entity : Entity} (ha : Abandons s₀ h s)
    (hnew : ∀ slot ∈ entity.slots, ∀ y ∈ slotKeeps slot, ¬ s₀.Lost h y) : Abandons s₀ h (s.push entity) := by
  refine ha.of_keeps (by simp) fun x y hl hk => ?_
  unfold Store.keeps at hk
  rw [entity_push] at hk
  split at hk
  · obtain ⟨slot, hslot, hy⟩ := List.any_eq_true.mp hk
    exact absurd hl (hnew slot hslot y (List.contains_iff_mem.mp hy))
  · exact hk

theorem link (ha : Abandons s₀ h s) (he : ¬ s₀.Lost h e) : Abandons s₀ h (s.link c e) := by
  refine (ha.setParent _).setSlot fun y hy hl => ?_
  rw [keeps_congr (slots_setParent _)]
  rcases List.mem_append.mp hy with hy | hy
  · exact keeps_of_mem hy
  · exact absurd hl (List.mem_singleton.mp hy ▸ he)

theorem unlink (ha : Abandons s₀ h s) : Abandons s₀ h (s.unlink e) := by
  cases hp : s.parent e with
  | none => rwa [unlink_of_parent_none hp]
  | some c =>
      have herase : Abandons s₀ h (s.setSlot c.owner c.field (.members ((s.members c).erase e))) :=
        ha.setSlot fun _ hy _ => keeps_of_mem (List.mem_of_mem_erase hy)
      rw [unlink_of_parent hp]
      exact herase.setParent none

theorem foldl_unlink (ha : Abandons s₀ h s) (es : List EntityId) : Abandons s₀ h (es.foldl Store.unlink s) :=
  List.foldlRecOn (motive := Abandons s₀ h) es Store.unlink ha fun _ ht _ _ => ht.unlink

theorem sweep (ha : Abandons s₀ h s) (h' : Handles) : Abandons s₀ h (s.sweep h') := ha.foldl_unlink _

theorem clear (ha : Abandons s₀ h s) : Abandons s₀ h (s.clear c) :=
  List.foldlRecOn (motive := Abandons s₀ h) _ _ (ha.setSlot nofun) fun _ ht _ _ => ht.setParent none

/-! ## Copying and attaching -/

theorem copyAlone (ha : Abandons s₀ h s) (he : ¬ s₀.Lost h e) : Abandons s₀ h (s.copyAlone e).1 := by
  refine ha.push fun slot hslot y hy => ?_
  obtain ⟨old, hold, rfl⟩ := List.mem_map.mp hslot
  refine ha.not_lost he (List.any_eq_true.mpr ⟨old, hold, List.contains_iff_mem.mpr ?_⟩)
  cases old with
  | members es => cases hy
  | scalar stored => cases hy
  | binding bound => exact hy

theorem place (ha : Abandons s₀ h s) (he : ¬ s₀.Lost h e) : Abandons s₀ h (s.place c e).1 := by
  unfold Store.place
  split
  · exact ha
  · exact ha.link he

open Subtree

theorem copyTree_snd (t : Subtree) : (s.copyTree t).2 = ⟨s.entities.size⟩ := by
  cases t
  rfl

mutual

theorem copyTree (h₁ : Abandons s₀ h s₁) : (t : Subtree) → {s : Store} → Abandons s₀ h s → t.Drawn s₁ →
    ¬ s₀.Lost h t.root → Abandons s₀ h (s.copyTree t).1
  | .node _ branches, _, ha, hd, he => copyBranches h₁ branches (ha.copyAlone he) hd he

theorem copyBranches (h₁ : Abandons s₀ h s₁) : (bs : List (List Subtree)) → {s : Store} → {e copy : EntityId} →
    {field : Nat} → Abandons s₀ h s → DrawnBranches s₁ e field bs → ¬ s₀.Lost h e →
    Abandons s₀ h (copyBranches s copy field bs)
  | [], _, _, _, _, ha, _, _ => ha
  | ts :: bs, _, _, _, _, ha, hd, he => copyBranches h₁ bs (copyMembers h₁ ts ha hd.1 he) hd.2 he

theorem copyMembers (h₁ : Abandons s₀ h s₁) : (ts : List Subtree) → {s : Store} → {c d : CollectionId} →
    Abandons s₀ h s → DrawnMembers s₁ d ts → ¬ s₀.Lost h d.owner → Abandons s₀ h (copyMembers s c ts)
  | [], _, _, _, ha, _, _ => ha
  | t :: ts, _, _, _, ha, hd, he =>
      have htree := copyTree h₁ t ha hd.2.1 (h₁.not_lost he (keeps_of_mem hd.1))
      copyMembers h₁ ts (htree.place (copyTree_snd t ▸ ha.not_lost_next)) hd.2.2 he

end

theorem insertGiven (ha : Abandons s₀ h s) (he : ¬ s₀.Lost h e) : Abandons s₀ h (s.insertGiven c e).1 := by
  unfold Store.insertGiven
  split
  · exact ha.place he
  · split
    · exact ha.place he
    · have hcopy : Abandons s₀ h (s.duplicate e).1 :=
        copyTree ha (s.subtree e) ha (subtree_drawn s e) (by rwa [root_subtree])
      have hid : (s.duplicate e).2 = ⟨s.entities.size⟩ := copyTree_snd _
      exact hcopy.place (hid ▸ ha.not_lost_next)

theorem insert {x : Candidate} (ha : Abandons s₀ h s) (hx : ¬ s₀.Lost h x.entity) : Abandons s₀ h (s.insert c x).1 := by
  unfold Store.insert placeNew
  split
  · split
    · exact ha.foldl_unlink _
    · exact ha.link hx
  · exact ha.insertGiven hx

theorem insertAll {xs : List Candidate} (ha : Abandons s₀ h s) (hx : ∀ x ∈ xs, ¬ s₀.Lost h x.entity) :
    Abandons s₀ h (s.insertAll c xs).1 := by
  induction xs generalizing s with
  | nil => exact ha
  | cons x xs ih => exact ih (ha.insert (hx x (by simp))) fun y hy => hx y (by simp [hy])

/-- Writing a change makes nothing keep what is lost, since the program has all in hand that the change brings. -/
theorem commit {replace : Bool} {change : Change} (ha : Abandons s₀ h s)
    (hchange : ∀ y ∈ change.inHand, ¬ s₀.Lost h y) : Abandons s₀ h (s.commit e replace change) := by
  cases change with
  | scalar index stored => exact ha.setSlot nofun
  | bind index bound =>
      refine ha.setSlot fun y hy hl => absurd hl (hchange y ?_)
      cases bound with
      | entity x => exact hy
      | unbound => cases hy
      | literal identity => cases hy
  | members index xs =>
      have hxs : ∀ x ∈ xs, ¬ s₀.Lost h x.entity := fun x hx => hchange _ (List.mem_map_of_mem hx)
      cases replace with
      | true => exact ha.clear.insertAll hxs
      | false => exact ha.insertAll hxs

theorem commitAllHolding {changes : List Change} (ha : Abandons s₀ h s)
    (hchanges : ∀ change ∈ changes, ∀ y ∈ change.inHand, ¬ s₀.Lost h y) (h' : Handles) :
    Abandons s₀ h (s.commitAllHolding h' e changes) := by
  induction changes generalizing s with
  | nil => exact ha
  | cons change changes ih =>
      exact ih ((ha.commit (hchanges change (by simp))).sweep _) fun d hd => hchanges d (by simp [hd])

end Abandons

/-! ## Giving up once more -/

/-- Giving up makes nothing lost that was not, and nothing that was lost is had again. -/
theorem lost_sweep : (s.sweep h).Lost h y ↔ s.Lost h y := by
  refine ⟨fun hl => ?_, Lost.of_abandons (Abandons.refl.sweep h) fun _ => not_lost_of_handle⟩
  induction hl with
  | @intro y hy hh hk ih =>
      refine .intro (by rwa [Has, size_sweep] at hy) hh fun x hx => Decidable.byContradiction fun hn => hn (ih x ?_)
      rwa [keeps_congr (slots_sweep hn)]

theorem swept_sweep : (s.sweep h).Swept h := fun _ _ hp hl => (parent_sweep.mp hp).2 (lost_sweep.mp hl)

end MonitorExport.Store
