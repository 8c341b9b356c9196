import MonitorExport.Proofs.Store.Renaming

/-!
# One store behind another

What is made apart can be put behind the entities of a store: its names are shifted past theirs. If one store is a part
of another, which has the same entities at a place of its own, then it stays a part with them behind its own.
-/

namespace MonitorExport

variable {f g : EntityId → EntityId}

/-! ## Names in a row -/

/-- The name of an entity that is put behind `n` others. -/
def EntityId.shift (n : Nat) (x : EntityId) : EntityId := ⟨n + x.index⟩

theorem EntityId.shift_injective (n : Nat) : Function.Injective (shift n) := fun _ _ h =>
  Store.index_injective (Nat.add_left_cancel (EntityId.mk.inj h))

theorem EntityId.shift_zero : shift 0 = id := funext fun x => congrArg EntityId.mk (Nat.zero_add x.index)

namespace Entity

theorem rename_rename (x : Entity) : (x.rename f).rename g = x.rename (g ∘ f) := by
  refine congrArg₂ (Entity.mk x.model) ?_ ?_
  · rw [rename, List.map_map]
    refine List.map_congr_left fun slot _ => ?_
    cases slot with
    | scalar => rfl
    | members es => exact congrArg Slot.members List.map_map
    | binding bound => cases bound <;> rfl
  · rw [rename, Option.map_map]
    rfl

theorem rename_id (x : Entity) : x.rename id = x := by
  refine congrArg₂ (Entity.mk x.model) ?_ ?_
  · refine (List.map_congr_left fun slot _ => ?_).trans (List.map_id _)
    cases slot with
    | scalar => rfl
    | members es => exact congrArg Slot.members (List.map_id es)
    | binding bound => cases bound <;> rfl
  · exact (Option.map_congr fun _ _ => rfl).trans Option.map_id'

end Entity

namespace Store

variable {w s t b : Store} {x y : EntityId}

/-- Names that agree on the entities of a store make no difference for it. -/
theorem Linked.rename_congr (hs : s.Linked) (hfg : ∀ y, s.Has y → f y = g y) (x : EntityId) :
    (s.entity x).rename f = (s.entity x).rename g := by
  refine congrArg₂ (Entity.mk _) (List.map_congr_left fun slot hslot => ?_) (Option.map_congr fun c hc => ?_)
  · obtain ⟨i, hi⟩ := List.mem_iff_getElem?.mp hslot
    have hfits := hs.typed.fits x i
    rw [Store.slot, List.getD_eq_getElem?_getD, hi, Option.getD_some] at hfits
    cases slot with
    | scalar => rfl
    | members es => exact congrArg Slot.members (List.map_congr_left fun y hy => hfg y (hfits y hy).1)
    | binding bound =>
        cases bound with
        | entity y => exact congrArg (fun y => Slot.binding (.entity y)) (hfg y hfits.1)
        | unbound => rfl
        | literal => rfl
  · rw [CollectionId.rename, CollectionId.rename, hfg _ (hs.isCollection hc).has]

theorem ext_entity (hr : t.registries = s.registries) (hsize : t.entities.size = s.entities.size)
    (he : ∀ x, t.entity x = s.entity x) : t = s := by
  have hentities : t.entities = s.entities := Array.ext hsize fun i hi hi' => by
    have hx := he ⟨i⟩
    rwa [entity, entity, Array.getD_eq_getD_getElem?, Array.getD_eq_getD_getElem?, Array.getElem?_eq_getElem hi,
      Array.getElem?_eq_getElem hi'] at hx
  cases t
  cases s
  exact congrArg₂ Store.mk hr hentities

/-! ## A store behind another -/

/-- A store with the entities of another one behind its own. -/
def append (s b : Store) : Store :=
  { s with entities := s.entities ++ b.entities.map (Entity.rename (.shift s.entities.size)) }

@[simp] theorem size_append : (s.append b).entities.size = s.entities.size + b.entities.size := by simp [append]

theorem entity_append_of_has (h : s.Has x) : (s.append b).entity x = s.entity x := by
  simp only [entity, append, Array.getD_eq_getD_getElem?]
  rw [Array.getElem?_append_left h]

theorem entity_append_shift (x : EntityId) :
    (s.append b).entity (x.shift s.entities.size) = (b.entity x).rename (.shift s.entities.size) := by
  simp only [entity, append, EntityId.shift, Array.getD_eq_getD_getElem?]
  rw [Array.getElem?_append_right (Nat.le_add_right ..), Nat.add_sub_cancel_left, Array.getElem?_map]
  cases b.entities[x.index]? <;> rfl

theorem has_or_shift (s : Store) (x : EntityId) : s.Has x ∨ ∃ y : EntityId, x = y.shift s.entities.size := by
  rcases Nat.lt_or_ge x.index s.entities.size with h | h
  · exact .inl h
  · obtain ⟨k, hk⟩ := Nat.exists_eq_add_of_le h
    exact .inr ⟨⟨k⟩, index_injective hk⟩

theorem not_has_shift (x : EntityId) : ¬ s.Has (x.shift s.entities.size) := Nat.not_lt.mpr (Nat.le_add_right ..)

namespace Embeds

/-- What is put behind a store is a part of the result. -/
theorem of_append (hr : b.registries = s.registries) : Embeds s (.shift s.entities.size) b (s.append b) where
  part := hr
  whole := rfl
  injective := EntityId.shift_injective _
  has x hx := by
    rw [Has, size_append]
    exact Nat.add_lt_add_left hx _
  entity := entity_append_shift
  outside y hy := by
    obtain hold | ⟨x, rfl⟩ := s.has_or_shift y
    · exact entity_append_of_has hold
    · exact absurd rfl (hy x)
  next k := by rw [size_append, Nat.add_assoc]; rfl

/-- A part that comes behind all that is outside it was put there. -/
theorem eq_append (h : Embeds s (.shift s.entities.size) b t) : t = s.append b := by
  refine ext_entity h.whole ?_ fun x => ?_
  · rw [size_append]
    exact (EntityId.mk.inj (h.next 0)).symm
  · obtain hold | ⟨x, rfl⟩ := s.has_or_shift x
    · rw [entity_append_of_has hold]
      exact h.outside x fun y hy => not_has_shift y (hy ▸ hold)
    · rw [entity_append_shift, h.entity]

end Embeds

/-- Nothing is a part of every store. -/
theorem Embeds.empty (s : Store) : Embeds s (.shift s.entities.size) (.ofRegistries s.registries) s where
  part := rfl
  whole := rfl
  injective := EntityId.shift_injective _
  has x hx := absurd hx (Nat.not_lt_zero _)
  entity x := by
    rw [entity_of_not_has (not_has_shift x), entity_of_not_has (Nat.not_lt_zero _)]
    rfl
  outside _ _ := rfl
  next k := congrArg (fun n => EntityId.mk (s.entities.size + n)) (Nat.zero_add k)

/-- What was put behind a store owns what it owned before. -/
theorem preorder_append (hr : b.registries = s.registries) (x : EntityId) :
    ((s.append b).subtree (x.shift s.entities.size)).preorder = (b.subtree x).preorder.map (.shift s.entities.size) :=
  ((Embeds.of_append hr).subtree x).preorder_eq_map

theorem append_empty (s : Store) : s.append (.ofRegistries s.registries) = s := (Embeds.empty s).eq_append.symm

theorem empty_append (s : Store) : (ofRegistries s.registries).append s = s := by
  have hself : Embeds (ofRegistries s.registries) (.shift 0) s s := by
    rw [EntityId.shift_zero]
    exact ⟨rfl, rfl, Function.injective_id, fun _ => id, fun x => (Entity.rename_id _).symm, fun y hy => absurd rfl (hy y),
      fun _ => rfl⟩
  exact hself.eq_append.symm

/-! ## A part that grows -/

/-- Whether the names that a part gives are all but those from `n` to `m`. -/
def Skips (f : EntityId → EntityId) (n m : Nat) : Prop := ∀ y, (∃ x, f x = y) ↔ y.index < n ∨ m ≤ y.index

theorem Skips.surjective {n : Nat} (h : Skips f n n) : Function.Surjective f := fun y => (h y).mpr (Nat.lt_or_ge ..)

/-- Names for a part of `m` entities that `k` others come behind: theirs are in a row from `n` on, and those of later
entities come behind the `l` entities of the whole. -/
def joined (f : EntityId → EntityId) (m k n l : Nat) (x : EntityId) : EntityId :=
  if x.index < m then f x else if x.index < m + k then ⟨n + (x.index - m)⟩ else ⟨l + (x.index - (m + k))⟩

section Joined

variable {m k n l : Nat} {z : EntityId}

theorem joined_first (h : x.index < m) : joined f m k n l x = f x := if_pos h

theorem joined_second (h : y.index < k) : joined f m k n l (y.shift m) = y.shift n := by
  have hm : ¬ (y.shift m).index < m := Nat.not_lt.mpr (Nat.le_add_right ..)
  have hk : (y.shift m).index < m + k := Nat.add_lt_add_left h m
  rw [joined, if_neg hm, if_pos hk, EntityId.shift, EntityId.shift, Nat.add_sub_cancel_left]

theorem joined_third (z : EntityId) : joined f m k n l (z.shift (m + k)) = z.shift l := by
  have hmk : ¬ (z.shift (m + k)).index < m + k := Nat.not_lt.mpr (Nat.le_add_right ..)
  rw [joined, if_neg fun h => hmk (Nat.lt_of_lt_of_le h (Nat.le_add_right ..)), if_neg hmk, EntityId.shift, EntityId.shift,
    Nat.add_sub_cancel_left]

/-- An entity is one of the first, or one of those behind them, or comes later. -/
theorem joined_cases (m k : Nat) (x : EntityId) :
    x.index < m ∨ (∃ y : EntityId, y.index < k ∧ x = y.shift m) ∨ ∃ z : EntityId, x = z.shift (m + k) := by
  rcases Nat.lt_or_ge x.index m with h | h
  · exact .inl h
  · obtain ⟨i, hi⟩ := Nat.exists_eq_add_of_le h
    rcases Nat.lt_or_ge i k with hk | hk
    · exact .inr (.inl ⟨⟨i⟩, hk, index_injective hi⟩)
    · obtain ⟨j, hj⟩ := Nat.exists_eq_add_of_le hk
      refine .inr (.inr ⟨⟨j⟩, index_injective ?_⟩)
      rw [hi, hj, ← Nat.add_assoc]
      rfl

theorem le_joined (h : n ≤ l) (y : EntityId) : n ≤ (joined f m k n l (y.shift m)).index := by
  rcases Nat.lt_or_ge y.index k with hy | hy
  · rw [joined_second hy]
    exact Nat.le_add_right ..
  · obtain ⟨i, hi⟩ := Nat.exists_eq_add_of_le hy
    have hz : y.shift m = EntityId.shift (m + k) ⟨i⟩ := index_injective (by
      simp only [EntityId.shift, hi, Nat.add_assoc])
    rw [hz, joined_third]
    exact Nat.le_trans h (Nat.le_add_right ..)

end Joined

namespace Embeds

variable {n m : Nat} (h : Embeds w f s t) (hf : Skips f n m) (hm : m ≤ t.entities.size)

include h hf hm

theorem joined_skips : Skips (joined f s.entities.size b.entities.size n t.entities.size) (n + b.entities.size) m := by
  intro y
  constructor
  · rintro ⟨x, rfl⟩
    obtain hx | ⟨z, hz, rfl⟩ | ⟨z, rfl⟩ := joined_cases s.entities.size b.entities.size x
    · rw [joined_first hx]
      exact ((hf (f x)).mp ⟨x, rfl⟩).imp_left fun hlt => Nat.lt_of_lt_of_le hlt (Nat.le_add_right ..)
    · rw [joined_second hz]
      exact .inl (Nat.add_lt_add_left hz n)
    · rw [joined_third]
      exact .inr (Nat.le_trans hm (Nat.le_add_right ..))
  · intro hy
    by_cases hrow : n ≤ y.index ∧ y.index < n + b.entities.size
    · obtain ⟨k, hk⟩ := Nat.exists_eq_add_of_le hrow.1
      refine ⟨EntityId.shift s.entities.size ⟨k⟩, ?_⟩
      rw [joined_second (by dsimp only; omega)]
      exact index_injective hk.symm
    · obtain ⟨x, rfl⟩ := (hf y).mpr (by omega)
      obtain hx | ⟨z, rfl⟩ := s.has_or_shift x
      · exact ⟨x, joined_first hx⟩
      · exact ⟨z.shift (s.entities.size + b.entities.size), (joined_third z).trans (h.next z.index).symm⟩

variable (hb : n + b.entities.size ≤ m)

include hb

theorem joined_injective : Function.Injective (joined f s.entities.size b.entities.size n t.entities.size) := by
  -- the names of the first entities are below those of later ones, and not in the row
  have hfirst : ∀ x : EntityId, x.index < s.entities.size → (f x).index < t.entities.size ∧
      ((f x).index < n ∨ n + b.entities.size ≤ (f x).index) := fun x hx =>
    ⟨h.has x hx, ((hf (f x)).mp ⟨x, rfl⟩).imp_right (Nat.le_trans hb)⟩
  intro x y hxy
  have hx := hfirst x
  have hy := hfirst y
  unfold joined at hxy
  split_ifs at hxy
  · exact h.injective hxy
  all_goals
    have hindex := congrArg EntityId.index hxy
    exact index_injective (by dsimp only at hindex; omega)

/-- A part can take over what is in a row of the whole that it skips. -/
theorem join (hs : s.Linked) (hlinked : b.Linked)
    (hw : ∀ y, b.Has y → w.entity (y.shift n) = (b.entity y).rename (.shift n)) :
    Embeds w (joined f s.entities.size b.entities.size n t.entities.size) (s.append b) t where
  part := h.part
  whole := h.whole
  injective := h.joined_injective hf hm hb
  has x hx := by
    rw [Has, size_append] at hx
    obtain hx' | ⟨y, hy, rfl⟩ | ⟨z, rfl⟩ := joined_cases s.entities.size b.entities.size x
    · rw [joined_first hx']
      exact h.has x hx'
    · rw [joined_second hy]
      exact Nat.lt_of_lt_of_le (Nat.add_lt_add_left hy n) (Nat.le_trans hb hm)
    · exact absurd hx (Nat.not_lt.mpr (Nat.le_add_right ..))
  entity x := by
    obtain hx | ⟨y, hy, rfl⟩ | ⟨z, rfl⟩ := joined_cases s.entities.size b.entities.size x
    · rw [joined_first hx, entity_append_of_has hx, h.entity]
      exact hs.rename_congr (fun y hy => (joined_first hy).symm) x
    · have hskipped : ∀ x, f x ≠ y.shift n := fun x hx => by
        have hor := (hf (y.shift n)).mp ⟨x, hx⟩
        have hlt : (y.shift n).index < n + b.entities.size := Nat.add_lt_add_left hy n
        have hle : n ≤ (y.shift n).index := Nat.le_add_right ..
        omega
      rw [joined_second hy, entity_append_shift, h.outside _ hskipped, hw y hy, Entity.rename_rename]
      exact hlinked.rename_congr (fun z hz => (joined_second hz).symm) y
    · have hn : ¬ (s.append b).Has (z.shift (s.entities.size + b.entities.size)) := by
        rw [← size_append]
        exact not_has_shift z
      rw [joined_third, entity_of_not_has (not_has_shift z), entity_of_not_has hn]
      rfl
  outside y hy := h.outside y fun x hx => by
    have hor := (hf y).mp ⟨x, hx⟩
    obtain ⟨x', hx'⟩ := (h.joined_skips hf hm y).mpr (hor.imp_left fun hlt => Nat.lt_of_lt_of_le hlt (Nat.le_add_right ..))
    exact hy x' hx'
  next k := by
    rw [size_append]
    exact joined_third ⟨k⟩

end Embeds

end Store

end MonitorExport
