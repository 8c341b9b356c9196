import Mathlib.Data.List.Forall2
import MonitorExport.Proofs.Store.Forest

/-!
# Walks

Walks from an entity outwards and inwards are bounded by the number of entities. Where owners end, the
bound cuts nothing off: the owners found are all owners, and the tree found is all that the entity owns. For the tree
it is enough that the entity is not above itself.
-/

namespace MonitorExport

/-- Whether a tree has every member of every slot of its entities, in order. -/
inductive Subtree.Whole (s : Store) : Subtree → Prop
  | node {e : EntityId} {branches : List (List Subtree)}
      (h : branches.map (·.map Subtree.root) = (s.entity e).slots.map Store.slotMembers)
      (hb : ∀ ts ∈ branches, ∀ t ∈ ts, Whole s t) : Whole s (.node e branches)

namespace Subtree

theorem mem_preorderOfMembers {x : EntityId} {ts : List Subtree} :
    x ∈ preorderOfMembers ts ↔ ∃ t ∈ ts, x ∈ t.preorder := by
  induction ts with
  | nil => simp [preorderOfMembers]
  | cons t ts ih => simp [preorderOfMembers, ih]

theorem mem_preorderOfBranches {x : EntityId} {bs : List (List Subtree)} :
    x ∈ preorderOfBranches bs ↔ ∃ ts ∈ bs, ∃ t ∈ ts, x ∈ t.preorder := by
  induction bs with
  | nil => simp [preorderOfBranches]
  | cons ts bs ih => simp [preorderOfBranches, ih, mem_preorderOfMembers]

theorem mem_preorder {x e : EntityId} {bs : List (List Subtree)} :
    x ∈ (Subtree.node e bs).preorder ↔ x = e ∨ ∃ ts ∈ bs, ∃ t ∈ ts, x ∈ t.preorder := by
  rw [preorder, List.mem_cons, mem_preorderOfBranches]

theorem induct {motive : Subtree → Prop}
    (h : ∀ e bs, (∀ ts ∈ bs, ∀ t ∈ ts, motive t) → motive (.node e bs)) (T : Subtree) : motive T := by
  cases T with
  | node e bs =>
      refine h e bs fun ts hts t ht => ?_
      have hlt : sizeOf t < sizeOf (node e bs) := by
        have hle := Nat.lt_trans (List.sizeOf_lt_of_mem ht) (List.sizeOf_lt_of_mem hts)
        rw [node.sizeOf_spec]
        omega
      exact induct h t
termination_by sizeOf T
decreasing_by exact hlt

end Subtree

theorem eq_of_map_eq {α β : Type} {f : α → β} {l l' : List α} (h : l.map f = l'.map f)
    (hf : ∀ a ∈ l, ∀ b ∈ l', f a = f b → a = b) : l = l' := by
  induction l generalizing l' with
  | nil => exact (List.map_eq_nil_iff.mp h.symm).symm
  | cons a l ih =>
      cases l' with
      | nil => cases h
      | cons b l' =>
          rw [List.map_cons, List.map_cons, List.cons.injEq] at h
          rw [hf a (by simp) b (by simp) h.1, ih h.2 fun x hx y hy => hf x (by simp [hx]) y (by simp [hy])]

namespace Subtree.Whole

variable {s : Store} {e : EntityId} {bs : List (List Subtree)} {ts : List Subtree} {t : Subtree}

theorem member (h : (Subtree.node e bs).Whole s) (hts : ts ∈ bs) (ht : t ∈ ts) : t.Whole s := by
  cases h with
  | node _ hb => exact hb ts hts t ht

theorem length_slots (h : (Subtree.node e bs).Whole s) : bs.length = (s.entity e).slots.length := by
  cases h with
  | node h _ => simpa using congrArg List.length h

theorem length_fields (hs : s.Linked) (he : s.Has e) (h : (Subtree.node e bs).Whole s) :
    bs.length = (s.schemaOf e).fields.length := by
  rw [h.length_slots, hs.typed.length_slots he]

end Subtree.Whole

/-- There is one tree of all that an entity owns. -/
theorem Subtree.Whole.unique {s : Store} {t t' : Subtree} (h : t.Whole s) (h' : t'.Whole s) (hroot : t.root = t'.root) :
    t = t' := by
  induction h generalizing t' with
  | @node e branches hroots _ ih =>
      cases h' with
      | @node e' branches' hroots' hb' =>
          cases hroot
          refine congrArg (Subtree.node _) (eq_of_map_eq (hroots.trans hroots'.symm) fun ts hts ts' hts' hmap => ?_)
          exact eq_of_map_eq hmap fun t ht t' ht' hroot => ih ts hts t ht (hb' ts' hts' t' ht') hroot

namespace Store

variable {s : Store} {e o m : EntityId} {l above : List EntityId} {fuel : Nat}

/-- The owners of an entity are entities of the store. -/
theorem Linked.has_of_chain (hs : s.Linked) (h : Chain s.owner e l) : ∀ x ∈ l, s.Has x := by
  induction h with
  | last => simp
  | step h _ ih =>
      intro x hx
      rcases List.mem_cons.mp hx with rfl | hx
      · exact hs.has_owner h
      · exact ih x hx

theorem index_injective : Function.Injective EntityId.index := by
  rintro ⟨a⟩ ⟨b⟩ rfl
  rfl

/-- Distinct entities of a store are no more than it has. -/
theorem length_le_size (hl : l.Nodup) (h : ∀ x ∈ l, s.Has x) : l.length ≤ s.entities.size :=
  length_le_of_nodup index_injective hl h

/-! ## Outwards -/

theorem ancestorsWithin_eq (h : Chain s.owner e l) (hf : l.length ≤ fuel) :
    s.ancestorsWithin fuel e = l.takeWhile fun o => !s.isDocument o := by
  induction h generalizing fuel with
  | last h =>
      cases fuel with
      | zero => rfl
      | succ fuel => simp [ancestorsWithin, h]
  | @step e o l h _ ih =>
      cases fuel with
      | zero => simp at hf
      | succ fuel =>
          rw [ancestorsWithin, h, List.takeWhile_cons]
          dsimp only
          rw [ih (by simpa using hf)]
          cases s.isDocument o <;> rfl

/-- The ancestors of an entity are all its owners up to a document. -/
theorem ancestors_eq (hs : s.Linked) (h : Chain s.owner e l) :
    s.ancestors e = l.takeWhile fun o => !s.isDocument o :=
  ancestorsWithin_eq h (length_le_size h.nodup (hs.has_of_chain h))

/-! ## Inwards -/

theorem slots_of_not_has (h : ¬ s.Has e) : (s.entity e).slots = [] := by
  rw [entity_of_not_has h]
  rfl

theorem slot_of_mem {i : Nat} (h : m ∈ slotMembers (s.slot e i)) :
    ∃ slot ∈ (s.entity e).slots, m ∈ slotMembers slot := by
  rw [slot, List.getD_eq_getElem?_getD] at h
  cases hi : (s.entity e).slots[i]? with
  | none => simp [hi, slotMembers] at h
  | some slot => exact ⟨slot, List.mem_of_getElem? hi, by simpa [hi] using h⟩

/-- The members that an entity holds belong to it. -/
theorem Linked.owner_of_slot (hs : s.Linked) {slot : Slot} (hslot : slot ∈ (s.entity e).slots)
    (hm : m ∈ slotMembers slot) : s.owner m = some e := by
  obtain ⟨i, hi⟩ := List.mem_iff_getElem?.mp hslot
  have hslot : s.slot e i = slot := by simp [Store.slot, List.getD_eq_getElem?_getD, hi]
  have hmem : m ∈ s.members ⟨e, i⟩ := by rwa [members_eq, hslot]
  exact owner_of_parent (hs.mem_iff.mp hmem)

theorem Linked.has_of_after (hs : s.Linked) (h : After s.owner e o) : s.Has o := by
  cases h with
  | single h => exact hs.has_owner h
  | tail _ h => exact hs.has_owner h

/-- The branches of a whole tree are the members of the slots. -/
theorem roots_of_whole {branches : List (List Subtree)} (hw : (Subtree.node e branches).Whole s) {i : Nat}
    {ts : List Subtree} (hi : branches[i]? = some ts) : ts.map Subtree.root = s.members ⟨e, i⟩ := by
  cases hw with
  | node hroots _ =>
      have hmap := congrArg (fun l : List (List EntityId) => l[i]?) hroots
      simp only [List.getElem?_map, hi, Option.map_some] at hmap
      cases hslot : (s.entity e).slots[i]? with
      | none => simp [hslot] at hmap
      | some slot =>
          rw [hslot, Option.map_some, Option.some.injEq] at hmap
          rw [members_eq, Store.slot, List.getD_eq_getElem?_getD, hslot]
          exact hmap

/-- An entity with as many owners as there are entities is not there. -/
theorem not_has_of_above (hs : s.Linked) (hn : ¬ After s.owner e e) (habove : above.Nodup)
    (hafter : ∀ o ∈ above, After s.owner e o) (hsize : s.entities.size ≤ above.length) : ¬ s.Has e := by
  intro he
  have hnodup : (e :: above).Nodup := List.nodup_cons.mpr ⟨fun hmem => hn (hafter e hmem), habove⟩
  have hle := length_le_size hnodup fun x hx => (List.mem_cons.mp hx).elim (fun h => h ▸ he)
    fun hx => hs.has_of_after (hafter x hx)
  rw [List.length_cons] at hle
  omega

/-- No member of an entity is above it, since it would come after itself. -/
theorem filter_members (hs : s.Linked) (hn : ¬ After s.owner e e) (hafter : ∀ o ∈ above, After s.owner e o)
    {slot : Slot} (hslot : slot ∈ (s.entity e).slots) :
    (slotMembers slot).filter (fun m => m ∉ e :: above) = slotMembers slot := by
  refine List.filter_eq_self.mpr fun m hm => ?_
  have ho : s.owner m = some e := hs.owner_of_slot hslot hm
  simp only [List.mem_cons, decide_eq_true_eq, not_or]
  refine ⟨fun he => hn (.single (he ▸ ho)), fun hmem => hn ?_⟩
  exact .tail (hafter m hmem) ho

/-- The tree of an entity below owners of it is whole, if there is one step left for each other entity. -/
theorem subtreeWithin_whole (hs : s.Linked) (hn : ¬ After s.owner e e) (habove : above.Nodup)
    (hafter : ∀ o ∈ above, After s.owner e o) (hfuel : s.entities.size ≤ fuel + above.length) :
    (s.subtreeWithin fuel above e).Whole s := by
  induction fuel generalizing e above with
  | zero =>
      have hn : ¬ s.Has e := not_has_of_above hs hn habove hafter (by omega)
      exact .node (by simp [slots_of_not_has hn]) (by simp [slots_of_not_has hn])
  | succ fuel ih =>
      have hnot : e ∉ above := fun hmem => hn (hafter e hmem)
      refine .node ?_ fun ts hts t ht => ?_
      · rw [List.map_map]
        refine List.map_congr_left fun slot hslot => ?_
        simp only [Function.comp_apply, filter_members hs hn hafter hslot, List.map_map]
        exact (List.map_congr_left fun m _ => Subtree.root_subtreeWithin ..).trans (List.map_id _)
      · obtain ⟨slot, hslot, rfl⟩ := List.mem_map.mp hts
        rw [filter_members hs hn hafter hslot] at ht
        obtain ⟨m, hm, rfl⟩ := List.mem_map.mp ht
        have ho : s.owner m = some e := hs.owner_of_slot hslot hm
        refine ih (mt (after_self_of_next ho) hn) (List.nodup_cons.mpr ⟨hnot, habove⟩) (fun x hx => ?_)
          (by simp only [List.length_cons]; omega)
        rcases List.mem_cons.mp hx with rfl | hx
        · exact .single ho
        · exact Relation.TransGen.head ho (hafter x hx)

/-- The tree of an entity that is not above itself leaves nothing out that it owns. -/
theorem subtree_whole_of_not_after (hs : s.Linked) (hn : ¬ After s.owner e e) : (s.subtree e).Whole s :=
  subtreeWithin_whole hs hn .nil (by simp) (Nat.le_refl _)

theorem subtree_whole_of_finishes (hs : s.Linked) (hf : Finishes s.owner e) : (s.subtree e).Whole s :=
  subtree_whole_of_not_after hs hf.not_after

/-- The tree of what an entity owns leaves nothing out. -/
theorem subtree_whole (hs : s.Linked) (hf : s.Forest) (e : EntityId) : (s.subtree e).Whole s :=
  subtree_whole_of_finishes hs (hf e)

/-- Trees of what an entity owns have exactly the entity and those that it owns, directly or not. -/
theorem mem_preorder_of_whole (hs : s.Linked) {t : Subtree} (h : t.Whole s) (x : EntityId) :
    x ∈ t.preorder ↔ s.AtOrAbove x t.root := by
  induction h generalizing x with
  | @node e branches h _ ih =>
      rw [Subtree.mem_preorder]
      constructor
      · rintro (rfl | ⟨ts, hts, t, ht, hx⟩)
        · exact .refl
        · have hmap : ts.map Subtree.root ∈ (s.entity e).slots.map slotMembers := h ▸ List.mem_map_of_mem hts
          obtain ⟨slot, hslot, hroots⟩ := List.mem_map.mp hmap
          have ho : s.owner t.root = some e := hs.owner_of_slot hslot (hroots ▸ List.mem_map_of_mem ht)
          exact ((ih ts hts t ht x).mp hx).tail ho
      · intro hx
        rcases hx.cases_tail with rfl | ⟨m, hxm, ho⟩
        · exact .inl rfl
        · obtain ⟨c, hc, rfl⟩ := owner_eq_some.mp ho
          have hmem := hs.mem_iff.mpr hc
          rw [members_eq] at hmem
          obtain ⟨slot, hslot, hm⟩ := slot_of_mem hmem
          have hmap : slotMembers slot ∈ branches.map (·.map Subtree.root) := h ▸ List.mem_map_of_mem hslot
          obtain ⟨ts, hts, hroots⟩ := List.mem_map.mp hmap
          rw [← hroots] at hm
          obtain ⟨t, ht, rfl⟩ := List.mem_map.mp hm
          exact .inr ⟨ts, hts, t, ht, (ih ts hts t ht x).mpr hxm⟩

theorem mem_preorder (hs : s.Linked) (hf : s.Forest) (e x : EntityId) :
    x ∈ (s.subtree e).preorder ↔ s.AtOrAbove x e := by
  rw [mem_preorder_of_whole hs (subtree_whole hs hf e), Subtree.root_subtree]

end Store

end MonitorExport
