import MonitorExport.Proofs.Store.Walks

/-!
# Trees in order

The entities of the tree of what an entity owns, each before its members and with all that it owns before the next
one. No entity is there twice: what belongs to two members of one entity would make one of these belong to the other.
-/

namespace MonitorExport

namespace Subtree

/-- The entities below the root of a tree. -/
def owned : Subtree → List EntityId
  | .node _ branches => preorderOfBranches branches

theorem preorder_eq (t : Subtree) : t.preorder = t.root :: t.owned := by
  cases t
  rfl

theorem preorderOfMembers_eq (ts : List Subtree) : preorderOfMembers ts = ts.flatMap preorder := by
  induction ts with
  | nil => rfl
  | cons t ts ih => rw [preorderOfMembers, ih, List.flatMap_cons]

theorem preorderOfBranches_eq (bs : List (List Subtree)) : preorderOfBranches bs = bs.flatMap preorderOfMembers := by
  induction bs with
  | nil => rfl
  | cons ts bs ih => rw [preorderOfBranches, ih, List.flatMap_cons]

theorem preorder_node (e : EntityId) (bs : List (List Subtree)) :
    (Subtree.node e bs).preorder = e :: bs.flatten.flatMap preorder := by
  have hmembers : preorderOfMembers = List.flatMap preorder := funext preorderOfMembers_eq
  rw [preorder, preorderOfBranches_eq, hmembers, ← List.flatMap_id, List.flatMap_assoc]
  rfl

end Subtree

namespace Store

open Subtree

variable {s : Store} {e m m' x : EntityId} {T t : Subtree} {bs : List (List Subtree)}

theorem owner_root_of_whole (hs : s.Linked) (h : (Subtree.node e bs).Whole s) (ht : t ∈ bs.flatten) :
    s.owner t.root = some e := by
  obtain ⟨ts, hts, ht⟩ := List.mem_flatten.mp ht
  obtain ⟨i, hi⟩ := List.mem_iff_getElem?.mp hts
  have hmem : t.root ∈ s.members ⟨e, i⟩ := roots_of_whole h hi ▸ List.mem_map_of_mem ht
  exact owner_of_parent (hs.mem_iff.mp hmem)

/-- The members of an entity are distinct, also those of two collections. -/
theorem nodup_roots (hs : s.Linked) (h : (Subtree.node e bs).Whole s) : (bs.flatten.map Subtree.root).Nodup := by
  rw [List.map_flatten, List.nodup_flatten]
  have hroots : ∀ i (hi : i < (bs.map (·.map Subtree.root)).length),
      (bs.map (·.map Subtree.root))[i] = s.members ⟨e, i⟩ := fun i hi => by
    have hi' : i < bs.length := by simpa using hi
    rw [List.getElem_map]
    exact roots_of_whole h (List.getElem?_eq_getElem hi')
  refine ⟨fun l hl => ?_, List.pairwise_iff_getElem.mpr fun i j hi hj hij x hx hx' => ?_⟩
  · obtain ⟨i, hi, rfl⟩ := List.mem_iff_getElem.mp hl
    rw [hroots]
    exact hs.nodup _
  · rw [hroots] at hx hx'
    have heq := hs.unique hx hx'
    exact absurd (congrArg CollectionId.field heq) (Nat.ne_of_lt hij)

/-- No member of an entity belongs to another one, unless the entity belongs to itself. -/
theorem not_atOrAbove_sibling (hn : ¬ After s.owner e e) (hm : s.owner m = some e) (hm' : s.owner m' = some e)
    (hne : m ≠ m') : ¬ s.AtOrAbove m m' := by
  intro h
  rcases h.cases_head with heq | ⟨o, ho, hom⟩
  · exact hne heq
  · cases ho.symm.trans hm
    exact hn (.tail' hom hm')

theorem disjoint_siblings (hn : ¬ After s.owner e e) (hm : s.owner m = some e) (hm' : s.owner m' = some e)
    (hne : m ≠ m') (hx : s.AtOrAbove x m) : ¬ s.AtOrAbove x m' := by
  intro hx'
  have hunique : Relator.RightUnique fun a b => s.owner a = some b := fun a b c hb hc => by
    cases hb.symm.trans hc
    rfl
  rcases Relation.ReflTransGen.total_of_right_unique hunique hx hx' with h | h
  · exact not_atOrAbove_sibling hn hm hm' hne h
  · exact not_atOrAbove_sibling hn hm' hm hne.symm h

/-- No entity is twice in the tree of what an entity owns. -/
theorem nodup_preorder (hs : s.Linked) (h : T.Whole s) (hn : ¬ After s.owner T.root T.root) : T.preorder.Nodup := by
  induction T using Subtree.induct with
  | h e bs ih =>
      have howner : ∀ t ∈ bs.flatten, s.owner t.root = some e := fun t ht => owner_root_of_whole hs h ht
      have hwhole : ∀ t ∈ bs.flatten, t.Whole s := fun t ht => by
        obtain ⟨ts, hts, ht⟩ := List.mem_flatten.mp ht
        exact h.member hts ht
      rw [preorder_node, List.nodup_cons, List.nodup_flatMap]
      refine ⟨fun he => ?_, fun t ht => ?_, ?_⟩
      · obtain ⟨t, ht, he⟩ := List.mem_flatMap.mp he
        have hup : s.AtOrAbove e t.root := (mem_preorder_of_whole hs (hwhole t ht) e).mp he
        exact hn (.tail' hup (howner t ht))
      · obtain ⟨ts, hts, ht'⟩ := List.mem_flatten.mp ht
        exact ih ts hts t ht' (hwhole t ht) (mt (after_self_of_next (howner t ht)) hn)
      · refine (List.pairwise_map.mp (nodup_roots hs h)).imp_of_mem fun {t t'} ht ht' hne x hx hx' => ?_
        rw [mem_preorder_of_whole hs (hwhole t ht)] at hx
        rw [mem_preorder_of_whole hs (hwhole t' ht')] at hx'
        exact disjoint_siblings hn (howner t ht) (howner t' ht') hne hx hx'

/-! ## Collecting along a tree -/

theorem collectMembers_eq (s : Store) (m : ModelId) (ts : List Subtree) (found : List EntityId) :
    s.collectMembers m found ts = ts.foldl (s.collect m) found := by
  induction ts generalizing found with
  | nil => rfl
  | cons t ts ih => exact ih (s.collect m found t)

theorem collectBranches_eq (s : Store) (m : ModelId) (bs : List (List Subtree)) (found : List EntityId) :
    s.collectBranches m found bs = bs.flatten.foldl (s.collect m) found := by
  induction bs generalizing found with
  | nil => rfl
  | cons ts bs ih => rw [collectBranches, ih, collectMembers_eq, List.flatten_cons, List.foldl_append]

/-- Collecting goes through the entities of a tree in order, whatever was found before. -/
theorem collect_eq (s : Store) (m : ModelId) (T : Subtree) (found : List EntityId) :
    s.collect m found T = (T.preorder.filter fun x => s.isA (s.model x) m).foldl s.addDistinct found := by
  induction T using Subtree.induct generalizing found with
  | h e bs ih =>
      have hbelow : ∀ found, bs.flatten.foldl (s.collect m) found =
          ((bs.flatten.flatMap preorder).filter fun x => s.isA (s.model x) m).foldl s.addDistinct found := fun found => by
        rw [List.filter_flatMap, List.foldl_flatMap]
        refine List.foldl_ext _ _ _ fun found t ht => ?_
        obtain ⟨ts, hts, ht⟩ := List.mem_flatten.mp ht
        exact ih ts hts t ht found
      rw [collect, collectBranches_eq, hbelow, preorder_node, List.filter_cons]
      split <;> rfl

theorem extract_eq (s : Store) (e : EntityId) (m : ModelId) :
    s.extract e m = ((s.subtree e).preorder.filter fun x => s.isA (s.model x) m).foldl s.addDistinct [] :=
  collect_eq s m (s.subtree e) []

end Store

end MonitorExport
