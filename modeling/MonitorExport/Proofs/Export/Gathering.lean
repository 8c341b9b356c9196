import Mathlib.Data.List.Perm.Basic
import MonitorExport.Proofs.Export.Rosters

/-!
# The form of a gathered document

Gathering keeps the tags at a root distinct, brings them into the order of an export, and changes each host and
template by itself. If the names of groups are found in hosts and templates alone, then each pass keeps what the
others look at, so that gathering twice is gathering once.
-/

namespace MonitorExport.Node

variable {root n : Node} {tag container member : String}

/-! ## Order -/

/-- Sorting keeps elements in their order that are sorted among themselves. -/
theorem filter_mergeSort {α : Type} {le : α → α → Bool} {l : List α} {p : α → Bool}
    (trans : ∀ a b c, le a b = true → le b c = true → le a c = true) (total : ∀ a b, (le a b || le b a) = true)
    (h : (l.filter p).Pairwise fun a b => le a b = true) : (l.mergeSort le).filter p = l.filter p := by
  have hsub : (l.filter p).Sublist ((l.mergeSort le).filter p) := by
    have hsub := (List.sublist_mergeSort trans total h List.filter_sublist).filter p
    simpa only [List.filter_filter, Bool.and_self] using hsub
  refine (hsub.eq_of_length ?_).symm
  exact ((List.mergeSort_perm l le).filter p).length_eq.symm

def rankLE (a b : Node) : Bool := rootRank a ≤ rootRank b

theorem rankLE_iff {a b : Node} : rankLE a b = true ↔ rootOrder.idxOf a.tag ≤ rootOrder.idxOf b.tag :=
  decide_eq_true_iff

theorem rankLE_trans (a b c : Node) (h : rankLE a b = true) (h' : rankLE b c = true) : rankLE a c = true :=
  rankLE_iff.mpr (Nat.le_trans (rankLE_iff.mp h) (rankLE_iff.mp h'))

theorem rankLE_total (a b : Node) : (rankLE a b || rankLE b a) = true := by
  rw [Bool.or_eq_true, rankLE_iff, rankLE_iff]
  exact Nat.le_total _ _

theorem children_orderRoot (root : Node) :
    root.orderRoot.children = (root.children.filter fun c => !isBareContainer c).mergeSort rankLE :=
  rfl

@[simp] theorem tag_orderRoot (root : Node) : root.orderRoot.tag = root.tag := rfl

theorem mem_orderRoot : n ∈ root.orderRoot.children ↔ n ∈ root.children ∧ isBareContainer n = false := by
  rw [children_orderRoot, List.mem_mergeSort, List.mem_filter, Bool.not_eq_true']

theorem childrenNamed_orderRoot (root : Node) (tag : String) :
    root.orderRoot.childrenNamed tag = (root.childrenNamed tag).filter fun c => !isBareContainer c := by
  have hsorted : ((root.children.filter fun c => !isBareContainer c).filter fun c => c.tag = tag).Pairwise
      fun a b => rankLE a b = true := by
    refine List.pairwise_of_forall_mem_list fun a ha b hb => ?_
    have hta : a.tag = tag := by simpa using (List.mem_filter.mp ha).2
    have htb : b.tag = tag := by simpa using (List.mem_filter.mp hb).2
    exact rankLE_iff.mpr (Nat.le_of_eq (by rw [hta, htb]))
  rw [childrenNamed, children_orderRoot, filter_mergeSort rankLE_trans rankLE_total hsorted, childrenNamed,
    List.filter_comm]

theorem childless_of_bare (h : isBareContainer n = true) : n.children = [] := by
  unfold isBareContainer at h
  simpa using (Bool.and_eq_true_iff.mp h).2

/-- Leaving out containers without members changes nothing that is found in members. -/
theorem flatMap_not_bare {α : Type} {φ : Node → List α} (hφ : ∀ n : Node, n.children = [] → φ n = [])
    (ns : List Node) : (ns.filter fun c => !isBareContainer c).flatMap φ = ns.flatMap φ := by
  induction ns with
  | nil => rfl
  | cons n ns ih =>
      rw [List.filter_cons]
      cases hn : isBareContainer n with
      | true => simp [ih, hφ n (childless_of_bare hn)]
      | false => simp [ih]

theorem held_orderRoot (root : Node) (container member : String) :
    root.orderRoot.held container member = root.held container member := by
  rw [held, childrenNamed_orderRoot]
  refine flatMap_not_bare (fun n hn => ?_) _
  simp [childrenNamed, hn]

/-- Whether the children of a root have distinct tags, which are all known. -/
structure Laid (root : Node) : Prop where
  nodup : (root.children.map (·.tag)).Nodup
  mem : ∀ tag ∈ root.children.map (·.tag), tag ∈ rootOrder

theorem Laid.of_sublist (h : (root.children.map (·.tag)).Sublist rootOrder) : Laid root :=
  ⟨h.nodup (by decide), fun _ ht => h.subset ht⟩

/-- The children of a root are in the order of an export. -/
theorem sublist_orderRoot (h : Laid root) : (root.orderRoot.children.map (·.tag)).Sublist rootOrder := by
  have hperm : root.orderRoot.children.Perm (root.children.filter fun c => !isBareContainer c) :=
    List.mergeSort_perm _ _
  have htags := hperm.map (·.tag)
  have hsub : ((root.children.filter fun c => !isBareContainer c).map (·.tag)).Sublist (root.children.map (·.tag)) :=
    List.filter_sublist.map _
  have hnodup : (root.orderRoot.children.map (·.tag)).Nodup := htags.nodup_iff.mpr (hsub.nodup h.nodup)
  have hmem : ∀ tag ∈ root.orderRoot.children.map (·.tag), tag ∈ rootOrder := fun tag ht =>
    h.mem tag (hsub.subset (htags.mem_iff.mp ht))
  have hsorted : (root.orderRoot.children.map (·.tag)).Pairwise fun a b => rootOrder.idxOf a ≤ rootOrder.idxOf b := by
    rw [List.pairwise_map]
    exact (List.pairwise_mergeSort rankLE_trans rankLE_total _).imp rankLE_iff.mp
  -- two lists of the same tags that are sorted by their places are the same
  have heq : root.orderRoot.children.map (·.tag) =
      rootOrder.filter fun tag => tag ∈ root.orderRoot.children.map (·.tag) := by
    refine List.Perm.eq_of_pairwise (fun a b ha _ hab hba => ?_) hsorted
      (List.Pairwise.filter _ (by decide)) ?_
    · exact (List.idxOf_inj (hmem a ha)).mp (Nat.le_antisymm hab hba)
    · refine (List.perm_ext_iff_of_nodup hnodup (List.filter_sublist.nodup (by decide))).mpr fun tag => ?_
      rw [List.mem_filter, decide_eq_true_eq]
      exact ⟨fun ht => ⟨hmem tag ht, ht⟩, And.right⟩
  rw [heq]
  exact List.filter_sublist

theorem orderRoot_of_sublist (h : (root.children.map (·.tag)).Sublist rootOrder)
    (hbare : ∀ c ∈ root.children, isBareContainer c = false) : root.orderRoot = root := by
  have hsorted : root.children.Pairwise fun a b => rankLE a b = true := by
    have htags : (root.children.map (·.tag)).Pairwise fun a b => rootOrder.idxOf a ≤ rootOrder.idxOf b :=
      List.Pairwise.sublist h (by decide)
    rw [List.pairwise_map] at htags
    exact htags.imp rankLE_iff.mpr
  have hchildren : root.orderRoot.children = root.children := by
    rw [children_orderRoot, List.filter_eq_self.mpr fun c hc => by rw [hbare c hc]; rfl,
      List.mergeSort_of_pairwise hsorted]
  have hroot : root.orderRoot = ⟨root.tag, root.text, root.orderRoot.children⟩ := rfl
  rw [hroot, hchildren, with_children]

/-! ## Each host and template by itself -/

/-- A host or template after gathering. -/
def settled (scope : Node) : Node :=
  ((scope.withoutChildren "graphs").withoutChildren "triggers").collectApplications

theorem held_rollupGroups (h : container ≠ "groups") :
    root.rollupGroups.held container member = root.held container member := by
  have hfilter : root.rollupGroups.childrenNamed container = root.childrenNamed container := by
    rw [rollupGroups_eq, childrenNamed]
    dsimp only
    rw [List.filter_append, List.filter_filter]
    have hnone : ∀ names, (roster "groups" "group" names).filter (fun c => c.tag = container) = [] := fun names =>
      List.filter_eq_nil_iff.mpr fun c hc => by simp [tag_of_mem_roster hc, Ne.symm h]
    rw [hnone, List.append_nil]
    refine List.filter_congr fun c _ => ?_
    by_cases hc : c.tag = container
    · simp [hc, h]
    · simp [hc]
  rw [held, hfilter, held]

/-- The hosts and templates of a gathered document are those of the document, each settled. -/
theorem held_gather (h : (container, member) ∈ scopeContainers) (root : Node) :
    root.gather.held container member = (root.held container member).map settled := by
  have hne : container ≠ "groups" := by
    rintro rfl
    simp [scopeContainers] at h
  rw [gather, held_orderRoot, rollupApplications, held_changeScopes tag_collectApplications h, held_rollupGroups hne,
    held_hoist (by decide) h, held_hoist (by decide) h, List.map_map, List.map_map]
  rfl

theorem scopes_gather (root : Node) : root.gather.scopes = root.scopes.map settled := by
  rw [scopes_eq, scopes_eq, held_gather (by decide), held_gather (by decide), List.map_append]

theorem childrenNamed_settled {scope : Node} (h : tag ∈ ["graphs", "triggers"]) : scope.settled.childrenNamed tag = [] := by
  have hne : tag ≠ "applications" := by
    rintro rfl
    simp at h
  rw [settled, childrenNamed_collect_ne _ hne]
  simp only [List.mem_cons, List.not_mem_nil, or_false] at h
  rcases h with rfl | rfl
  · rw [childrenNamed_withoutChildren_ne (by decide), childrenNamed_withoutChildren_self]
  · exact childrenNamed_withoutChildren_self ..

/-! ## Tags -/

namespace Laid

theorem hoist (h : Laid root) (hc : container ∈ rootOrder) : Laid (Node.hoist container root) := by
  rcases map_tag_hoist container root with htags | ⟨hnew, htags⟩
  · exact ⟨htags ▸ h.nodup, htags ▸ h.mem⟩
  · refine ⟨?_, fun tag ht => ?_⟩
    · rw [htags]
      exact List.nodup_append.mpr ⟨h.nodup, by simp, fun a ha b hb he => hnew (by simp_all)⟩
    · rw [htags] at ht
      rcases List.mem_append.mp ht with ht | ht
      · exact h.mem tag ht
      · exact List.mem_singleton.mp ht ▸ hc

theorem rollupGroups (h : Laid root) : Laid root.rollupGroups := by
  have hsub : ((root.children.filter fun c => c.tag ≠ "groups").map (·.tag)).Sublist (root.children.map (·.tag)) :=
    List.filter_sublist.map _
  have hnone : "groups" ∉ (root.children.filter fun c => c.tag ≠ "groups").map (·.tag) := by simp
  rw [rollupGroups_eq]
  constructor
  · dsimp only
    rw [List.map_append]
    rcases map_tag_roster "groups" "group" _ with hr | hr
    · rw [hr, List.append_nil]
      exact hsub.nodup h.nodup
    · rw [hr]
      refine List.nodup_append.mpr ⟨hsub.nodup h.nodup, by simp, fun a ha b hb he => ?_⟩
      rw [he, List.mem_singleton.mp hb] at ha
      exact hnone ha
  · intro tag ht
    dsimp only at ht
    rw [List.map_append] at ht
    rcases List.mem_append.mp ht with ht | ht
    · exact h.mem tag (hsub.subset ht)
    · obtain ⟨c, hc, rfl⟩ := List.mem_map.mp ht
      rw [tag_of_mem_roster hc]
      decide

theorem rollupApplications (h : Laid root) : Laid root.rollupApplications := by
  have htags := map_tag_changeScopes root collectApplications
  exact ⟨by rw [Node.rollupApplications, htags]; exact h.nodup, by rw [Node.rollupApplications, htags]; exact h.mem⟩

end Laid

@[simp] theorem tag_gather (root : Node) : root.gather.tag = root.tag := by
  have htag : ∀ n : Node, n.rollupApplications.tag = n.tag := fun _ => rfl
  rw [gather, tag_orderRoot, htag, tag_rollupGroups, tag_hoist, tag_hoist]

/-- A gathered document is in order, no container at its root is bare, and its hosts and templates have
no graphs and no triggers of their own. -/
theorem gather_shape (h : Laid root) : (root.gather.children.map (·.tag)).Sublist rootOrder ∧
    (∀ c ∈ root.gather.children, isBareContainer c = false) ∧
    ∀ scope ∈ root.gather.scopes, ∀ tag ∈ ["graphs", "triggers"], scope.childrenNamed tag = [] := by
  refine ⟨?_, fun c hc => (mem_orderRoot.mp hc).2, fun scope hscope tag ht => ?_⟩
  · exact sublist_orderRoot ((h.hoist (by decide)).hoist (by decide)).rollupGroups.rollupApplications
  · rw [scopes_gather] at hscope
    obtain ⟨old, _, rfl⟩ := List.mem_map.mp hscope
    exact childrenNamed_settled ht

end MonitorExport.Node
