import MonitorExport.Proofs.Export.Gathering

/-!
# Gathering once

A document is in normal form when its root is in order, nothing is left to move, and groups and applications
list the names that are found. Gathering gives a normal form if the names of groups are found in hosts and
templates alone, since then no pass changes what was found before; and a normal form is not changed.
-/

namespace MonitorExport.Node

variable {root n : Node} {tag container member : String} {ns moved : List Node} {f : Node → Node}

def isScopeContainer (tag : String) : Bool := (scopeContainers.map (·.1)).contains tag

theorem isScopeContainer_iff : isScopeContainer tag = true ↔ tag ∈ scopeContainers.map (·.1) := List.contains_iff_mem

/-- The names of groups below a child of the root, unless it is the list of groups itself. -/
def groupsOf (n : Node) : List String := if n.tag = "groups" then [] else nestedNames "groups" "group" n

/-- The names of groups that a document is to list. -/
def groupsBelow (root : Node) : List String := root.children.flatMap groupsOf

/-- What is asked of a document that is to be gathered: its children have distinct known tags, templates before
hosts, and the names of groups are found in hosts and templates alone, outside of what is moved or replaced there. -/
structure Loose (root : Node) : Prop where
  laid : Laid root
  order : ((root.children.map (·.tag)).filter isScopeContainer).Pairwise fun a b => rootOrder.idxOf a ≤ rootOrder.idxOf b
  outside : ∀ n ∈ root.children, isScopeContainer n.tag = false → nestedNames "groups" "group" n = []
  inside : ∀ scope ∈ root.scopes, ∀ n ∈ scope.children, n.tag ∈ ["graphs", "triggers", "applications"] →
    found "groups" "group" n = []

theorem groupsOf_of_childless (h : n.children = []) : groupsOf n = [] := by
  unfold groupsOf
  split
  · rfl
  · exact nestedNames_of_childless h

theorem flatMap_filter_of_nil {α β : Type} {φ : α → List β} {p : α → Bool} {l : List α}
    (h : ∀ a ∈ l, p a = false → φ a = []) : (l.filter p).flatMap φ = l.flatMap φ := by
  induction l with
  | nil => rfl
  | cons a l ih =>
      have ih := ih fun b hb => h b (by simp [hb])
      rw [List.filter_cons]
      cases hp : p a with
      | true => simp [ih]
      | false => simp [ih, h a (by simp) hp]

/-! ## Names found after a pass -/

theorem flatMap_changeAll {α : Type} {φ : Node → List α} (h : ∀ n ∈ ns, n.tag = tag → φ (f n) = φ n) :
    (changeAll tag f ns).flatMap φ = ns.flatMap φ := by
  rw [changeAll, List.flatMap_map]
  refine List.flatMap_congr fun n hn => ?_
  split
  · next ht => exact h n hn ht
  · rfl

theorem groupsOf_changeMembers (hf : ∀ n, (f n).tag = n.tag) (hm : member ≠ "groups")
    (hheld : ∀ scope ∈ root.held container member,
      nestedNames "groups" "group" (f scope) = nestedNames "groups" "group" scope) :
    ∀ n ∈ root.children, n.tag = container → groupsOf (changeMembers member f n) = groupsOf n := by
  intro n hn ht
  unfold groupsOf
  rw [tag_changeMembers]
  split
  · rfl
  · rw [nestedNames_eq group_ne_star, nestedNames_eq group_ne_star, changeMembers]
    refine flatMap_changeAll fun m hmem hmt => ?_
    have hscope : m ∈ root.held container member := List.mem_flatMap.mpr
      ⟨n, List.mem_filter.mpr ⟨hn, by simpa using ht⟩, List.mem_filter.mpr ⟨hmem, by simpa using hmt⟩⟩
    have hne : m.tag ≠ "groups" := hmt ▸ hm
    rw [found_of_ne (by rw [hf]; exact hne), found_of_ne hne, hheld m hscope]

/-- Changing hosts and templates keeps the names of groups that are found in each of them. -/
theorem groupsBelow_changeScopes (hf : ∀ n, (f n).tag = n.tag)
    (h : ∀ scope ∈ root.scopes, nestedNames "groups" "group" (f scope) = nestedNames "groups" "group" scope) :
    groupsBelow (root.changeScopes f) = groupsBelow root := by
  -- one change after the other: a child that the first one changed is not in the way of the second
  rw [scopes_eq, List.forall_mem_append] at h
  have hhosts := groupsOf_changeMembers hf (by decide) h.1
  have htemplates := groupsOf_changeMembers hf (by decide) h.2
  rw [groupsBelow, children_changeScopes, flatMap_changeAll, flatMap_changeAll hhosts, groupsBelow]
  intro n hn ht
  rcases mem_changeAll hn with ⟨m, _, hm, rfl⟩ | ⟨hn, _⟩
  · exact absurd (hm.symm.trans ht) (by decide)
  · exact htemplates n hn ht

theorem nestedNames_withoutChildren (hm : member ≠ "*")
    (h : ∀ c ∈ n.children, c.tag = tag → found container member c = []) :
    nestedNames container member (n.withoutChildren tag) = nestedNames container member n := by
  rw [nestedNames_eq hm, nestedNames_eq hm, withoutChildren]
  exact flatMap_filter_of_nil fun c hc ht => h c hc (by simpa using ht)

theorem nestedNames_push (hm : member ≠ "*") (h : ∀ c ∈ moved, found container member c = []) :
    nestedNames container member ⟨n.tag, n.text, n.children ++ moved⟩ = nestedNames container member n := by
  rw [nestedNames_eq hm, nestedNames_eq hm]
  simp [List.flatMap_eq_nil_iff.mpr h]

theorem nestedNames_nameContainer (names : List String) :
    nestedNames "groups" "group" (nameContainer "groups" "group" names) = [] := by
  rw [nestedNames_eq group_ne_star, children_nameContainer, List.flatMap_eq_nil_iff]
  intro c hc
  obtain ⟨name, _, rfl⟩ := List.mem_map.mp hc
  exact found_named group_ne_star name

/-- A child of a host or template with gathered applications is an old one, or lists these. -/
theorem mem_collectApplications {scope : Node} (h : n ∈ scope.collectApplications.children) :
    n ∈ scope.children ∨ n = nameContainer "applications" "application" (applicationNames scope) := by
  rw [collectApplications_eq] at h
  split at h
  · exact .inl h
  · obtain ⟨before, old, after, hchildren, hput, _, _⟩ := putFirst_split "applications"
      (nameContainer "applications" "application" (applicationNames scope)) scope.children
    rw [hchildren]
    dsimp only at h
    rw [hput] at h
    rcases List.mem_append.mp h with h | h
    · exact .inl (by simp [h])
    · rcases List.mem_cons.mp h with h | h
      · exact .inr h
      · exact .inl (by simp [h])

namespace Loose

theorem outside_changeScopes (h : Loose root) (f : Node → Node) : ∀ n ∈ (root.changeScopes f).children,
    isScopeContainer n.tag = false → nestedNames "groups" "group" n = [] := by
  refine forall_changeScopes h.outside fun n _ member hm hout => ?_
  have hin : isScopeContainer n.tag = true := isScopeContainer_iff.mpr (List.mem_map_of_mem hm)
  exact absurd (hin.symm.trans hout) (by decide)

theorem leaving (h : Loose root) (hc : container ∈ ["graphs", "triggers"]) :
    ∀ n ∈ leaving container root, found "groups" "group" n = [] := by
  intro n hn
  obtain ⟨scope, hscope, hn⟩ := List.mem_flatMap.mp hn
  obtain ⟨holder, hholder, hn⟩ := List.mem_flatMap.mp hn
  obtain ⟨hmem, ht⟩ := List.mem_filter.mp hholder
  have ht : holder.tag = container := by simpa using ht
  have hfound := h.inside scope hscope holder hmem (by simp only [ht]; revert hc; simp; tauto)
  rw [found, List.append_eq_nil_iff, nestedNames_eq group_ne_star, List.flatMap_eq_nil_iff] at hfound
  exact hfound.2 n hn

theorem hoist (h : Loose root) (hc : container ∈ ["graphs", "triggers"]) : Loose (Node.hoist container root) := by
  have hscope : isScopeContainer container = false := by
    simp only [List.mem_cons, List.not_mem_nil, or_false] at hc
    rcases hc with rfl | rfl <;> rfl
  have hmem : container ∈ rootOrder := by
    simp only [List.mem_cons, List.not_mem_nil, or_false] at hc
    rcases hc with rfl | rfl <;> decide
  have hnot : container ∉ scopeContainers.map (·.1) := fun hm => by simp [isScopeContainer_iff.mpr hm] at hscope
  refine ⟨h.laid.hoist hmem, ?_, ?_, fun scope hs n hn => ?_⟩
  · rcases map_tag_hoist container root with htags | ⟨_, htags⟩
    · rw [htags]
      exact h.order
    · rw [htags, List.filter_append]
      simpa [hscope] using h.order
  · rw [hoist_eq]
    refine forall_addTo (h.outside_changeScopes _) (fun n hn _ hout => ?_) fun _ => ?_
    · rw [nestedNames_push group_ne_star (h.leaving hc)]
      exact h.outside_changeScopes _ n hn hout
    · rw [nestedNames_eq group_ne_star]
      exact List.flatMap_eq_nil_iff.mpr (h.leaving hc)
  · rw [scopes_hoist hnot] at hs
    obtain ⟨old, hold, rfl⟩ := List.mem_map.mp hs
    exact h.inside old hold n (List.mem_filter.mp hn).1

theorem groupsBelow_hoist (h : Loose root) (hc : container ∈ ["graphs", "triggers"]) :
    groupsBelow (Node.hoist container root) = groupsBelow root := by
  have hleaving := h.leaving hc
  have hscopes : groupsBelow (root.changeScopes (·.withoutChildren container)) = groupsBelow root := by
    refine groupsBelow_changeScopes (fun _ => rfl) fun scope hs => ?_
    refine nestedNames_withoutChildren group_ne_star fun c hmem ht => h.inside scope hs c hmem ?_
    rw [ht]
    revert hc
    simp
    tauto
  rw [← hscopes, hoist_eq, groupsBelow]
  refine flatMap_addTo ?_ fun n _ _ => ?_
  · unfold groupsOf
    rw [nestedNames_eq group_ne_star]
    split
    · rfl
    · exact List.flatMap_eq_nil_iff.mpr hleaving
  · unfold groupsOf
    rw [nestedNames_push group_ne_star hleaving]

theorem rollupGroups (h : Loose root) : Loose root.rollupGroups := by
  refine ⟨h.laid.rollupGroups, ?_, ?_, ?_⟩
  · have hnone : ∀ names, ((roster "groups" "group" names).map (·.tag)).filter isScopeContainer = [] := fun names => by
      rcases map_tag_roster "groups" "group" names with hr | hr <;> rw [hr] <;> rfl
    rw [rollupGroups_eq]
    dsimp only
    rw [List.map_append, List.filter_append, hnone, List.append_nil]
    exact h.order.sublist ((List.filter_sublist.map _).filter _)
  · rw [rollupGroups_eq]
    refine List.forall_mem_append.mpr ⟨fun n hn => h.outside n (List.mem_filter.mp hn).1, fun n hn _ => ?_⟩
    unfold roster at hn
    split at hn
    · cases hn
    · rw [List.mem_singleton.mp hn, nestedNames_nameContainer]
  · rw [scopes_eq, held_rollupGroups (by decide), held_rollupGroups (by decide), ← scopes_eq]
    exact h.inside

theorem rollupApplications (h : Loose root) : Loose root.rollupApplications := by
  refine ⟨h.laid.rollupApplications, ?_, ?_, fun scope hs n hn ht => ?_⟩
  · rw [Node.rollupApplications, map_tag_changeScopes]
    exact h.order
  · exact h.outside_changeScopes _
  · rw [Node.rollupApplications, scopes_changeScopes tag_collectApplications] at hs
    obtain ⟨old, hold, rfl⟩ := List.mem_map.mp hs
    rcases mem_collectApplications hn with hn | rfl
    · exact h.inside old hold n hn ht
    · exact found_nameContainer_ne group_ne_star (by decide) _

theorem groupsBelow_rollupApplications (h : Loose root) : groupsBelow root.rollupApplications = groupsBelow root := by
  refine groupsBelow_changeScopes tag_collectApplications fun scope hs => ?_
  refine nestedNames_collect group_ne_star (by decide) fun n hn => ?_
  obtain ⟨hmem, ht⟩ := List.mem_filter.mp hn
  exact h.inside scope hs n hmem (by simp_all)

theorem groupsBelow_rollupGroups (root : Node) : groupsBelow root.rollupGroups = groupsBelow root := by
  have hnone : ∀ names, (roster "groups" "group" names).flatMap groupsOf = [] := fun names =>
    List.flatMap_eq_nil_iff.mpr fun c hc => by rw [groupsOf, if_pos (tag_of_mem_roster hc)]
  rw [rollupGroups_eq, groupsBelow]
  dsimp only
  rw [List.flatMap_append, hnone, List.append_nil]
  exact flatMap_filter_of_nil fun c _ hc => by rw [groupsOf, if_pos (by simpa using hc)]

theorem groupsBelow_orderRoot (h : Loose root) : groupsBelow root.orderRoot = groupsBelow root := by
  have hnone : ∀ n ∈ root.children, isScopeContainer n.tag = false → groupsOf n = [] := fun n hn ht => by
    unfold groupsOf
    rw [h.outside n hn ht, ite_self]
  have hsorted : ((root.children.filter fun c => !isBareContainer c).filter fun c => isScopeContainer c.tag).Pairwise
      fun a b => rankLE a b = true := by
    have hle := h.order
    rw [List.filter_map, List.pairwise_map] at hle
    exact (hle.imp rankLE_iff.mpr).sublist (List.filter_sublist.filter _)
  calc groupsBelow root.orderRoot
      = (root.orderRoot.children.filter fun c => isScopeContainer c.tag).flatMap groupsOf :=
        (flatMap_filter_of_nil fun c hc => hnone c (mem_orderRoot.mp hc).1).symm
    _ = ((root.children.filter fun c => !isBareContainer c).filter fun c => isScopeContainer c.tag).flatMap groupsOf := by
        rw [children_orderRoot, filter_mergeSort rankLE_trans rankLE_total hsorted]
    _ = (root.children.filter fun c => !isBareContainer c).flatMap groupsOf :=
        flatMap_filter_of_nil fun c hc => hnone c (List.mem_filter.mp hc).1
    _ = groupsBelow root := flatMap_not_bare (fun _ => groupsOf_of_childless) _

theorem groupsBelow_gather (h : Loose root) : groupsBelow root.gather = groupsBelow root := by
  have hgraphs : Loose (Node.hoist "graphs" root) := h.hoist (by decide)
  have htriggers : Loose (Node.hoist "triggers" (Node.hoist "graphs" root)) := hgraphs.hoist (by decide)
  rw [gather, htriggers.rollupGroups.rollupApplications.groupsBelow_orderRoot,
    htriggers.rollupGroups.groupsBelow_rollupApplications, groupsBelow_rollupGroups,
    hgraphs.groupsBelow_hoist (by decide), h.groupsBelow_hoist (by decide)]

end Loose

/-! ## Normal forms -/

/-- Whether the root of a document is in order, nothing is left to move, and groups and applications list the
names that are found. -/
structure Gathered (root : Node) : Prop where
  order : (root.children.map (·.tag)).Sublist rootOrder
  filled : ∀ c ∈ root.children, isBareContainer c = false
  moved : ∀ scope ∈ root.scopes, ∀ tag ∈ ["graphs", "triggers"], scope.childrenNamed tag = []
  groups : root.childrenNamed "groups" = roster "groups" "group" (firstSeen (groupsBelow root))
  applications : ∀ scope ∈ root.scopes, scope.collectApplications = scope

theorem filter_append_of_sublist (h : (ns.map (·.tag)).Sublist rootOrder) :
    (ns.filter fun c => c.tag ≠ "groups") ++ (ns.filter fun c => c.tag = "groups") = ns := by
  have horder : rootOrder = rootOrder.dropLast ++ ["groups"] := rfl
  rw [horder] at h
  obtain ⟨first, last, htags, hfirst, hlast⟩ := List.sublist_append_iff.mp h
  obtain ⟨before, after, rfl, rfl, rfl⟩ := List.map_eq_append_iff.mp htags
  have hb : ∀ c ∈ before, c.tag ≠ "groups" := fun c hc he => by
    have hmem := hfirst.subset (List.mem_map_of_mem (f := Node.tag) hc)
    rw [he] at hmem
    exact absurd hmem (by decide)
  have ha : ∀ c ∈ after, c.tag = "groups" := fun c hc =>
    List.mem_singleton.mp (hlast.subset (List.mem_map_of_mem (f := Node.tag) hc))
  rw [List.filter_append, List.filter_append, List.filter_eq_self.mpr fun c hc => by simpa using hb c hc,
    List.filter_eq_nil_iff.mpr fun c hc => by simp [ha c hc], List.filter_eq_nil_iff.mpr fun c hc => by simp [hb c hc],
    List.filter_eq_self.mpr fun c hc => by simpa using ha c hc]
  simp

theorem groupsBelow_eq (root : Node) : groupsBelow root =
    (root.children.filter fun c => c.tag ≠ "groups").flatMap (nestedNames "groups" "group") := by
  rw [groupsBelow, ← flatMap_filter_of_nil (p := fun c : Node => c.tag ≠ "groups") fun c _ hc => by
    rw [groupsOf, if_pos (by simpa using hc)]]
  refine List.flatMap_congr fun c hc => ?_
  rw [groupsOf, if_neg (by simpa using (List.mem_filter.mp hc).2)]

namespace Gathered

theorem hoist (h : Gathered root) (hc : tag ∈ ["graphs", "triggers"]) : Node.hoist tag root = root :=
  hoist_of_none fun scope hs => h.moved scope hs tag hc

theorem rollupGroups (h : Gathered root) : root.rollupGroups = root := by
  rw [rollupGroups_eq, ← groupsBelow_eq, ← h.groups, childrenNamed, filter_append_of_sublist h.order, with_children]

/-- Gathering leaves a normal form as it is. -/
theorem gather (h : Gathered root) : root.gather = root := by
  rw [Node.gather, h.hoist (by decide), h.hoist (by decide), h.rollupGroups, Node.rollupApplications,
    changeScopes_id h.applications, orderRoot_of_sublist h.order h.filled]

end Gathered

theorem roster_not_bare (names : List String) :
    (roster container member names).filter (fun c => !isBareContainer c) = roster container member names := by
  refine List.filter_eq_self.mpr fun c hc => ?_
  unfold roster at hc
  split at hc
  · cases hc
  · next hn =>
    rw [List.mem_singleton.mp hc]
    have hfull : (nameContainer container member names).children.isEmpty = false := by
      rw [children_nameContainer]
      simpa using hn
    rw [isBareContainer, hfull, Bool.and_false]
    rfl

/-- The groups of a gathered document list the names that are found below the root, each once. -/
theorem Loose.groups_gather (h : Loose root) :
    root.gather.childrenNamed "groups" = roster "groups" "group" (firstSeen (groupsBelow root)) := by
  have hgraphs : Loose (Node.hoist "graphs" root) := h.hoist (by decide)
  have hgroups : ∀ r : Node, r.rollupGroups.childrenNamed "groups" =
      roster "groups" "group" (firstSeen (groupsBelow r)) := fun r => by
    rw [rollupGroups_eq, ← groupsBelow_eq, childrenNamed]
    dsimp only
    rw [List.filter_append, List.filter_eq_nil_iff.mpr fun c hc => by simpa using (List.mem_filter.mp hc).2,
      List.filter_eq_self.mpr fun c hc => by simpa using tag_of_mem_roster hc, List.nil_append]
  rw [gather, childrenNamed_orderRoot, Node.rollupApplications, childrenNamed_changeScopes_of_ne (by decide), hgroups,
    roster_not_bare, hgraphs.groupsBelow_hoist (by decide), h.groupsBelow_hoist (by decide)]

theorem Loose.gathered (h : Loose root) : Gathered root.gather := by
  obtain ⟨horder, hfilled, hmoved⟩ := gather_shape h.laid
  refine ⟨horder, hfilled, hmoved, by rw [h.groups_gather, h.groupsBelow_gather], fun scope hs => ?_⟩
  rw [scopes_gather] at hs
  obtain ⟨old, _, rfl⟩ := List.mem_map.mp hs
  exact collect_collect _

end MonitorExport.Node
