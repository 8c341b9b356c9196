import Mathlib.Data.List.Forall2
import Mathlib.Data.List.Induction
import Mathlib.Data.List.Perm.Basic
import MonitorExport.Proofs.Export.Rosters

/-!
# Lists of names

The groups that are gathered at the root, and the applications that are gathered in a host or template, are the names
that stand in place below, each once. A container gives its own names before those of the containers in it, so names
come in the order of the document only where no container stands in another.
-/

namespace MonitorExport.Node

variable {root scope n m : Node} {f : Node → Node} {container member name : String} {above names : List String}
  {o : List String × Node}

/-! ## Names in place -/

/-- The text of an element that is the name of a member of a container. -/
def nameAt? (container member : String) (o : List String × Node) : Option String :=
  if o.2.tag = "name" ∧ [member, container] <+: o.1 then o.2.text else none

/-- The names of members of containers below an element, in the order of the document. -/
def namesBelow (container member : String) (above : List String) (n : Node) : List String :=
  (n.inside above).filterMap (nameAt? container member)

theorem inside_eq (above : List String) (n : Node) :
    n.inside above = n.children.flatMap fun c => (n.tag :: above, c) :: c.inside (n.tag :: above) := by
  suffices key : ∀ above cs, insideAll above cs = cs.flatMap fun c => (above, c) :: c.inside above by
    cases n
    exact key _ _
  intro above cs
  induction cs with
  | nil => rfl
  | cons c cs ih => rw [insideAll, ih, List.flatMap_cons]

theorem mem_inside_of_child {c : Node} (hc : c ∈ n.children) (h : o ∈ c.inside (n.tag :: above)) :
    o ∈ n.inside above := by
  rw [inside_eq]
  exact List.mem_flatMap.mpr ⟨c, hc, List.mem_cons_of_mem _ h⟩

/-- An element is above all that are below it. -/
theorem tag_mem_of_inside (h : o ∈ n.inside above) : n.tag ∈ o.1 := by
  suffices key : ∀ above, n.tag ∈ above → ∀ m : Node, o ∈ m.inside above → n.tag ∈ o.1 by
    rw [inside_eq, List.mem_flatMap] at h
    obtain ⟨c, _, hc⟩ := h
    rcases List.mem_cons.mp hc with rfl | hc
    · exact List.mem_cons_self
    · exact key _ List.mem_cons_self c hc
  intro above hmem m
  induction m using induct generalizing above with
  | h tag text children ih =>
      rw [inside_eq, List.mem_flatMap]
      rintro ⟨c, hc, ho⟩
      rcases List.mem_cons.mp ho with rfl | ho
      · exact List.mem_cons_of_mem _ hmem
      · exact ih c hc _ (List.mem_cons_of_mem _ hmem) ho

theorem namesBelow_eq (container member : String) (above : List String) (n : Node) :
    namesBelow container member above n = n.children.flatMap fun c =>
      (nameAt? container member (n.tag :: above, c)).toList ++ namesBelow container member (n.tag :: above) c := by
  rw [namesBelow, inside_eq, List.filterMap_flatMap]
  refine List.flatMap_congr fun c _ => ?_
  rw [List.filterMap_cons, namesBelow]
  cases nameAt? container member (n.tag :: above, c) <;> rfl

/-- The names of an element itself, if it is a member of a container. -/
theorem flatMap_nameAt (container member : String) (above : List String) (n : Node) :
    (n.children.flatMap fun c => (nameAt? container member (n.tag :: above, c)).toList) =
      if above.head? = some container then ownNames member n else [] := by
  have hpath : [member, container] <+: n.tag :: above ↔ n.tag = member ∧ above.head? = some container := by
    cases above <;> simp [eq_comm]
  have hself : ∀ cs : List Node, (cs.flatMap fun c => if c.tag = "name" then c.text.toList else []) =
      (cs.filter fun c => c.tag = "name").filterMap (·.text) := fun cs => by
    induction cs with
    | nil => rfl
    | cons c cs ih =>
        rw [List.flatMap_cons, ih, List.filter_cons]
        by_cases hc : c.tag = "name"
        · cases ht : c.text <;> simp [hc, ht]
        · simp [hc]
  simp only [nameAt?, hpath, ownNames, childrenNamed]
  by_cases hn : n.tag = member ∧ above.head? = some container
  · rw [if_pos hn.2, if_pos hn.1, ← hself]
    refine List.flatMap_congr fun c _ => ?_
    by_cases hc : c.tag = "name" <;> simp [hc, hn]
  · have hnone : (if above.head? = some container then if n.tag = member then
        (n.children.filter fun c => c.tag = "name").filterMap (·.text) else [] else []) = [] := by
      by_cases ha : above.head? = some container
      · rw [if_pos ha, if_neg fun ht => hn ⟨ht, ha⟩]
      · rw [if_neg ha]
    rw [hnone]
    simp [hn]

/-- The names in place are those that a scan of the containers finds, if not in that order. -/
theorem namesBelow_perm (hm : member ≠ "*") (above : List String) (n : Node) :
    (namesBelow container member above n).Perm
      ((if above.head? = some container then ownNames member n else []) ++ found container member n) := by
  induction n using induct generalizing above with
  | h tag text children ih =>
      have hchildren : (children.flatMap (namesBelow container member (tag :: above))).Perm
          (found container member ⟨tag, text, children⟩) := by
        have hlisted : listed container member ⟨tag, text, children⟩ =
            children.flatMap fun c => if (tag :: above).head? = some container then ownNames member c else [] := by
          simp only [listed, List.head?_cons, Option.some.injEq]
          by_cases ht : tag = container <;> simp [ht]
        rw [found, nestedNames_eq hm, hlisted]
        refine List.Perm.trans ?_ (List.flatMap_append_perm ..).symm
        exact List.Perm.flatMap_left _ fun c hc => ih c hc _
      rw [namesBelow_eq]
      refine (List.flatMap_append_perm ..).symm.trans ?_
      rw [flatMap_nameAt]
      exact hchildren.append_left _

/-! ## Containers that are not nested -/

/-- Whether no container of a tag stands in another one below an element. -/
def Unnested (container : String) (n : Node) : Prop :=
  ∀ o ∈ n.inside [], o.2.tag = container → container ∉ o.1

theorem nestedNames_of_no_container (h : ∀ o ∈ n.inside above, o.2.tag ≠ container) :
    nestedNames container member n = [] := by
  have hnone : n.descendants.filter (fun d => d.tag = container) = [] := List.filter_eq_nil_iff.mpr fun d hd => by
    rw [← map_inside n above] at hd
    obtain ⟨o, ho, rfl⟩ := List.mem_map.mp hd
    simpa using h o ho
  rw [nestedNames, hnone]
  rfl

/-- Below a member of a container that holds no container, there are its own names alone. -/
theorem namesBelow_of_member (hm : member ≠ "*") (hn : n.tag ≠ container)
    (h : ∀ o ∈ n.inside (container :: above), o.2.tag ≠ container) :
    namesBelow container member (container :: above) n = ownNames member n := by
  have hnone : ∀ c ∈ n.children, namesBelow container member (n.tag :: container :: above) c = [] := fun c hc => by
    have hhead : (n.tag :: container :: above).head? ≠ some container := by simpa using hn
    have hc' : c.tag ≠ container := h (n.tag :: container :: above, c) (by
      rw [inside_eq]
      exact List.mem_flatMap.mpr ⟨c, hc, List.mem_cons_self⟩)
    have hperm : (namesBelow container member (n.tag :: container :: above) c).Perm _ := namesBelow_perm hm _ c
    rw [if_neg hhead, List.nil_append, found_of_ne hc',
      nestedNames_of_no_container fun o ho => h o (mem_inside_of_child hc ho)] at hperm
    exact hperm.eq_nil
  rw [namesBelow_eq, List.flatMap_congr fun c hc => by rw [hnone c hc, List.append_nil], flatMap_nameAt]
  simp

theorem namesBelow_of_container (hm : member ≠ "*") (hne : member ≠ container) (hn : n.tag = container)
    (h : ∀ o ∈ n.inside above, o.2.tag ≠ container) :
    namesBelow container member above n = listed container member n := by
  rw [namesBelow_eq, listed, if_pos hn]
  refine List.flatMap_congr fun c hc => ?_
  have hc' : c.tag ≠ container := h (n.tag :: above, c) (by
    rw [inside_eq]
    exact List.mem_flatMap.mpr ⟨c, hc, List.mem_cons_self⟩)
  have hnot : nameAt? container member (n.tag :: above, c) = none := by
    rw [nameAt?, if_neg]
    rintro ⟨_, hpath⟩
    rw [hn, List.cons_prefix_cons] at hpath
    exact hne hpath.1
  rw [hnot, Option.toList_none, List.nil_append, hn]
  exact namesBelow_of_member hm hc' fun o ho => h o (mem_inside_of_child hc (hn ▸ ho))

/-- Where no container stands in another, a scan finds the names in the order of the document. -/
theorem namesBelow_of_unnested (hm : member ≠ "*") (hne : member ≠ container) (hn : container ∉ n.tag :: above)
    (h : ∀ o ∈ n.inside above, o.2.tag = container → container ∉ o.1) :
    namesBelow container member above n = nestedNames container member n := by
  induction n using induct generalizing above with
  | h tag text children ih =>
      rw [namesBelow_eq, nestedNames_eq hm]
      refine List.flatMap_congr fun c hc => ?_
      have hnot : nameAt? container member (tag :: above, c) = none := by
        rw [nameAt?, if_neg]
        rintro ⟨_, hpath⟩
        exact hn (hpath.subset (by simp))
      have hbelow : ∀ o ∈ c.inside (tag :: above), o.2.tag = container → container ∉ o.1 := fun o ho =>
        h o (mem_inside_of_child (n := ⟨tag, text, children⟩) hc ho)
      rw [hnot, Option.toList_none, List.nil_append]
      by_cases ht : c.tag = container
      · have hnone : ∀ o ∈ c.inside (tag :: above), o.2.tag ≠ container := fun o ho ho' =>
          hbelow o ho ho' (ht ▸ tag_mem_of_inside ho)
        rw [namesBelow_of_container hm hne ht hnone, found, nestedNames_of_no_container hnone, List.append_nil]
      · rw [found_of_ne ht]
        refine ih c hc (fun hmem => ?_) hbelow
        rcases List.mem_cons.mp hmem with heq | hmem
        · exact ht heq.symm
        · exact hn hmem

/-! ## Each once -/

/-- Whether names are those of a list, each once, in the order in which they come first there. -/
structure EachOnce (all names : List String) : Prop where
  mem_iff : ∀ name, name ∈ names ↔ name ∈ all
  order : names.Pairwise fun a b => all.idxOf a < all.idxOf b

theorem eachOnce_firstSeen (all : List String) : EachOnce all (firstSeen all) := by
  refine ⟨fun name => mem_firstSeen, ?_⟩
  induction all using List.reverseRecOn with
  | nil => exact .nil
  | append_singleton all last ih =>
      have hidx : ∀ name ∈ all, (all ++ [last]).idxOf name = all.idxOf name := fun name h => List.idxOf_append_of_mem h
      have hkept : (firstSeen all).Pairwise fun a b => (all ++ [last]).idxOf a < (all ++ [last]).idxOf b :=
        ih.imp_of_mem fun {a b} ha hb hab => by
          rwa [hidx a (mem_firstSeen.mp ha), hidx b (mem_firstSeen.mp hb)]
      rw [firstSeen_eq, addSeen_append, addSeen_cons, addSeen_nil, ← firstSeen_eq]
      split
      · exact hkept
      · next hn =>
        refine List.pairwise_append.mpr ⟨hkept, List.pairwise_singleton _ _, fun a ha b hb => ?_⟩
        rw [mem_firstSeen] at ha hn
        rw [List.mem_singleton.mp hb, hidx a ha, List.idxOf_append_of_notMem hn]
        exact Nat.lt_of_lt_of_le (List.idxOf_lt_length_of_mem ha) (Nat.le_add_right _ _)

/-- Whether names are those in place below some elements, each once, in the order in which a scan of their containers
finds them: containers in the order of the document, each with its own names first. -/
structure Gathers (container member : String) (ns : List Node) (names : List String) : Prop where
  mem_iff : ∀ name, name ∈ names ↔ ∃ n ∈ ns, name ∈ namesBelow container member [] n
  scanned : EachOnce (ns.flatMap (nestedNames container member)) names
  ordered : (∀ n ∈ ns, Unnested container n) → EachOnce (ns.flatMap (namesBelow container member [])) names

theorem mem_namesBelow (hm : member ≠ "*") (hn : n.tag ≠ container) :
    name ∈ namesBelow container member [] n ↔ name ∈ nestedNames container member n := by
  rw [(namesBelow_perm hm [] n).mem_iff, found_of_ne hn]
  simp

theorem gathers_firstSeen {ns : List Node} (hm : member ≠ "*") (hne : member ≠ container)
    (hns : ∀ n ∈ ns, n.tag ≠ container) :
    Gathers container member ns (firstSeen (ns.flatMap (nestedNames container member))) where
  mem_iff name := by
    rw [mem_firstSeen, List.mem_flatMap]
    exact exists_congr fun n => and_congr_right fun hn => (mem_namesBelow hm (hns n hn)).symm
  scanned := eachOnce_firstSeen _
  ordered h := by
    have hsame : ns.flatMap (namesBelow container member []) = ns.flatMap (nestedNames container member) :=
      List.flatMap_congr fun n hn =>
        namesBelow_of_unnested hm hne (by simpa using (hns n hn).symm) (h n hn)
    rw [hsame]
    exact eachOnce_firstSeen _

/-! ## Groups at the root -/

/-- Whether a document comes from another one by gathering its groups at the root: its other children stay, and one
list of the names in them comes last, if there are any. -/
structure GroupsGathered (root out : Node) : Prop where
  tag : out.tag = root.tag
  text : out.text = root.text
  children : ∃ names, Gathers "groups" "group" (root.children.filter fun c => c.tag ≠ "groups") names ∧
    out.children = (root.children.filter fun c => c.tag ≠ "groups") ++ roster "groups" "group" names

theorem rollupGroups_gathered (root : Node) : GroupsGathered root root.rollupGroups where
  tag := tag_rollupGroups root
  text := by rw [rollupGroups_eq]
  children := by
    refine ⟨_, gathers_firstSeen group_ne_star (by decide) fun n hn => ?_, by rw [rollupGroups_eq]⟩
    simpa using (List.mem_filter.mp hn).2

theorem rollupGroups_rollupGroups (root : Node) : root.rollupGroups.rollupGroups = root.rollupGroups := by
  have hothers : root.rollupGroups.children.filter (fun c => c.tag ≠ "groups") =
      root.children.filter fun c => c.tag ≠ "groups" := by
    have hroster : ∀ names, (roster "groups" "group" names).filter (fun c => c.tag ≠ "groups") = [] := fun names =>
      List.filter_eq_nil_iff.mpr fun c hc => by simpa using tag_of_mem_roster hc
    rw [rollupGroups_eq, List.filter_append, hroster, List.append_nil]
    simp
  rw [rollupGroups_eq root.rollupGroups, hothers]
  simp only [rollupGroups_eq root]

/-! ## Applications of hosts and templates -/

/-- Whether a host or template comes from another one by gathering the applications in it: it stays as it was if it
has none, and else one list of their names stands in the place of the first one, or at the end. -/
structure ApplicationsListed (scope out : Node) : Prop where
  tag : out.tag = scope.tag
  text : out.text = scope.text
  children : ∃ names, Gathers "applications" "application" [scope] names ∧
    (names = [] → out.children = scope.children) ∧
    (names ≠ [] → ∀ before n after, scope.children = before ++ n :: after → (∀ m ∈ before, m.tag ≠ "applications") →
      n.tag = "applications" →
      out.children = before ++ nameContainer "applications" "application" names :: after) ∧
    (names ≠ [] → (∀ m ∈ scope.children, m.tag ≠ "applications") →
      out.children = scope.children ++ [nameContainer "applications" "application" names])

theorem putFirst_of_none {tag : String} {ns : List Node} (h : ∀ k ∈ ns, k.tag ≠ tag) :
    putFirst tag m ns = ns ++ [m] := by
  rw [putFirst, if_neg (by simpa using h)]

theorem collectApplications_listed (h : scope.tag ≠ "applications") :
    ApplicationsListed scope scope.collectApplications where
  tag := tag_collectApplications scope
  text := by
    rw [collectApplications_eq]
    split <;> rfl
  children := by
    have hgathers : Gathers "applications" "application" [scope] (applicationNames scope) := by
      have hone : Gathers "applications" "application" [scope]
          (firstSeen ([scope].flatMap (nestedNames "applications" "application"))) :=
        gathers_firstSeen application_ne_star (by decide) (by simpa using h)
      rwa [List.flatMap_singleton] at hone
    refine ⟨applicationNames scope, hgathers, fun hnone => ?_, fun hsome before n after hsplit hbefore hn => ?_,
      fun hsome hnot => ?_⟩
    · rw [collectApplications_eq, if_pos hnone]
    · rw [collectApplications_eq, if_neg hsome]
      dsimp only
      rw [hsplit, putFirst_replaced hbefore hn]
    · rw [collectApplications_eq, if_neg hsome]
      exact putFirst_of_none hnot

/-- Whether a child of the root is as it was, but for the applications of the hosts or templates it holds. -/
structure HeldListed (n n' : Node) : Prop where
  tag : n'.tag = n.tag
  text : n'.text = n.text
  children : List.Forall₂
    (fun c c' => if (n.tag, c.tag) ∈ scopeContainers then ApplicationsListed c c' else c' = c) n.children n'.children

/-- Whether a document comes from another one by gathering the applications in each host and template. -/
structure ApplicationsGathered (root out : Node) : Prop where
  tag : out.tag = root.tag
  text : out.text = root.text
  children : List.Forall₂ HeldListed root.children out.children

theorem changeHeld_listed (n : Node) : HeldListed n (changeHeld collectApplications n) where
  tag := rfl
  text := rfl
  children := by
    refine List.forall₂_map_right_iff.mpr (List.forall₂_same.mpr fun c _ => ?_)
    split
    · next hscope =>
      refine collectApplications_listed fun hc => ?_
      simp [scopeContainers, hc] at hscope
    · rfl

theorem rollupApplications_gathered (root : Node) : ApplicationsGathered root root.rollupApplications where
  tag := rfl
  text := rfl
  children := by
    rw [rollupApplications, children_changeScopes_map]
    exact List.forall₂_map_right_iff.mpr (List.forall₂_same.mpr fun n _ => changeHeld_listed n)

theorem rollupApplications_rollupApplications (root : Node) :
    root.rollupApplications.rollupApplications = root.rollupApplications := by
  refine changeScopes_id fun scope hscope => ?_
  rw [rollupApplications, scopes_changeScopes tag_collectApplications] at hscope
  obtain ⟨before, _, rfl⟩ := List.mem_map.mp hscope
  exact collect_collect before

/-! ## What is gathered -/

/-- Groups and applications are gathered without a loss, and gathering them again changes nothing. -/
theorem rollups_gather (root : Node) :
    GroupsGathered root root.rollupGroups ∧ ApplicationsGathered root root.rollupApplications ∧
      root.rollupGroups.rollupGroups = root.rollupGroups ∧
      root.rollupApplications.rollupApplications = root.rollupApplications :=
  ⟨rollupGroups_gathered root, rollupApplications_gathered root, rollupGroups_rollupGroups root,
    rollupApplications_rollupApplications root⟩

/-- A document with a group that holds groups in front of its own name. -/
def layered : Node := ofChildren "export" [ofChildren "hosts" [ofChildren "host" [
  ofChildren "groups" [ofChildren "group" [
    ofChildren "groups" [ofChildren "group" [leaf "name" "inner"]], leaf "name" "outer"]]]]]

/-- Names need not come in the order of the document: a list gives its own before those of a list in it. -/
theorem layered_names_unordered :
    layered.rollupGroups.children = layered.children ++ [nameContainer "groups" "group" ["outer", "inner"]] ∧
      layered.children.flatMap (namesBelow "groups" "group" []) = ["inner", "outer"] ∧
      ¬ EachOnce (layered.children.flatMap (namesBelow "groups" "group" [])) ["outer", "inner"] := by
  refine ⟨rfl, rfl, fun h => ?_⟩
  have hfirst : ["inner", "outer"].idxOf "outer" < ["inner", "outer"].idxOf "inner" :=
    List.rel_of_pairwise_cons h.order List.mem_cons_self
  exact absurd hfirst (by decide)

end MonitorExport.Node
