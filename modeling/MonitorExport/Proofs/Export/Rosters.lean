import MonitorExport.Proofs.Export.Scopes
import MonitorExport.Proofs.Export.Trees

/-!
# Names that are gathered

Groups and applications are gathered by their names: those in all containers of a tag, wherever they stand, each
once. Gathering them a second time finds the names in the same order, since those before the place of the first
gathering are first there too.
-/

namespace MonitorExport.Node

variable {names seen : List String} {name : String}

/-! ## Each name once -/

/-- Names added to names that were seen before. -/
def addSeen (seen names : List String) : List String :=
  names.foldl (fun seen name => if name ∈ seen then seen else seen ++ [name]) seen

theorem firstSeen_eq (names : List String) : firstSeen names = addSeen [] names := rfl

@[simp] theorem addSeen_nil (seen : List String) : addSeen seen [] = seen := rfl

theorem addSeen_cons (seen names : List String) (name : String) :
    addSeen seen (name :: names) = addSeen (if name ∈ seen then seen else seen ++ [name]) names :=
  rfl

theorem addSeen_append (seen names more : List String) :
    addSeen seen (names ++ more) = addSeen (addSeen seen names) more :=
  List.foldl_append

theorem mem_addSeen : name ∈ addSeen seen names ↔ name ∈ seen ∨ name ∈ names := by
  induction names generalizing seen with
  | nil => simp
  | cons first names ih =>
      rw [addSeen_cons, ih, List.mem_cons]
      split
      · next h =>
        constructor
        · exact fun h' => h'.imp_right .inr
        · rintro (h' | rfl | h')
          · exact .inl h'
          · exact .inl h
          · exact .inr h'
      · simp [or_assoc]

theorem nodup_addSeen (h : seen.Nodup) : (addSeen seen names).Nodup := by
  induction names generalizing seen with
  | nil => exact h
  | cons first names ih =>
      rw [addSeen_cons]
      split
      · exact ih h
      · next hn => exact ih (List.nodup_append.mpr ⟨h, by simp, fun x hx y hy he => hn (by simp_all)⟩)

theorem prefix_addSeen : seen <+: addSeen seen names := by
  induction names generalizing seen with
  | nil => exact List.prefix_rfl
  | cons first names ih =>
      rw [addSeen_cons]
      split
      · exact ih
      · exact (List.prefix_append _ _).trans ih

theorem addSeen_of_subset (h : names ⊆ seen) : addSeen seen names = seen := by
  induction names with
  | nil => rfl
  | cons first names ih =>
      rw [addSeen_cons, if_pos (h (by simp))]
      exact ih fun x hx => h (by simp [hx])

theorem addSeen_of_nodup (h : (seen ++ names).Nodup) : addSeen seen names = seen ++ names := by
  induction names generalizing seen with
  | nil => simp
  | cons first names ih =>
      have hn : first ∉ seen := fun hmem => (List.nodup_append.mp h).2.2 first hmem first (by simp) rfl
      rw [addSeen_cons, if_neg hn, ih (by simpa using h)]
      simp

theorem mem_firstSeen : name ∈ firstSeen names ↔ name ∈ names := by
  rw [firstSeen_eq, mem_addSeen]
  simp

theorem nodup_firstSeen (names : List String) : (firstSeen names).Nodup := nodup_addSeen .nil

/-- What was seen first in a list is seen first when it takes the place of a part of that list. -/
theorem firstSeen_replaced (before between after : List String) :
    firstSeen (before ++ firstSeen (before ++ between ++ after) ++ after) =
      firstSeen (before ++ between ++ after) := by
  obtain ⟨fresh, hfresh⟩ : ∃ fresh, firstSeen before ++ fresh = firstSeen (before ++ between ++ after) := by
    rw [List.append_assoc, firstSeen_eq (before ++ _), addSeen_append]
    exact prefix_addSeen
  have hnodup := nodup_firstSeen (before ++ between ++ after)
  rw [← hfresh] at hnodup
  have hafter : after ⊆ firstSeen before ++ fresh := fun x hx => by
    rw [hfresh, mem_firstSeen]
    simp [hx]
  calc firstSeen (before ++ firstSeen (before ++ between ++ after) ++ after)
      = addSeen (addSeen (addSeen (firstSeen before) (firstSeen before)) fresh) after := by
        rw [← hfresh]
        simp only [firstSeen_eq, addSeen_append]
    _ = addSeen (addSeen (firstSeen before) fresh) after := by rw [addSeen_of_subset (List.Subset.refl _)]
    _ = addSeen (firstSeen before ++ fresh) after := by rw [addSeen_of_nodup hnodup]
    _ = firstSeen (before ++ between ++ after) := by rw [addSeen_of_subset hafter, hfresh]

/-! ## Names below an element -/

variable {container member container' member' tag : String} {n m : Node} {ns : List Node}

theorem group_ne_star : "group" ≠ "*" := by decide

theorem application_ne_star : "application" ≠ "*" := by decide

/-- The names of an element that is a member. -/
def ownNames (member : String) (n : Node) : List String :=
  if n.tag = member then (n.childrenNamed "name").filterMap (·.text) else []

/-- The names of the members of an element that is a container. -/
def listed (container member : String) (n : Node) : List String :=
  if n.tag = container then n.children.flatMap (ownNames member) else []

/-- The names in an element and below it. -/
def found (container member : String) (n : Node) : List String :=
  listed container member n ++ nestedNames container member n

theorem filterMap_follow (h : member ≠ "*") (n : Node) :
    (follow [member, "name"] [n]).filterMap (·.text) = n.children.flatMap (ownNames member) := by
  have hsegment : ∀ {segment : String}, segment ≠ "*" → ∀ c : Node,
      segmentMatches segment c.tag = decide (c.tag = segment) := fun hs c => by
    simp [segmentMatches, hs]
  simp only [follow, List.foldl_cons, List.foldl_nil, hsegment h, hsegment (by decide : "name" ≠ "*"),
    List.flatMap_cons, List.flatMap_nil, List.append_nil]
  induction n.children with
  | nil => rfl
  | cons c cs ih =>
      rw [List.flatMap_cons, ← ih, ownNames, List.filter_cons]
      by_cases hc : c.tag = member
      · simp [hc, childrenNamed]
      · simp [hc]

theorem nestedNames_eq (h : member ≠ "*") (n : Node) :
    nestedNames container member n = n.children.flatMap (found container member) := by
  have hlisted : ∀ d : Node, d.tag = container →
      (follow [member, "name"] [d]).filterMap (·.text) = listed container member d := fun d hd => by
    rw [filterMap_follow h, listed, if_pos hd]
  suffices key : ∀ ns : List Node, ((withDescendants ns).filter fun d => d.tag = container).flatMap (fun d =>
      (follow [member, "name"] [d]).filterMap (·.text)) = ns.flatMap (found container member) by
    cases n
    exact key _
  intro ns
  induction ns with
  | nil => rfl
  | cons n ns ih =>
      rw [withDescendants, List.cons_append, List.filter_cons, List.filter_append, List.flatMap_cons, ← ih, found,
        nestedNames]
      by_cases hn : n.tag = container
      · simp [hn, hlisted n hn]
      · simp [hn, listed]

theorem nestedNames_of_childless (h : n.children = []) : nestedNames container member n = [] := by
  cases n
  cases h
  rfl

theorem found_of_childless (h : n.children = []) : found container member n = [] := by
  simp [found, nestedNames_of_childless h, listed, h]

theorem found_of_flat (hm : member ≠ "*") (h : ∀ c ∈ n.children, c.children = []) : found container member n = [] := by
  have hown : ∀ c ∈ n.children, ownNames member c = [] := fun c hc => by
    simp [ownNames, childrenNamed, h c hc]
  have hfound : ∀ c ∈ n.children, found container member c = [] := fun c hc => found_of_childless (h c hc)
  rw [found, nestedNames_eq hm, listed, List.flatMap_eq_nil_iff.mpr hown, List.flatMap_eq_nil_iff.mpr hfound]
  simp

theorem found_of_ne (h : n.tag ≠ container) : found container member n = nestedNames container member n := by
  simp [found, listed, h]

/-! ## Containers of names -/

theorem children_nameContainer (names : List String) : (nameContainer container member names).children =
    names.map fun name => ofChildren member [leaf "name" name] :=
  rfl

theorem found_named (hm : member' ≠ "*") (name : String) :
    found container' member' (ofChildren member [leaf "name" name]) = [] := by
  refine found_of_flat hm fun d hd => ?_
  rw [List.mem_singleton.mp hd]
  rfl

theorem found_nameContainer_ne (hm : member' ≠ "*") (hc : container' ≠ container) (names : List String) :
    found container' member' (nameContainer container member names) = [] := by
  rw [found_of_ne (Ne.symm hc), nestedNames_eq hm, children_nameContainer, List.flatMap_eq_nil_iff]
  intro c hmem
  obtain ⟨name, _, rfl⟩ := List.mem_map.mp hmem
  exact found_named hm name

theorem found_nameContainer (h : member ≠ "*") (names : List String) :
    found container member (nameContainer container member names) = names := by
  have hown : ∀ name : String, ownNames member (ofChildren member [leaf "name" name]) = [name] := fun name => by
    simp [ownNames, childrenNamed, ofChildren, leaf]
  have htag : (nameContainer container member names).tag = container := rfl
  rw [found, nestedNames_eq h, listed, if_pos htag, children_nameContainer, List.flatMap_map, List.flatMap_map]
  simp [hown, found_named h]

/-! ## Leaving elements out -/

section Cut

variable {p : Test} {above : List String}

theorem flatMap_cut {φ : Node → List String} {cs : List Node} (hp : p.OnLeaves)
    (hleaf : ∀ c ∈ cs, c.children = [] → φ c = []) (hcut : ∀ c ∈ cs, φ (c.cut p above) = φ c) :
    ((cs.filter fun c => !p above c).map (cut p above)).flatMap φ = cs.flatMap φ := by
  induction cs with
  | nil => rfl
  | cons c cs ih =>
      have ih := ih (fun d hd => hleaf d (by simp [hd])) fun d hd => hcut d (by simp [hd])
      rw [List.filter_cons]
      cases hpc : p above c with
      | true => simp [ih, hleaf c (by simp) (hp above c hpc).1]
      | false => simp [ih, hcut c (by simp)]

theorem ownNames_cut (hnames : ∀ above n, p (member :: above) n = false) (n : Node) :
    ownNames member (n.cut p above) = ownNames member n := by
  unfold ownNames
  rw [tag_cut]
  split
  · next hn =>
    have hall : ∀ d ∈ n.children, (!p (n.tag :: above) d) = true := fun d _ => by rw [hn, hnames]; rfl
    have htag : ((fun d : Node => decide (d.tag = "name")) ∘ cut p (n.tag :: above)) =
        fun d => decide (d.tag = "name") := by
      funext d
      simp
    rw [cut_eq, childrenNamed, childrenNamed]
    simp only [List.filter_eq_self.mpr hall, List.filter_map, List.filterMap_map]
    rw [htag]
    exact List.filterMap_congr fun d _ => by simp
  · rfl

/-- Leaving out elements without children keeps the names, if no name of a member is left out. -/
theorem nestedNames_cut (hm : member ≠ "*") (hp : p.OnLeaves) (hnames : ∀ above n, p (member :: above) n = false)
    (n : Node) (above : List String) :
    nestedNames container member (n.cut p above) = nestedNames container member n := by
  induction n using induct generalizing above with
  | h tag text children ih =>
      rw [nestedNames_eq hm, nestedNames_eq hm, cut_eq]
      refine flatMap_cut hp (fun c _ => found_of_childless) fun c hc => ?_
      rw [found, found, ih c hc, listed, listed, tag_cut, cut_eq]
      dsimp only
      rw [flatMap_cut hp (fun d _ hd => by simp [ownNames, childrenNamed, hd]) fun d _ => ownNames_cut hnames d]

end Cut

/-! ## Gathering names -/

/-- The container of names, if there are any. -/
def roster (container member : String) (names : List String) : List Node :=
  if names.isEmpty then [] else [nameContainer container member names]

theorem map_tag_roster (container member : String) (names : List String) :
    (roster container member names).map (·.tag) = [] ∨ (roster container member names).map (·.tag) = [container] := by
  unfold roster
  split
  · exact .inl rfl
  · exact .inr rfl

theorem tag_of_mem_roster (h : n ∈ roster container member names) : n.tag = container := by
  have ht : n.tag ∈ (roster container member names).map (·.tag) := List.mem_map_of_mem h
  rcases map_tag_roster container member names with hr | hr
  · rw [hr] at ht
    cases ht
  · rw [hr] at ht
    exact List.mem_singleton.mp ht

/-- Groups are gathered behind all other children of the root. -/
theorem rollupGroups_eq (root : Node) : root.rollupGroups =
    ⟨root.tag, root.text, (root.children.filter fun c => c.tag ≠ "groups") ++ roster "groups" "group"
      (firstSeen ((root.children.filter fun c => c.tag ≠ "groups").flatMap (nestedNames "groups" "group")))⟩ := by
  unfold rollupGroups roster
  dsimp only
  split
  · simp [withoutChildren]
  · rfl

@[simp] theorem tag_rollupGroups (root : Node) : root.rollupGroups.tag = root.tag := by rw [rollupGroups_eq]

/-- Elements with the first one of a tag replaced, or with one more. -/
def putFirst (tag : String) (m : Node) (ns : List Node) : List Node :=
  if ns.any fun n => n.tag = tag then changeFirst tag (fun _ => m) ns else ns ++ [m]

theorem changeFirst_split {f : Node → Node} (h : ∃ n ∈ ns, n.tag = tag) : ∃ before n after,
    ns = before ++ n :: after ∧ changeFirst tag f ns = before ++ f n :: after ∧ (∀ k ∈ before, k.tag ≠ tag) ∧
      n.tag = tag := by
  induction ns with
  | nil => simp at h
  | cons n ns ih =>
      rw [changeFirst]
      split
      · next hn => exact ⟨[], n, ns, rfl, rfl, by simp, hn⟩
      · next hn =>
        obtain ⟨before, k, after, hns, hchanged, hbefore, hk⟩ := ih (by simpa [hn] using h)
        refine ⟨n :: before, k, after, by simp [hns], by simp [hchanged], fun j hj => ?_, hk⟩
        rcases List.mem_cons.mp hj with rfl | hj
        · exact hn
        · exact hbefore j hj

/-- What is put in the place of the first element of a tag, and what was there. -/
theorem putFirst_split (tag : String) (m : Node) (ns : List Node) : ∃ before old after,
    ns = before ++ old ++ after ∧ putFirst tag m ns = before ++ m :: after ∧ (∀ k ∈ before, k.tag ≠ tag) ∧
      (old = [] ∧ after = [] ∨ ∃ n, old = [n] ∧ n.tag = tag) := by
  unfold putFirst
  split
  · next h =>
    obtain ⟨before, n, after, hns, hchanged, hbefore, hn⟩ := changeFirst_split (f := fun _ => m) (by simpa using h)
    exact ⟨before, [n], after, by simp [hns], hchanged, hbefore, .inr ⟨n, rfl, hn⟩⟩
  · next h => exact ⟨ns, [], [], by simp, rfl, by simpa using h, .inl ⟨rfl, rfl⟩⟩

theorem putFirst_replaced {before after : List Node} {m m' : Node} (hbefore : ∀ k ∈ before, k.tag ≠ tag)
    (hm : m.tag = tag) : putFirst tag m' (before ++ m :: after) = before ++ m' :: after := by
  have hany : (before ++ m :: after).any (fun n => n.tag = tag) = true := by simp [hm]
  rw [putFirst, if_pos hany]
  induction before with
  | nil => simp [changeFirst, hm]
  | cons k before ih =>
      have hk : k.tag ≠ tag := hbefore k (by simp)
      rw [List.cons_append, changeFirst, if_neg hk, ih (fun j hj => hbefore j (by simp [hj])) (by simp [hm])]
      rfl

/-- The names of the applications of a host or template, each once. -/
abbrev applicationNames (scope : Node) : List String :=
  firstSeen (nestedNames "applications" "application" scope)

theorem collectApplications_eq (scope : Node) : scope.collectApplications =
    if applicationNames scope = [] then scope
    else ⟨scope.tag, scope.text,
      putFirst "applications" (nameContainer "applications" "application" (applicationNames scope)) scope.children⟩ := by
  unfold collectApplications
  simp only [List.isEmpty_iff]
  split
  · rfl
  · have hany : (scope.child? "applications").isSome = scope.children.any fun n => n.tag = "applications" := by
      rw [child?, Bool.eq_iff_iff, List.find?_isSome, List.any_eq_true]
    simp only [hany, putFirst]
    split <;> rfl

@[simp] theorem tag_collectApplications (scope : Node) : scope.collectApplications.tag = scope.tag := by
  rw [collectApplications_eq]
  split <;> rfl

theorem applicationNames_collect (scope : Node) :
    applicationNames scope.collectApplications = applicationNames scope := by
  rw [collectApplications_eq]
  split
  · rfl
  · obtain ⟨before, old, after, hchildren, hput, _, _⟩ := putFirst_split "applications"
      (nameContainer "applications" "application" (applicationNames scope)) scope.children
    have hnames : nestedNames "applications" "application" scope =
        before.flatMap (found "applications" "application") ++ old.flatMap (found "applications" "application") ++
          after.flatMap (found "applications" "application") := by
      rw [nestedNames_eq application_ne_star, hchildren, List.flatMap_append, List.flatMap_append]
    rw [applicationNames, nestedNames_eq application_ne_star]
    dsimp only
    rw [hput, List.flatMap_append, List.flatMap_cons, found_nameContainer application_ne_star, applicationNames,
      hnames, ← List.append_assoc, firstSeen_replaced]

theorem collect_collect (scope : Node) :
    scope.collectApplications.collectApplications = scope.collectApplications := by
  rw [collectApplications_eq scope.collectApplications, applicationNames_collect]
  split
  · rfl
  · next hnames =>
    rw [collectApplications_eq, if_neg hnames]
    dsimp only
    obtain ⟨before, old, after, _, hput, hbefore, _⟩ := putFirst_split "applications"
      (nameContainer "applications" "application" (applicationNames scope)) scope.children
    rw [hput, putFirst_replaced hbefore rfl]

theorem filter_putFirst_ne {m : Node} (hm : m.tag = tag) {other : String} (h : other ≠ tag) :
    (putFirst tag m ns).filter (fun n => n.tag = other) = ns.filter fun n => n.tag = other := by
  obtain ⟨before, old, after, hns, hput, _, hold⟩ := putFirst_split tag m ns
  rw [hput, hns]
  rcases hold with ⟨rfl, rfl⟩ | ⟨n, rfl, hn⟩
  · simp [hm, Ne.symm h]
  · simp [hm, hn, Ne.symm h]

theorem childrenNamed_collect_ne (scope : Node) (h : tag ≠ "applications") :
    scope.collectApplications.childrenNamed tag = scope.childrenNamed tag := by
  rw [collectApplications_eq]
  split
  · rfl
  · have htag : (nameContainer "applications" "application" (applicationNames scope)).tag = "applications" := rfl
    exact filter_putFirst_ne htag h

/-- What is gathered is the only list of applications, if there was one at most. -/
theorem childrenNamed_collect (scope : Node) (h : (scope.childrenNamed "applications").length ≤ 1)
    (hn : applicationNames scope ≠ []) : scope.collectApplications.childrenNamed "applications" =
      [nameContainer "applications" "application" (applicationNames scope)] := by
  rw [collectApplications_eq, if_neg hn, childrenNamed]
  dsimp only
  obtain ⟨before, old, after, hchildren, hput, hbefore, hold⟩ := putFirst_split "applications"
    (nameContainer "applications" "application" (applicationNames scope)) scope.children
  have hnone : before.filter (fun n => n.tag = "applications") = [] :=
    List.filter_eq_nil_iff.mpr fun k hk => by simpa using hbefore k hk
  have hafter : after.filter (fun n => n.tag = "applications") = [] := by
    rcases hold with ⟨_, rfl⟩ | ⟨n, rfl, hn⟩
    · rfl
    · rw [childrenNamed, hchildren] at h
      simpa [hn, hnone] using h
  rw [hput]
  simp [hnone, hafter, nameContainer, ofChildren]

/-- Gathering applications keeps the names that are found of another roster, if there were none in the
applications. -/
theorem nestedNames_collect (hm : member ≠ "*") (hc : container ≠ "applications") {scope : Node}
    (h : ∀ n ∈ scope.childrenNamed "applications", found container member n = []) :
    nestedNames container member scope.collectApplications = nestedNames container member scope := by
  rw [collectApplications_eq]
  split
  · rfl
  · obtain ⟨before, old, after, hchildren, hput, _, hold⟩ := putFirst_split "applications"
      (nameContainer "applications" "application" (applicationNames scope)) scope.children
    have hnone : old.flatMap (found container member) = [] := by
      rcases hold with ⟨rfl, _⟩ | ⟨n, rfl, hn⟩
      · rfl
      · simpa using h n (List.mem_filter.mpr ⟨by simp [hchildren], by simpa using hn⟩)
    rw [nestedNames_eq hm, nestedNames_eq hm]
    dsimp only
    rw [hput, hchildren]
    simp [hnone, found_nameContainer_ne hm hc]

end MonitorExport.Node
