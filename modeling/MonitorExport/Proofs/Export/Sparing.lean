import MonitorExport.Export.Rules.Standard
import MonitorExport.Proofs.Export.NormalForm
import MonitorExport.Proofs.Export.Pruning

/-!
# Elements that pruning spares

The rules of the import format start below hosts, templates, graphs and triggers. So what is above such an
element does not matter to them, and they spare a gathered document if they spare what it was gathered from.
-/

namespace MonitorExport

namespace Node

variable {p q : Test} {above xs ys : List String} {n root : Node} {tag container member : String}

/-- Whether a test is met by no element below the root of a tree. -/
inductive Spared (p : Test) : List String → Node → Prop
  | mk {above : List String} {n : Node} (h : ∀ c ∈ n.children, p (n.tag :: above) c = false)
      (hc : ∀ c ∈ n.children, Spared p (n.tag :: above) c) : Spared p above n

theorem spared_iff : Spared p above n ↔
    ∀ c ∈ n.children, p (n.tag :: above) c = false ∧ Spared p (n.tag :: above) c := by
  constructor
  · rintro ⟨h, hc⟩ c hmem
    exact ⟨h c hmem, hc c hmem⟩
  · exact fun h => .mk (fun c hc => (h c hc).1) fun c hc => (h c hc).2

theorem Spared.cut_eq (h : Spared p above n) : n.cut p above = n := by
  induction h with
  | @mk above n h _ ih =>
      rw [Node.cut_eq, List.filter_eq_self.mpr fun c hc => by rw [h c hc]; rfl, List.map_congr_left ih, List.map_id',
        with_children]

theorem Spared.mono (h : Spared p above n) (hpq : ∀ above n, q above n = true → p above n = true) : Spared q above n := by
  induction h with
  | mk h _ ih =>
      refine .mk (fun c hc => Bool.eq_false_iff.mpr fun hq => ?_) ih
      exact absurd ((h c hc).symm.trans (hpq _ _ hq)) (by decide)

/-- A tree is spared once the elements that meet a test on leaves are left out. -/
theorem spared_cut (h : n.Plain) (hp : p.OnLeaves) (above : List String) : Spared p above (n.cut p above) := by
  induction h generalizing above with
  | @mk tag text children _ hplain ih =>
      refine spared_iff.mpr fun c hc => ?_
      rw [Node.cut_eq] at hc ⊢
      obtain ⟨old, hold, rfl⟩ := List.mem_map.mp hc
      obtain ⟨hmem, hkept⟩ := List.mem_filter.mp hold
      exact ⟨((hplain old hmem).test_cut hp _).trans (by simpa using hkept), ih old hmem _⟩

theorem Spared.childless (h : n.children = []) : Spared p above n := spared_iff.mpr (by simp [h])

/-- Whether it does not matter to a test what is above an element of a tag. -/
def Test.Passes (p : Test) (tag : String) : Prop := ∀ xs ys n, p (xs ++ tag :: ys) n = p xs n

theorem Test.Passes.spared_iff (hp : p.Passes tag) : Spared p (xs ++ tag :: ys) n ↔ Spared p xs n := by
  induction n using induct generalizing xs with
  | h t text children ih =>
      rw [Node.spared_iff, Node.spared_iff]
      refine forall₂_congr fun c hc => ?_
      rw [← List.cons_append, hp, ih c hc]

/-- The tags of the elements that gathering looks at and makes. -/
def markers : List String :=
  ["hosts", "templates", "graphs", "triggers", "groups", "group", "applications", "application"]

theorem container_mem_markers (h : (container, member) ∈ scopeContainers) : container ∈ markers := by
  simp only [scopeContainers, List.mem_cons, Prod.mk.injEq, List.not_mem_nil, or_false] at h
  rcases h with ⟨rfl, _⟩ | ⟨rfl, _⟩ <;> decide

theorem moved_mem_markers (h : tag ∈ ["graphs", "triggers"]) : tag ∈ markers := by
  simp only [List.mem_cons, List.not_mem_nil, or_false] at h
  rcases h with rfl | rfl <;> decide

/-- Whether a test on leaves does not start at a root, and does not look beyond what gathering looks at. -/
structure Test.Tame (p : Test) : Prop where
  onLeaves : p.OnLeaves
  start : ∀ n, p [] n = false
  passes : ∀ tag ∈ markers, p.Passes tag

namespace Test.Tame

variable (hp : p.Tame)

include hp

/-- Below an element that a test passes, only its children matter. -/
theorem spared_below (ht : p.Passes n.tag) : Spared p above n ↔ ∀ c ∈ n.children, Spared p [] c := by
  rw [spared_iff]
  refine forall₂_congr fun c _ => ?_
  have hc : p (n.tag :: above) c = false := (ht [] above c).trans (hp.start c)
  have hs : Spared p ([] ++ n.tag :: above) c ↔ Spared p [] c := ht.spared_iff
  rw [List.nil_append] at hs
  rw [hc, hs]
  simp

theorem spared_ofChildren (ht : tag ∈ markers) {children : List Node} :
    Spared p above (ofChildren tag children) ↔ ∀ c ∈ children, Spared p [] c :=
  hp.spared_below (n := ofChildren tag children) (hp.passes tag ht)

theorem spared_nameContainer (hc : container ∈ markers) (hm : member ∈ markers) (names : List String) :
    Spared p above (nameContainer container member names) := by
  refine (hp.spared_ofChildren hc).mpr fun c hmem => ?_
  obtain ⟨name, _, rfl⟩ := List.mem_map.mp hmem
  refine (hp.spared_ofChildren hm).mpr fun d hd => ?_
  rw [List.mem_singleton.mp hd]
  exact .childless rfl

/-! ### Leaving out what the test names -/

theorem childrenNamed_cut (ht : p.Passes n.tag) (tag : String) :
    (n.cut p above).childrenNamed tag = (n.childrenNamed tag).map (cut p (n.tag :: above)) := by
  have hkept : n.children.filter (fun c => !p (n.tag :: above) c) = n.children :=
    List.filter_eq_self.mpr fun c _ => by
      have hc : p (n.tag :: above) c = false := (ht [] above c).trans (hp.start c)
      rw [hc]
      rfl
  have htag : ((fun c : Node => decide (c.tag = tag)) ∘ cut p (n.tag :: above)) = fun c => decide (c.tag = tag) := by
    funext c
    simp
  rw [cut_eq, childrenNamed]
  dsimp only
  rw [hkept, List.filter_map, htag]
  rfl

/-- Hosts and templates stay, each without what the test names in it. -/
theorem held_cut (root : Node) (hroot : p.Passes root.tag) (hc : (container, member) ∈ scopeContainers) :
    (root.cut p []).held container member = (root.held container member).map (cut p [container, root.tag]) := by
  rw [held, hp.childrenNamed_cut hroot, List.flatMap_map, held, List.map_flatMap]
  refine List.flatMap_congr fun n hn => ?_
  have ht : n.tag = container := by simpa using (List.mem_filter.mp hn).2
  have hpass : p.Passes n.tag := by rw [ht]; exact hp.passes _ (container_mem_markers hc)
  rw [hp.childrenNamed_cut hpass, ht]

theorem nestedNames_cut (hstar : member ≠ "*") (hm : member ∈ markers) (n : Node) (above : List String) :
    nestedNames container member (n.cut p above) = nestedNames container member n :=
  Node.nestedNames_cut hstar hp.onLeaves (fun above n => (hp.passes member hm [] above n).trans (hp.start n)) n above

/-! ### Gathering -/

omit hp in
theorem spared_withoutChildren (h : Spared p above n) : Spared p above (n.withoutChildren tag) :=
  spared_iff.mpr fun c hc => spared_iff.mp h c (List.mem_filter.mp hc).1

omit hp in
theorem spared_orderRoot (h : Spared p above root) : Spared p above root.orderRoot := by
  refine spared_iff.mpr fun c hc => ?_
  rw [tag_orderRoot]
  exact spared_iff.mp h c (mem_orderRoot.mp hc).1

theorem spared_collectApplications {scope : Node} (h : Spared p above scope) :
    Spared p above scope.collectApplications := by
  refine spared_iff.mpr fun c hc => ?_
  rw [tag_collectApplications]
  have hold := spared_iff.mp h
  by_cases hnames : applicationNames scope = []
  · rw [collectApplications_eq, if_pos hnames] at hc
    exact hold c hc
  · rcases mem_collectApplications hc with hc | rfl
    · exact hold c hc
    · refine ⟨Bool.eq_false_iff.mpr fun hmet => ?_, hp.spared_nameContainer (by decide) (by decide) _⟩
      -- the list of applications is no leaf
      have hempty := (hp.onLeaves _ _ hmet).1
      rw [children_nameContainer, List.map_eq_nil_iff] at hempty
      exact hnames hempty

variable (hroot : p.Passes root.tag)

include hroot

theorem spared_changeScopes {f : Node → Node} (h : Spared p [] root)
    (hf : ∀ scope, Spared p [] scope → Spared p [] (f scope)) : Spared p [] (root.changeScopes f) := by
  rw [hp.spared_below (n := root.changeScopes f) hroot]
  have hchildren := (hp.spared_below hroot).mp h
  refine forall_changeScopes hchildren fun n hn member hm => ?_
  have ht : p.Passes n.tag := hp.passes _ (container_mem_markers hm)
  have hmembers := (hp.spared_below ht).mp (hchildren n hn)
  rw [hp.spared_below (n := changeMembers member f n) ht]
  intro c hc
  rcases mem_changeAll hc with ⟨k, hk, _, rfl⟩ | ⟨hc, _⟩
  · exact hf k (hmembers k hk)
  · exact hmembers c hc

theorem spared_scope (h : Spared p [] root) : ∀ scope ∈ root.scopes, Spared p [] scope := by
  intro scope hscope
  obtain ⟨⟨container, member⟩, hc, hheld⟩ := List.mem_flatMap.mp hscope
  obtain ⟨n, hn, hm⟩ := List.mem_flatMap.mp hheld
  obtain ⟨hmem, ht⟩ := List.mem_filter.mp hn
  have ht : n.tag = container := by simpa using ht
  have hpass : p.Passes n.tag := by rw [ht]; exact hp.passes _ (container_mem_markers hc)
  have hspared := (hp.spared_below hroot).mp h n hmem
  exact (hp.spared_below hpass).mp hspared scope (List.mem_filter.mp hm).1

/-- What moves to the root stood below an element of the same tag. -/
theorem spared_leaving (ht : tag ∈ ["graphs", "triggers"]) (h : Spared p [] root) :
    ∀ c ∈ leaving tag root, Spared p [] c := by
  intro c hc
  obtain ⟨scope, hs, hc⟩ := List.mem_flatMap.mp hc
  obtain ⟨holder, hh, hc⟩ := List.mem_flatMap.mp hc
  obtain ⟨hmem, hht⟩ := List.mem_filter.mp hh
  have hht : holder.tag = tag := by simpa using hht
  have hpass : p.Passes holder.tag := by rw [hht]; exact hp.passes _ (moved_mem_markers ht)
  have hspared := (spared_iff.mp (hp.spared_scope hroot h scope hs) holder hmem).2
  exact (hp.spared_below hpass).mp hspared c hc

theorem spared_hoist (ht : tag ∈ ["graphs", "triggers"]) (h : Spared p [] root) : Spared p [] (hoist tag root) := by
  have hmoved := hp.spared_leaving hroot ht h
  have hrest : Spared p [] (root.changeScopes (·.withoutChildren tag)) :=
    hp.spared_changeScopes hroot h fun _ => spared_withoutChildren
  have hold := (hp.spared_below (n := root.changeScopes (·.withoutChildren tag)) hroot).mp hrest
  rw [hoist_eq]
  refine (hp.spared_below (n := ⟨root.tag, root.text, _⟩) hroot).mpr ?_
  refine forall_addTo hold (fun n hn hnt => ?_) ((hp.spared_ofChildren (moved_mem_markers ht)).mpr hmoved)
  have hpass : p.Passes n.tag := by rw [hnt]; exact hp.passes _ (moved_mem_markers ht)
  refine (hp.spared_below (n := ⟨n.tag, n.text, _⟩) hpass).mpr (List.forall_mem_append.mpr ⟨?_, hmoved⟩)
  exact (hp.spared_below hpass).mp (hold n hn)

theorem spared_rollupGroups (h : Spared p [] root) : Spared p [] root.rollupGroups := by
  have hchildren := (hp.spared_below hroot).mp h
  rw [rollupGroups_eq]
  refine (hp.spared_below (n := ⟨root.tag, root.text, _⟩) hroot).mpr (List.forall_mem_append.mpr ⟨?_, fun c hc => ?_⟩)
  · exact fun c hc => hchildren c (List.mem_filter.mp hc).1
  · unfold roster at hc
    split at hc
    · cases hc
    · rw [List.mem_singleton.mp hc]
      exact hp.spared_nameContainer (by decide) (by decide) _

theorem spared_gather (h : Spared p [] root) : Spared p [] root.gather := by
  have hgraphs : Spared p [] (hoist "graphs" root) := hp.spared_hoist hroot (by decide) h
  have htriggers : Spared p [] (hoist "triggers" (hoist "graphs" root)) :=
    hp.spared_hoist (by rwa [tag_hoist]) (by decide) hgraphs
  have hgroups : Spared p [] (hoist "triggers" (hoist "graphs" root)).rollupGroups :=
    hp.spared_rollupGroups (by rwa [tag_hoist, tag_hoist]) htriggers
  have happlications : Spared p [] (hoist "triggers" (hoist "graphs" root)).rollupGroups.rollupApplications :=
    hp.spared_changeScopes (by rwa [tag_rollupGroups, tag_hoist, tag_hoist]) hgroups fun _ =>
      hp.spared_collectApplications
  exact spared_orderRoot happlications

end Test.Tame

end Node

namespace PruningRules

open Node

variable {t : PruningRules} {rules : List PruningRule} {root : Node} {tag : String}

theorem prefix_append_cons_iff {α : Type} {l xs ys : List α} {a : α} (h : a ∉ l) : l <+: xs ++ a :: ys ↔ l <+: xs := by
  induction xs generalizing l with
  | nil =>
      cases l with
      | nil => simp
      | cons b l =>
          simp only [List.nil_append, List.cons_prefix_cons, List.prefix_nil, reduceCtorEq, iff_false, not_and]
          rintro rfl
          simp at h
  | cons x xs ih =>
      cases l with
      | nil => simp
      | cons b l =>
          rw [List.cons_append, List.cons_prefix_cons, List.cons_prefix_cons, ih fun hmem => h (by simp [hmem])]

/-- Rules that do not mention a tag above their last one do not look beyond an element of it. -/
theorem names_passes (h : ∀ r ∈ rules, tag ∉ r.segments.dropLast) : (names rules).Passes tag := by
  intro xs ys n
  rw [Bool.eq_iff_iff]
  simp only [names, List.any_eq_true]
  refine exists_congr fun r => and_congr_right fun hr => ?_
  rw [PruningRule.names_iff, PruningRule.names_iff]
  refine exists₂_congr fun parents leaf => and_congr_right fun hseg => ?_
  have hnot : tag ∉ parents.reverse := by
    have hr := h r hr
    rw [hseg, List.dropLast_concat] at hr
    rwa [List.mem_reverse]
  rw [prefix_append_cons_iff hnot]

theorem names_start (h : ∀ r ∈ rules, r.segments.dropLast ≠ []) (n : Node) : names rules [] n = false := by
  refine Bool.eq_false_iff.mpr fun hn => ?_
  obtain ⟨r, hr, hnamed⟩ := List.any_eq_true.mp hn
  obtain ⟨parents, leaf, hseg, _, _, _, hpre⟩ := PruningRule.names_iff.mp hnamed
  have hparents : parents = [] := by simpa using List.prefix_nil.mp hpre
  exact h r hr (by rw [hseg, hparents]; rfl)

theorem prune_of_spared (h : Spared (names t.rules) [] root) : t.prune root = root := by
  have hone : ∀ r ∈ t.rules, r.prune root = root := fun r hr => by
    rw [PruningRule.prune_eq]
    exact (h.mono fun above n hn => List.any_eq_true.mpr ⟨r, hr, hn⟩).cut_eq
  exact List.foldlRecOn (motive := fun pruned => pruned = root) t.rules _ rfl fun pruned hp r hr => by
    rw [hp, hone r hr]

theorem standard_parents : ∀ r ∈ standard.rules, r.segments.dropLast ≠ [] ∧
    ∀ tag ∈ r.segments.dropLast, tag ∉ Compiler.rootTag :: markers := by
  decide +kernel

/-- The standard rules start below a host, a template, a graph or a trigger. -/
theorem standard_tame : (names standard.rules).Tame where
  onLeaves := names_onLeaves _
  start := names_start fun r hr => (standard_parents r hr).1
  passes tag ht := names_passes fun r hr hmem => (standard_parents r hr).2 tag hmem (by simp [ht])

theorem standard_passes_root : (names standard.rules).Passes Compiler.rootTag :=
  names_passes fun r hr hmem => (standard_parents r hr).2 _ hmem (by simp)

end PruningRules

end MonitorExport
