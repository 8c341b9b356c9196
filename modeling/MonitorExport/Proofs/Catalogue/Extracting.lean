import MonitorExport.Proofs.Catalogue.Exports

/-!
# Names that a document extracts

Searching a document for the entities of a model keeps one of those that are equal, which for groups and applications
are those of one name. So the names found in the elements of a document are those of the entities extracted from it.
-/

namespace MonitorExport.Catalogue

open Subtree Mapping Node

variable {s : Store} {e x y : EntityId} {c : Compiler} {root : Node} {container member : String} {t : Subtree}
  {r : RosterModel} {m : ModelId}

/-- The names that are set of entities. -/
def setNames (s : Store) (xs : List EntityId) : List String := xs.filterMap fun x => s.text? x "name"

/-- Whether the name of an entity is unset or a text. -/
def NamedByText (s : Store) (x : EntityId) : Prop :=
  s.get x "name" = .ok none ∨ ∃ text, s.get x "name" = .ok (some (.text text))

instance (s : Store) (x : EntityId) : Decidable (NamedByText s x) :=
  match h : s.get x "name" with
  | .ok none => isTrue (.inl h)
  | .ok (some (.text text)) => isTrue (.inr ⟨text, h⟩)
  | .ok (some (.bool _)) | .ok (some (.int _)) | .ok (some (.float _)) | .error _ => isFalse fun hn => by
    rcases hn with hn | ⟨text, hn⟩ <;> cases h.symm.trans hn

/-- Whether an entity is one of those that are searched for, with a name that can be compared. -/
structure Enrolled (s : Store) (r : RosterModel) (m : ModelId) (x : EntityId) : Prop where
  standard : Standard s x
  model : s.model x = m
  name : (s.schemaOf x).name = r.model
  text : NamedByText s x

theorem text?_of_none (h : s.get x "name" = .ok none) : s.text? x "name" = none := by rw [Store.text?, h]

theorem text?_of_text {text : String} (h : s.get x "name" = .ok (some (.text text))) : s.text? x "name" = some text := by
  rw [Store.text?, h]
  rfl

theorem agree_iff (hx : NamedByText s x) (hy : NamedByText s y) :
    s.agree x y "name" = true ↔ s.text? x "name" = s.text? y "name" := by
  rcases hx with hx | ⟨a, hx⟩
  · rcases hy with hy | ⟨b, hy⟩
    · simp [Store.agree, hx, hy, text?_of_none]
    · simp [Store.agree, hx, hy, text?_of_none hx, text?_of_text hy]
  · rcases hy with hy | ⟨b, hy⟩
    · simp [Store.agree, hx, hy, text?_of_text hx, text?_of_none hy]
    · simp [Store.agree, hx, hy, text?_of_text hx, text?_of_text hy, Value.looseEq, Value.toNumber?]

theorem sameIdentity_iff (hr : r ∈ rosterModels) (hx : Enrolled s r m x) (hy : Enrolled s r m y) :
    s.sameIdentity x y = true ↔ s.text? x "name" = s.text? y "name" := by
  have hix : (s.schemaOf x).identity = ["name"] := ((fields_table _ hx.standard.mem).2.2.2.1 r hr hx.name).2.2
  have hiy : (s.schemaOf y).identity = ["name"] := ((fields_table _ hy.standard.mem).2.2.2.1 r hr hy.name).2.2
  have hisA : s.isA (s.model x) (s.model y) = true := by
    obtain ⟨k, _, hk⟩ := roster_lineage r hr
    have hindex : (s.model y).index = k := (hk _ hy.standard.mem_zipIdx).2 hy.name
    rw [Store.isA, hx.model, hy.model, decide_eq_true rfl, Bool.true_and, ← hy.model, hindex, hy.model, ← hx.model]
    exact (hk _ hx.standard.mem_zipIdx).1.mpr hx.name
  rw [← agree_iff hx.text hy.text]
  unfold Store.sameIdentity
  simp only [hix, hiy, hisA, Bool.or_eq_true, decide_eq_true_eq]
  constructor
  · rintro (rfl | h)
    · exact (agree_iff hx.text hx.text).mpr rfl
    · simpa using h
  · intro h
    exact .inr (by simpa using h)

/-- Entities without equal ones have the names that are seen first. -/
theorem setNames_distinct (hr : r ∈ rosterModels) {found xs : List EntityId} (hfound : ∀ x ∈ found, Enrolled s r m x)
    (hxs : ∀ x ∈ xs, Enrolled s r m x) :
    setNames s (xs.foldl s.addDistinct found) = addSeen (setNames s found) (setNames s xs) := by
  induction xs generalizing found with
  | nil => rfl
  | cons x xs ih =>
      have hx := hxs x (by simp)
      have hxs' : ∀ y ∈ xs, Enrolled s r m y := fun y hy => hxs y (by simp [hy])
      have hany : found.any (s.sameIdentity · x) = true ↔ ∃ y ∈ found, s.text? y "name" = s.text? x "name" := by
        rw [List.any_eq_true]
        exact exists_congr fun y => and_congr_right fun hy => sameIdentity_iff hr (hfound y hy) hx
      have hmore : ∀ y ∈ found ++ [x], Enrolled s r m y := fun y hy => by
        rcases List.mem_append.mp hy with hy | hy
        · exact hfound y hy
        · exact List.mem_singleton.mp hy ▸ hx
      rw [List.foldl_cons, Store.addDistinct]
      cases hname : s.text? x "name" with
      | none =>
          have hnone : setNames s (x :: xs) = setNames s xs := by simp [setNames, hname]
          rw [hnone]
          split
          · exact ih hfound hxs'
          · rw [ih hmore hxs']
            simp [setNames, hname]
      | some name =>
          have hsome : setNames s (x :: xs) = name :: setNames s xs := by simp [setNames, hname]
          have hmem : name ∈ setNames s found ↔ found.any (s.sameIdentity · x) = true := by
            rw [hany, hname, setNames, List.mem_filterMap]
          rw [hsome, addSeen_cons]
          split
          · next h => rw [if_pos (hmem.mpr h), ih hfound hxs']
          · next h =>
            rw [if_neg fun hn => h (hmem.mp hn), ih hmore hxs']
            simp [setNames, hname]

/-- The models of groups and applications are found, and their entities are told by the name of the model. -/
theorem exists_findModel (h : Standard s e) (hr : r ∈ rosterModels) :
    ∃ m, s.findModel (s.model e).registry r.model = .ok m ∧ m.registry = (s.model e).registry ∧
      ∀ x, Standard s x → (s.model x).registry = m.registry →
        (s.isA (s.model x) m = true ↔ (s.schemaOf x).name = r.model) ∧ ((s.schemaOf x).name = r.model → s.model x = m) := by
  obtain ⟨k, hfound, hk⟩ := roster_lineage r hr
  refine ⟨⟨(s.model e).registry, k⟩, ?_, rfl, fun x hx hreg => ?_⟩
  · rw [Store.findModel, h.registry, registry_eq, hfound]
  · obtain ⟨hline, hindex⟩ := hk _ hx.mem_zipIdx
    refine ⟨?_, fun hn => ?_⟩
    · rw [Store.isA, decide_eq_true hreg, Bool.true_and]
      exact hline
    · cases hm : s.model x
      simp_all

/-- The names of the entities that are extracted from a tree are the names in it, each once. -/
theorem setNames_extract (hs : s.Linked) (hw : (s.subtree e).Whole s) (h : Standard s e) (hr : r ∈ rosterModels)
    (hm : s.findModel (s.model e).registry r.model = .ok m)
    (hnames : ∀ x ∈ (s.subtree e).preorder, (s.schemaOf x).name = r.model → NamedByText s x) :
    setNames s (s.extract e m) = firstSeen (namesOf s r.model (s.subtree e).preorder) := by
  obtain ⟨m', hm', hreg, htold⟩ := exists_findModel h hr
  cases hm.symm.trans hm'
  have hroot : Standard s (s.subtree e).root := by
    rw [root_subtree]
    exact h
  have hstandard := standard_of_whole hs hw hroot
  have htold : ∀ x ∈ (s.subtree e).preorder, (s.isA (s.model x) m = true ↔ (s.schemaOf x).name = r.model) ∧
      ((s.schemaOf x).name = r.model → s.model x = m) := fun x hx => by
    have hregistry := registry_of_whole hs hw hroot x hx
    rw [root_subtree, ← hreg] at hregistry
    exact htold x (hstandard x hx) hregistry
  have hselected : setNames s ((s.subtree e).preorder.filter fun x => s.isA (s.model x) m) =
      namesOf s r.model (s.subtree e).preorder := by
    rw [setNames, List.filterMap_filter, namesOf]
    exact List.filterMap_congr fun x hx => by simp only [(htold x hx).1]
  have henrolled : ∀ x ∈ (s.subtree e).preorder.filter fun x => s.isA (s.model x) m, Enrolled s r m x := fun x hx => by
    obtain ⟨hx, hisA⟩ := List.mem_filter.mp hx
    have hn := (htold x hx).1.mp hisA
    exact ⟨hstandard x hx, (htold x hx).2 hn, hn, hnames x hx hn⟩
  rw [Store.extract_eq, setNames_distinct hr (by simp) henrolled, hselected]
  rfl

/-! ## Groups of a document -/

theorem found_children {n : Node} (hr : r ∈ rosterModels) : nestedNames r.container r.member n =
    n.children.flatMap (found r.container r.member) :=
  nestedNames_eq (ne_star_of_mem hr) n

theorem header_found (c : Compiler) (container member : String) : c.header.flatMap (found container member) = [] := by
  refine List.flatMap_eq_nil_iff.mpr fun n hn => ?_
  simp only [Compiler.header, List.mem_cons, List.not_mem_nil, or_false] at hn
  rcases hn with rfl | rfl
  · exact found_of_childless rfl
  · exact found_of_childless rfl

variable {ns : List Node}

/-- The names of groups that a pruned document is to list are those of the groups that the document owns. -/
theorem Mapped.groupsBelow_eq (hs : s.Linked) (hd : Document s e) (h : Mapped c s e ns) {p : Test} (hp : p.Tame) :
    groupsBelow ((Node.ofChildren Compiler.rootTag (c.header ++ ns)).cut p []) =
      namesOf s "Group" (s.subtree e).preorder := by
  have hchild : ∀ n ∈ ((Node.ofChildren Compiler.rootTag (c.header ++ ns)).cut p []).children,
      groupsOf n = found "groups" "group" n := fun n hn => by
    have hmem : n.tag ∈ ["version", "date", "templates", "graphs", "hosts", "screens"] :=
      ((map_tag_cut _).trans (h.children hs hd)).subset (List.mem_map_of_mem hn)
    have hne : n.tag ≠ "groups" := by
      intro ht
      rw [ht] at hmem
      exact absurd hmem (by decide)
    rw [groupsOf, if_neg hne, found_of_ne hne]
  have hconfig : (s.schemaOf (s.subtree e).root).name ≠ "Group" := by
    rw [root_subtree, hd.name]
    decide
  rw [groupsBelow, List.flatMap_congr hchild, ← nestedNames_eq group_ne_star, nestedNames_pruned hp groups_mem,
    found_children groups_mem, preorder_eq, namesOf_cons_ne hconfig, ← (h.lists hs hd).names _ groups_mem]
  change (c.header ++ ns).flatMap _ = _
  rw [List.flatMap_append, header_found, List.nil_append]

/-! ## Applications of a host or template -/

theorem length_childrenNamed_le {n : Node} (h : (n.children.map (·.tag)).Nodup) (tag : String) :
    (n.childrenNamed tag).length ≤ 1 := by
  have hnodup : ((n.childrenNamed tag).map (·.tag)).Nodup := (List.filter_sublist.map _).nodup h
  have hsame : ∀ k ∈ (n.childrenNamed tag).map (·.tag), k = tag := fun k hk => by
    obtain ⟨d, hd, rfl⟩ := List.mem_map.mp hk
    simpa using (List.mem_filter.mp hd).2
  cases hchildren : n.childrenNamed tag with
  | nil => simp
  | cons a rest =>
      cases rest with
      | nil => simp
      | cons b rest =>
          rw [hchildren] at hnodup hsame
          have hab : a.tag = b.tag := (hsame a.tag (by simp)).trans (hsame b.tag (by simp)).symm
          simp [hab] at hnodup

/-- A settled host or template lists the names of the applications that it owns. -/
theorem applications_settled {p : Test} {above : List String} {n : Node} (hp : p.Tame) (hl : Lists s [] t n.children)
    (hstandard : Standard s t.root) (hflat : (s.schemaOf t.root).arrangement = none)
    (hnames : firstSeen (namesOf s "Application" t.owned) ≠ []) :
    (n.cut p above).settled.childrenNamed "applications" =
      [nameContainer "applications" "application" (firstSeen (namesOf s "Application" t.owned))] := by
  have hapart : ∀ k ∈ (n.cut p above).children, k.tag ∈ ["graphs", "screens", "triggers"] →
      found "applications" "application" k = [] := fun k hk ht => found_apart hp applications_mem hl hk (.inl ht)
  have hgraphs : nestedNames "applications" "application" ((n.cut p above).withoutChildren "graphs") =
      nestedNames "applications" "application" (n.cut p above) :=
    nestedNames_withoutChildren application_ne_star fun k hk ht => hapart k hk (by simp [ht])
  have htriggers : nestedNames "applications" "application"
      (((n.cut p above).withoutChildren "graphs").withoutChildren "triggers") =
      nestedNames "applications" "application" ((n.cut p above).withoutChildren "graphs") := by
    refine nestedNames_withoutChildren application_ne_star fun k hk ht => hapart k ?_ (by simp [ht])
    exact (List.mem_filter.mp hk).1
  have hall : applicationNames (((n.cut p above).withoutChildren "graphs").withoutChildren "triggers") =
      firstSeen (namesOf s "Application" t.owned) := by
    rw [applicationNames, htriggers, hgraphs, nestedNames_pruned hp applications_mem, found_children applications_mem,
      hl.names _ applications_mem]
  -- fields have distinct names, so there was one list of applications at most
  have htags : (((n.cut p above).withoutChildren "graphs").withoutChildren "triggers").children.Sublist
      (n.cut p above).children := List.filter_sublist.trans List.filter_sublist
  have hnodup := ((htags.map (·.tag)).trans ((map_tag_cut n).trans (hl.tags hflat))).nodup (fields_table _ hstandard.mem).1
  rw [settled, childrenNamed_collect _ (length_childrenNamed_le hnodup _) (by rw [hall]; exact hnames), hall]

/-! ## Names of a compiled document -/

theorem subtree_member (hs : s.Linked) (hd : Document s e) {i : Nat} (hm : t.root ∈ s.members ⟨e, i⟩) (hw : t.Whole s) :
    s.subtree t.root = t ∧ ∀ x ∈ t.preorder, x ∈ (s.subtree e).preorder := by
  have howner : s.owner t.root = some e := Store.owner_of_parent (hs.mem_iff.mp hm)
  have hlast : Finishes s.owner e := .last (Store.owner_eq_none.mpr (hd.parent_eq_none hs))
  have hwhole := Store.subtree_whole_of_finishes hs (.step howner hlast)
  refine ⟨hwhole.unique hw (root_subtree s t.root), fun x hx => ?_⟩
  have hup : s.AtOrAbove x t.root := (Store.mem_preorder_of_whole hs hw x).mp hx
  refine (Store.mem_preorder_of_whole hs (hd.whole hs) x).mpr ?_
  rw [root_subtree]
  exact hup.tail howner

/-- The names of the applications that are extracted from a host or template of a document. -/
theorem Shelf.setNames_eq (hs : s.Linked) (hd : Document s e) (hc : (container, member) ∈ scopeContainers) {i : Nat}
    {ts : List Subtree} (h : Shelf s e container member i ts ns) (ht : t ∈ ts)
    (hm : s.findModel (s.model e).registry "Application" = .ok m)
    (hnames : ∀ x ∈ (s.subtree e).preorder, (s.schemaOf x).name = "Application" → NamedByText s x) :
    setNames s (s.extract t.root m) = firstSeen (namesOf s "Application" t.owned) := by
  obtain ⟨hw, hx, f, hholds⟩ := h.owned t ht
  obtain ⟨htree, hpreorder⟩ := subtree_member hs hd (h.roots ▸ List.mem_map_of_mem ht) hw
  have hfound : s.findModel (s.model t.root).registry "Application" = .ok m := by
    rw [hholds.registry]
    exact hm
  have hne : (s.schemaOf t.root).name ≠ "Application" := fun hn => by
    have hcontainer := (roster_of_holds hd.standard hx hholds applications_mem).1.mpr hn
    rw [h.name] at hcontainer
    rw [hcontainer] at hc
    simp [scopeContainers] at hc
  have htexts : ∀ x ∈ (s.subtree t.root).preorder, (s.schemaOf x).name = "Application" → NamedByText s x := by
    rw [htree]
    exact fun x hx => hnames x (hpreorder x hx)
  have hwhole : (s.subtree t.root).Whole s := by
    rw [htree]
    exact hw
  rw [setNames_extract hs hwhole hx applications_mem hfound htexts, htree, preorder_eq, namesOf_cons_ne hne]

namespace Document

/-- The groups of a compiled document are those that are extracted from it, and the applications of each of its
hosts and templates are those that are extracted from the host or template, if there are any. -/
theorem compile_rosters (h : Store.Reachable s) (hd : Document s e)
    (hnames : ∀ x ∈ (s.subtree e).preorder, (s.schemaOf x).name ∈ ["Group", "Application"] → NamedByText s x)
    (hr : c.rules = .standard) (hc : c.compile s e = .ok root) :
    ∃ group application, s.findModel (s.model e).registry "Group" = .ok group ∧
      s.findModel (s.model e).registry "Application" = .ok application ∧
      root.childrenNamed "groups" = roster "groups" "group" (setNames s (s.extract e group)) ∧
      ∀ shelf ∈ scopeContainers, ∃ col, s.collection e shelf.1 = .ok col ∧
        (root.held shelf.1 shelf.2).length = (s.members col).length ∧
        ∀ (i : Nat) m, (s.members col)[i]? = some m → setNames s (s.extract m application) ≠ [] →
          ∃ n : Node, (root.held shelf.1 shelf.2)[i]? = some n ∧ n.childrenNamed "applications" =
            [nameContainer "applications" "application" (setNames s (s.extract m application))] := by
  have hs := h.linked
  have htame := PruningRules.standard_tame
  have hroot := PruningRules.standard_passes_root
  obtain ⟨ns, hmapped, rfl⟩ := hd.mapped hs hc
  rw [hr]
  have hloose := hmapped.loose hs hd htame hroot
  obtain ⟨group, hgroup, _⟩ := exists_findModel hd.standard groups_mem
  obtain ⟨application, happlication, _⟩ := exists_findModel hd.standard applications_mem
  refine ⟨group, application, hgroup, happlication, ?_, fun ⟨container, member⟩ hshelf => ?_⟩
  · rw [hloose.groups_gather, hmapped.groupsBelow_eq hs hd htame]
    rw [setNames_extract hs (hd.whole hs) hd.standard groups_mem hgroup fun x hx hn => hnames x hx (by simp [hn])]
  obtain ⟨i, ts, hheld⟩ := hmapped.held hs hd hshelf
  have hgathered := held_gather hshelf ((Node.ofChildren Compiler.rootTag (c.header ++ ns)).cut
    (PruningRules.names PruningRules.standard.rules) [])
  rw [htame.held_cut (Node.ofChildren Compiler.rootTag (c.header ++ ns)) hroot hshelf] at hgathered
  refine ⟨⟨e, i⟩, hheld.collection, ?_, fun k m hm hne => ?_⟩
  · rw [hgathered, List.length_map, List.length_map, ← hheld.rows.length_eq, ← hheld.roots, List.length_map]
  · rw [← hheld.roots, List.getElem?_map] at hm
    obtain ⟨t, ht, rfl⟩ := Option.map_eq_some_iff.mp hm
    obtain ⟨n, hn, _, hlists⟩ := getElem?_of_forall₂ hheld.rows ht
    have hmem : t ∈ ts := List.mem_of_getElem? ht
    obtain ⟨_, hx, _⟩ := hheld.owned t hmem
    have hextract := hheld.setNames_eq hs hd hshelf hmem happlication fun x hx hn => hnames x hx (by simp [hn])
    rw [hextract] at hne ⊢
    refine ⟨(n.cut (PruningRules.names PruningRules.standard.rules) [container, Compiler.rootTag]).settled, ?_,
      applications_settled htame hlists hx (hheld.flat t hmem) hne⟩
    rw [hgathered, List.getElem?_map, List.getElem?_map, hn]
    rfl

theorem web_names :
    (∀ x ∈ (web.subtree ⟨0⟩).preorder, (web.schemaOf x).name ∈ ["Group", "Application"] → NamedByText web x) ∧
    (web.findModel (web.model ⟨0⟩).registry "Group").toOption.map (fun m => setNames web (web.extract ⟨0⟩ m)) =
      some ["Servers", "Linux"] ∧
    (web.findModel (web.model ⟨0⟩).registry "Application").toOption.map (fun m => setNames web (web.extract ⟨1⟩ m)) =
      some ["Status", "CPU"] ∧
    (web.collection ⟨0⟩ "hosts").toOption.map (fun col => (web.members col)[0]?) = some (some ⟨1⟩) := by
  rw [web, registry_eq]
  decide +kernel

theorem compile_rosters_web : ∃ root, newYear.compile web ⟨0⟩ = .ok root ∧
    root.childrenNamed "groups" = [nameContainer "groups" "group" ["Servers", "Linux"]] ∧
    ∃ n : Node, (root.held "hosts" "host")[0]? = some n ∧
      n.childrenNamed "applications" = [nameContainer "applications" "application" ["Status", "CPU"]] := by
  obtain ⟨hnames, hgroups, happlications, hhosts⟩ := web_names
  obtain ⟨root, hc⟩ := web_compiles
  obtain ⟨group, application, hgroup, happlication, hlisted, hheld⟩ :=
    compile_rosters web_reachable web_document hnames rfl hc
  obtain ⟨col, hcol, _, hmembers⟩ := hheld ("hosts", "host") (by decide)
  rw [hgroup] at hgroups
  rw [happlication] at happlications
  rw [hcol] at hhosts
  have hgroups : setNames web (web.extract ⟨0⟩ group) = ["Servers", "Linux"] := Option.some.inj hgroups
  have happlications : setNames web (web.extract ⟨1⟩ application) = ["Status", "CPU"] := Option.some.inj happlications
  obtain ⟨n, hn, hchildren⟩ := hmembers 0 ⟨1⟩ (Option.some.inj hhosts) (by rw [happlications]; simp)
  rw [hgroups] at hlisted
  rw [happlications] at hchildren
  exact ⟨root, hc, hlisted, n, hn, hchildren⟩

end Document

end MonitorExport.Catalogue
