import MonitorExport.Proofs.Catalogue.Elements
import MonitorExport.Proofs.Export.Sparing

/-!
# Documents of the standard models

A document belongs to nothing, so that its owners end and its tree is all that it owns. Its elements are those of
four collections, and the names of groups are found in hosts and templates alone.
-/

namespace MonitorExport.Catalogue

open Subtree Mapping Node

variable {s : Store} {e : EntityId} {i : Nat} {c : Compiler} {root : Node} {container member tag : String}
  {ns ms : List Node} {ts : List Subtree} {p : Test} {above : List String}

/-- Whether an entity is a document of the standard models. -/
structure Document (s : Store) (e : EntityId) : Prop where
  has : s.Has e
  registry : s.registry (s.model e).registry = registry
  name : (s.schemaOf e).name = "Config"

namespace Document

theorem standard (hd : Document s e) : Standard s e := by
  refine .of_ne hd.has hd.registry fun hb => ?_
  have hname := hd.name
  rw [hb] at hname
  exact absurd hname (by decide)

/-- A document belongs to nothing: no field takes one. -/
theorem parent_eq_none (hs : s.Linked) (hd : Document s e) : s.parent e = none := by
  cases hp : s.parent e with
  | none => rfl
  | some p =>
      have hmem : e ∈ s.members p := hs.mem_iff.mpr hp
      have howner : Standard s p.owner := hd.standard.of_parent hs hp
      obtain ⟨_, f, hh⟩ := howner.holds hs hmem
      have htable := (takes_table _ howner.mem f (List.mem_of_getElem? hh.place) _ hd.standard.mem_zipIdx hh.admits).2.2
      exact absurd hd.name htable.1

theorem whole (hs : s.Linked) (hd : Document s e) : (s.subtree e).Whole s :=
  Store.subtree_whole_of_finishes hs (.last (Store.owner_eq_none.mpr (hd.parent_eq_none hs)))

theorem table (hd : Document s e) : (s.schemaOf e).fields.map (·.name) = ["templates", "graphs", "hosts", "screens"] ∧
    (s.schemaOf e).document = true ∧ (s.schemaOf e).arrangement = none ∧
    ∀ field ∈ (s.schemaOf e).fields, isSet field = true :=
  (fields_table _ hd.standard.mem).2.2.2.2 hd.name

end Document

/-! ## The tree before pruning -/

/-- The tree of a document before pruning. -/
structure Mapped (c : Compiler) (s : Store) (e : EntityId) (ns : List Node) : Prop where
  plain : (Node.ofChildren Compiler.rootTag (c.header ++ ns)).Plain
  assembled : Assembled s (Listed s) [] (s.subtree e) ns

/-- A document that compiles is mapped, pruned and gathered. -/
theorem Document.mapped (hs : s.Linked) (hd : Document s e) (h : c.compile s e = .ok root) : ∃ ns, Mapped c s e ns ∧
    root = ((Node.ofChildren Compiler.rootTag (c.header ++ ns)).cut (PruningRules.names c.rules.rules) []).gather := by
  have hdocument : s.isDocument e = true := hd.table.2.1
  have hyields : Yields (fun root => ∃ ns, root = Node.ofChildren Compiler.rootTag (c.header ++ ns) ∧
      Assembled s (Listed s) [] (s.subtree e) ns) (fun _ => True) (c.mapRoot s e) := by
    refine (entityNodes_assembled (assembles hs) [] (s.subtree e) c.palette.reset).bind fun p hp => ?_
    dsimp only
    rw [if_pos hdocument]
    exact ⟨p.1, rfl, hp⟩
  unfold Compiler.compile at h
  cases hm : c.mapRoot s e with
  | error err =>
      rw [hm] at h
      cases h
  | ok mapped =>
      rw [hm] at h hyields
      obtain ⟨ns, rfl, ha⟩ := hyields
      have hplain := Compiler.mapRoot_plain hm
      refine ⟨ns, ⟨hplain, ha⟩, ?_⟩
      rw [← PruningRules.prune_eq hplain]
      simpa [Except.map, hdocument] using h.symm

namespace Mapped

theorem lists (hs : s.Linked) (hd : Document s e) (h : Mapped c s e ns) : Lists s [] (s.subtree e) ns :=
  assembles hs _ _ _ h.assembled (hd.whole hs) (by rw [root_subtree]; exact hd.standard)

theorem sublist (hs : s.Linked) (hd : Document s e) (h : Mapped c s e ns) :
    (ns.map (·.tag)).Sublist ["templates", "graphs", "hosts", "screens"] := by
  have htags := (h.lists hs hd).tags
  rw [root_subtree, hd.table.1] at htags
  exact htags hd.table.2.2.1

theorem children (hs : s.Linked) (hd : Document s e) (h : Mapped c s e ns) :
    ((Node.ofChildren Compiler.rootTag (c.header ++ ns)).children.map (·.tag)).Sublist
      ["version", "date", "templates", "graphs", "hosts", "screens"] := by
  change ((c.header ++ ns).map (·.tag)).Sublist _
  rw [List.map_append]
  exact (h.sublist hs hd).append_left ["version", "date"]

end Mapped

theorem map_tag_cut (n : Node) : ((n.cut p above).children.map (·.tag)).Sublist (n.children.map (·.tag)) := by
  rw [cut_eq, List.map_map]
  have htag : (Node.tag ∘ cut p (n.tag :: above)) = Node.tag := by
    funext c
    exact tag_cut
  rw [htag]
  exact List.filter_sublist.map _

theorem Mapped.laid (hs : s.Linked) (hd : Document s e) (h : Mapped c s e ns) (p : Test) :
    Laid ((Node.ofChildren Compiler.rootTag (c.header ++ ns)).cut p []) :=
  .of_sublist (((map_tag_cut _).trans (h.children hs hd)).trans (by decide))

/-! ## Hosts and templates -/

theorem freshSlot_of_isSet {f : FieldSchema} (h : isSet f = true) : Store.freshSlot f = .members [] := by
  unfold isSet at h
  unfold Store.freshSlot
  split at h
  · next hk ht => rw [hk, ht]
  · cases h

theorem rows_forall₂ {k : Nat} {tag? : Option String} (hts : Owned s e i ts)
    (htag : ∀ t ∈ ts, tag?.getD (s.schemaOf t.root).tag = tag) (hrows : Rows s (Listed s) tag? (fun _ => []) k ts ms) :
    List.Forall₂ (fun t n => n.tag = tag ∧ Lists s [] t n.children) ts ms := by
  induction hrows with
  | nil => exact .nil
  | @cons k t ts children ns hpost _ ih =>
      obtain ⟨hw, hx, _⟩ := hts t (by simp)
      refine .cons ⟨htag t (by simp), hpost hw hx⟩ ?_
      exact ih (fun t ht => hts t (by simp [ht])) fun t ht => htag t (by simp [ht])

theorem getElem?_of_forall₂ {α β : Type} {R : α → β → Prop} {l : List α} {l' : List β} (h : List.Forall₂ R l l') {k : Nat}
    {a : α} (ha : l[k]? = some a) : ∃ b, l'[k]? = some b ∧ R a b := by
  induction h generalizing k with
  | nil => cases ha
  | @cons a' b' l l' hr _ ih =>
      cases k with
      | zero =>
          cases ha
          exact ⟨b', rfl, hr⟩
      | succ k => exact ih ha

/-- What a document holds in one of its collections, and the elements that stand for it. -/
structure Shelf (s : Store) (e : EntityId) (container member : String) (i : Nat) (ts : List Subtree) (ms : List Node) :
    Prop where
  collection : s.collection e container = .ok ⟨e, i⟩
  name : s.fieldName e i = container
  roots : ts.map Subtree.root = s.members ⟨e, i⟩
  owned : Owned s e i ts
  flat : ∀ t ∈ ts, (s.schemaOf t.root).arrangement = none
  rows : List.Forall₂ (fun t n => n.tag = member ∧ Lists s [] t n.children) ts ms

/-- The names of fields are distinct, so that a field is found by its name. -/
theorem eq_of_fieldName (h : Standard s e) {f : FieldSchema} (hf : s.field? e i = some f) {j : Nat}
    (hj : j < (s.schemaOf e).fields.length) (hn : s.fieldName e j = f.name) : j = i := by
  have hi : i < (s.schemaOf e).fields.length := (List.getElem?_eq_some_iff.mp hf).1
  have hplace : s.field? e j = some (s.schemaOf e).fields[j] := List.getElem?_eq_getElem hj
  rw [fieldName_eq hplace] at hn
  have hnames : ((s.schemaOf e).fields.map (·.name))[j]? = ((s.schemaOf e).fields.map (·.name))[i]? := by
    have hf : (s.schemaOf e).fields[i]? = some f := hf
    rw [List.getElem?_map, List.getElem?_map, hf, List.getElem?_eq_getElem hj, Option.map_some, hn, Option.map_some]
  exact (List.getElem?_inj (by simpa using hj) (fields_table _ h.mem).1).mp hnames

theorem fieldIndex_eq (h : Standard s e) {f : FieldSchema} (hf : s.field? e i = some f) :
    s.fieldIndex e f.name = .ok i := by
  have hi : i < (s.schemaOf e).fields.length := (List.getElem?_eq_some_iff.mp hf).1
  have hfirst : (s.schemaOf e).fieldIndex? f.name = some i := by
    refine List.findIdx?_eq_some_iff_getElem.mpr ⟨hi, ?_, fun j hj hn => ?_⟩
    · simp [(List.getElem?_eq_some_iff.mp hf).2]
    · have hj' : j < (s.schemaOf e).fields.length := Nat.lt_trans hj hi
      have hplace : s.field? e j = some (s.schemaOf e).fields[j] := List.getElem?_eq_getElem hj'
      have hname : s.fieldName e j = f.name := (fieldName_eq hplace).trans (of_decide_eq_true hn)
      exact absurd (eq_of_fieldName h hf hj' hname) (Nat.ne_of_lt hj)
  rw [Store.fieldIndex, hfirst]

theorem slot_members (hs : s.Linked) (he : s.Has e) {f : FieldSchema} (hf : s.field? e i = some f)
    (h : isSet f = true) : ∃ es, s.slot e i = .members es := by
  have hkind : (s.slot e i).emptied = .members [] := by
    rw [hs.typed.emptied_of_field he hf, freshSlot_of_isSet h]
    rfl
  exact Slot.exists_members hkind

theorem Document.slot_eq (hs : s.Linked) (hd : Document s e) {f : FieldSchema} (hf : s.field? e i = some f) :
    ∃ es, s.slot e i = .members es :=
  slot_members hs hd.has hf (hd.table.2.2.2 f (List.mem_of_getElem? hf))

theorem header_filter (c : Compiler) (hc : (container, member) ∈ scopeContainers) :
    c.header.filter (fun n => n.tag = container) = [] := by
  simp only [scopeContainers, List.mem_cons, Prod.mk.injEq, List.not_mem_nil, or_false] at hc
  rcases hc with ⟨rfl, _⟩ | ⟨rfl, _⟩ <;> rfl

theorem held_header (c : Compiler) (hc : (container, member) ∈ scopeContainers) (ns : List Node) :
    (Node.ofChildren Compiler.rootTag (c.header ++ ns)).held container member =
      (ns.filter fun n => n.tag = container).flatMap (·.childrenNamed member) := by
  change ((c.header ++ ns).filter fun n => n.tag = container).flatMap (·.childrenNamed member) = _
  rw [List.filter_append, header_filter c hc, List.nil_append]

theorem Document.exists_field (hd : Document s e) (hc : (container, member) ∈ scopeContainers) :
    ∃ i f, s.field? e i = some f ∧ f.name = container := by
  have hname : container ∈ (s.schemaOf e).fields.map (·.name) := by
    rw [hd.table.1]
    simp only [scopeContainers, List.mem_cons, Prod.mk.injEq, List.not_mem_nil, or_false] at hc
    rcases hc with ⟨rfl, _⟩ | ⟨rfl, _⟩ <;> decide
  obtain ⟨f, hf, hn⟩ := List.mem_map.mp hname
  obtain ⟨i, hplace⟩ := List.getElem?_of_mem hf
  exact ⟨i, f, hplace, hn⟩

theorem Document.member_table (hd : Document s e) {f : FieldSchema} (hc : (f.name, member) ∈ scopeContainers)
    (hplace : s.field? e i = some f) (howned : Owned s e i ts) :
    ∀ t ∈ ts, (memberTag? s e i).getD (s.schemaOf t.root).tag = member ∧ (s.schemaOf t.root).arrangement = none := by
  intro t ht
  obtain ⟨_, hx, g, hh⟩ := howned t ht
  cases hplace.symm.trans hh.place
  rw [memberTag_eq hplace]
  exact (takes_table _ hd.standard.mem f (List.mem_of_getElem? hplace) _ hx.mem_zipIdx hh.admits).2.2.2 hd.name _ hc rfl

theorem childrenNamed_collectionNodes (hms : ∀ n ∈ ms, n.tag = member) :
    (collectionNodes s e i ms).flatMap (·.childrenNamed member) = ms := by
  rcases collectionNodes_cases s e i ms with hcoll | ⟨hcoll, rfl⟩
  · rw [hcoll, List.flatMap_singleton]
    exact List.filter_eq_self.mpr fun n hn => by simp [hms n hn]
  · rw [hcoll]
    rfl

/-- The elements of a field for hosts or templates, each beside the tree that it stands for. -/
theorem held_part {es : List EntityId} (hslot : s.slot e i = .members es) (howned : Owned s e i ts)
    (htags : ∀ t ∈ ts, (memberTag? s e i).getD (s.schemaOf t.root).tag = member)
    (hpart : Part s (Listed s) e [] i ts ns) :
    List.Forall₂ (fun t n => n.tag = member ∧ Lists s [] t n.children) ts (ns.flatMap (·.childrenNamed member)) := by
  cases hpart with
  | scalar hno => rw [hslot] at hno; cases hno
  | reference hno => rw [hslot] at hno; cases hno
  | members _ hrows =>
      have hrows := rows_forall₂ howned htags hrows
      rw [childrenNamed_collectionNodes fun n hn => ?_]
      · exact hrows
      · obtain ⟨t, _, htag, _⟩ := exists_of_forall₂ hrows hn
        exact htag

/-- The hosts and the templates at the root stand for those that the document holds, in order. -/
theorem Mapped.held (hs : s.Linked) (hd : Document s e) (h : Mapped c s e ns) (hc : (container, member) ∈ scopeContainers) :
    ∃ i ts, Shelf s e container member i ts
      ((Node.ofChildren Compiler.rootTag (c.header ++ ns)).held container member) := by
  have hw := hd.whole hs
  have hassembled := h.assembled
  have hroot := root_subtree s e
  obtain ⟨i, f, hplace, rfl⟩ := hd.exists_field hc
  cases ht : s.subtree e with
  | node e' bs =>
      rw [ht] at hw hassembled hroot
      obtain rfl : e = e' := hroot.symm
      have hlength := hw.length_fields hs hd.has
      have hi : i < bs.length := by
        rw [hlength]
        exact (List.getElem?_eq_some_iff.mp hplace).1
      have hts : bs[i]? = some bs[i] := List.getElem?_eq_getElem hi
      have howned := owned_of_whole hs hd.standard hw hts
      obtain ⟨es, hslot⟩ := hd.slot_eq hs hplace
      have htable := hd.member_table hc hplace howned
      refine ⟨i, bs[i], ?_, fieldName_eq hplace, Store.roots_of_whole hw hts, howned, fun t ht => (htable t ht).2, ?_⟩
      · rw [Store.collection, fieldIndex_eq hd.standard hplace, ok_bind]
        simp only [hslot]
        rfl
      -- no field of a document is arranged, and no other field has the name of this one
      cases hassembled with
      | @node _ _ fields last hparts hlast =>
          have harranged : arrangedIndex? (s.schemaOf e) = none := by rw [arrangedIndex?, hd.table.2.2.1]; rfl
          rw [harranged] at hparts
          have hname : s.fieldName e (0 + i) = f.name := by rw [Nat.zero_add, fieldName_eq hplace]
          have hpart := hparts.filter_eq hts (by simp) hname fun j hj hn =>
            eq_of_fieldName hd.standard hplace (hlength ▸ hj) (by rwa [Nat.zero_add] at hn)
          rw [Nat.zero_add] at hpart
          rw [last_of_not_arranged hd.table.2.2.1 hlast, List.append_nil, held_header c hc]
          exact held_part hslot howned (fun t ht => (htable t ht).1) hpart

/-! ## Names in a pruned document -/

theorem member_mem_markers : ∀ r ∈ rosterModels, r.member ∈ markers := by decide

theorem nestedNames_pruned (hp : p.Tame) {r : RosterModel} (hr : r ∈ rosterModels) (n : Node) (above : List String) :
    nestedNames r.container r.member (n.cut p above) = nestedNames r.container r.member n :=
  hp.nestedNames_cut (ne_star_of_mem hr) (member_mem_markers r hr) n above

theorem exists_of_mem_cut {n k : Node} (hk : k ∈ (n.cut p above).children) :
    ∃ old ∈ n.children, k = old.cut p (n.tag :: above) := by
  rw [cut_eq] at hk
  obtain ⟨old, hold, rfl⟩ := List.mem_map.mp hk
  exact ⟨old, (List.mem_filter.mp hold).1, rfl⟩

theorem container_ne_apart {r : RosterModel} (hr : r ∈ rosterModels) (ha : Apart r tag) : tag ≠ r.container := by
  simp only [rosterModels, List.mem_cons, List.not_mem_nil, or_false] at hr
  rcases hr with rfl | rfl
  · rintro rfl
    simp [Apart] at ha
  · rintro rfl
    simp [Apart] at ha

/-- No names are found in containers that are apart from them, also when they are pruned. -/
theorem found_apart (hp : p.Tame) {r : RosterModel} (hr : r ∈ rosterModels) {t : Subtree} {n k : Node}
    (hl : Lists s [] t n.children) (hk : k ∈ (n.cut p above).children) (ha : Apart r k.tag) :
    found r.container r.member k = [] := by
  obtain ⟨old, hold, rfl⟩ := exists_of_mem_cut hk
  rw [found_of_ne (container_ne_apart hr ha), nestedNames_pruned hp hr]
  rw [tag_cut] at ha
  rw [← found_of_ne (container_ne_apart hr ha)]
  exact hl.apart r hr old hold ha

theorem groups_of_child (hs : s.Linked) (hd : Document s e) (h : Mapped c s e ns) {n : Node} (hn : n ∈ c.header ++ ns)
    (ht : isScopeContainer n.tag = false) : nestedNames "groups" "group" n = [] := by
  rcases List.mem_append.mp hn with hn | hn
  · simp only [Compiler.header, List.mem_cons, List.not_mem_nil, or_false] at hn
    rcases hn with rfl | rfl
    · exact nestedNames_of_childless rfl
    · exact nestedNames_of_childless rfl
  · have htag : n.tag ∈ ["templates", "graphs", "hosts", "screens"] :=
      (h.sublist hs hd).subset (List.mem_map_of_mem hn)
    have hfound := (h.lists hs hd).apart _ groups_mem n hn
    simp only [List.mem_cons, List.not_mem_nil, or_false] at htag
    rcases htag with htag | htag | htag | htag
    · rw [htag] at ht
      cases ht
    · rw [found_of_ne (by simp [htag])] at hfound
      exact hfound (.inl (by simp [htag]))
    · rw [htag] at ht
      cases ht
    · rw [found_of_ne (by simp [htag])] at hfound
      exact hfound (.inl (by simp [htag]))

theorem Mapped.loose (hs : s.Linked) (hd : Document s e) (h : Mapped c s e ns) (hp : p.Tame)
    (hroot : p.Passes Compiler.rootTag) : Loose ((Node.ofChildren Compiler.rootTag (c.header ++ ns)).cut p []) := by
  refine ⟨h.laid hs hd p, ?_, fun n hn ht => ?_, fun scope hscope n hn ht => ?_⟩
  · have hsub : (((Node.ofChildren Compiler.rootTag (c.header ++ ns)).cut p []).children.map (·.tag)).Sublist _ :=
      (map_tag_cut _).trans (h.children hs hd)
    exact List.Pairwise.sublist (hsub.filter isScopeContainer) (by decide)
  · obtain ⟨old, hold, rfl⟩ := exists_of_mem_cut hn
    rw [tag_cut] at ht
    rw [nestedNames_pruned hp groups_mem]
    exact groups_of_child hs hd h hold ht
  · obtain ⟨⟨container, member⟩, hc, hheld⟩ := List.mem_flatMap.mp hscope
    have hheld : scope ∈ ((Node.ofChildren Compiler.rootTag (c.header ++ ns)).cut p []).held container member := hheld
    rw [hp.held_cut (Node.ofChildren Compiler.rootTag (c.header ++ ns)) hroot hc] at hheld
    obtain ⟨old, hold, rfl⟩ := List.mem_map.mp hheld
    obtain ⟨i, ts, hshelf⟩ := h.held hs hd hc
    obtain ⟨t, _, _, hlists⟩ := exists_of_forall₂ hshelf.rows hold
    refine found_apart hp groups_mem hlists hn ?_
    simp only [List.mem_cons, List.not_mem_nil, or_false] at ht
    rcases ht with ht | ht | ht
    · exact .inl (by simp [ht])
    · exact .inl (by simp [ht])
    · exact .inr ⟨ht, rfl⟩

end MonitorExport.Catalogue
