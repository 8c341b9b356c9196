import MonitorExport.Proofs.Catalogue.Members
import MonitorExport.Proofs.Export.Parts
import MonitorExport.Proofs.Export.Rosters

/-!
# Elements of standard entities

The names of groups and applications that are found in the elements of an entity are those of the groups and
applications that it owns, in the same order: a model with an arranged collection owns neither.
-/

namespace MonitorExport.Catalogue

open Subtree Mapping Node

variable {s : Store} {e x : EntityId} {i : Nat} {t : Subtree} {ts : List Subtree} {bs : List (List Subtree)}
  {r : RosterModel} {overrides : Overrides} {ns : List Node}

/-- The names that are set of the entities of a model. -/
def namesOf (s : Store) (model : String) (xs : List EntityId) : List String :=
  xs.filterMap fun x => if (s.schemaOf x).name = model then s.text? x "name" else none

theorem namesOf_append (model : String) (xs ys : List EntityId) :
    namesOf s model (xs ++ ys) = namesOf s model xs ++ namesOf s model ys :=
  List.filterMap_append

theorem namesOf_flatMap {α : Type} (model : String) (l : List α) (f : α → List EntityId) :
    namesOf s model (l.flatMap f) = l.flatMap fun a => namesOf s model (f a) := by
  induction l with
  | nil => rfl
  | cons a l ih => rw [List.flatMap_cons, namesOf_append, ih, List.flatMap_cons]

theorem namesOf_cons_self {model : String} {xs : List EntityId} (h : (s.schemaOf x).name = model) :
    namesOf s model (x :: xs) = (s.text? x "name").toList ++ namesOf s model xs := by
  unfold namesOf
  rw [List.filterMap_cons, if_pos h]
  cases s.text? x "name" <;> rfl

theorem namesOf_cons_ne {model : String} {xs : List EntityId} (h : (s.schemaOf x).name ≠ model) :
    namesOf s model (x :: xs) = namesOf s model xs := by
  unfold namesOf
  rw [List.filterMap_cons, if_neg h]

theorem ne_star_of_mem (hr : r ∈ rosterModels) : r.member ≠ "*" := by
  simp only [rosterModels, List.mem_cons, List.not_mem_nil, or_false] at hr
  rcases hr with rfl | rfl
  · exact group_ne_star
  · exact application_ne_star

theorem model_ne_plain : ∀ r ∈ rosterModels, r.model ∉ plainModels := by decide

theorem namesOf_plain (hr : r ∈ rosterModels) {xs : List EntityId} (h : ∀ x ∈ xs, (s.schemaOf x).name ∈ plainModels) :
    namesOf s r.model xs = [] := by
  refine List.filterMap_eq_nil_iff.mpr fun x hx => if_neg fun hn => ?_
  exact model_ne_plain r hr (hn ▸ h x hx)

/-! ## Members of a field -/

/-- What is known of the members of a field of a standard entity. -/
def Owned (s : Store) (e : EntityId) (i : Nat) (ts : List Subtree) : Prop :=
  ∀ t ∈ ts, t.Whole s ∧ Standard s t.root ∧ ∃ f, Holds s e i t.root f

theorem fieldName_eq {f : FieldSchema} (h : s.field? e i = some f) : s.fieldName e i = f.name := by
  rw [Store.fieldName, h]
  rfl

theorem memberTag_eq {f : FieldSchema} (h : s.field? e i = some f) (m : ModelSchema) :
    (memberTag? s e i).getD m.tag = memberTag f m := by
  unfold memberTag? memberTag
  rw [Store.kind, h, Option.map_some, Option.getD_some]
  cases f.kind <;> rfl

/-- The tag under which an entity stands in a field. -/
abbrev tagIn (s : Store) (e : EntityId) (i : Nat) (x : EntityId) : String :=
  (memberTag? s e i).getD (s.schemaOf x).tag

theorem roster_of_holds (h : Standard s e) (hx : Standard s x) {f : FieldSchema} (hh : Holds s e i x f)
    (hr : r ∈ rosterModels) : (s.fieldName e i = r.container ↔ (s.schemaOf x).name = r.model) ∧
      tagIn s e i x ≠ r.container ∧ ((s.schemaOf x).name = r.model → tagIn s e i x = r.member) := by
  rw [fieldName_eq hh.place, tagIn, memberTag_eq hh.place]
  exact (takes_table _ h.mem f (List.mem_of_getElem? hh.place) _ hx.mem_zipIdx hh.admits).1 r hr

/-- The tags of containers with none of the names of a roster. -/
def Apart (r : RosterModel) (tag : String) : Prop :=
  tag ∈ ["graphs", "screens", "triggers"] ∨ tag = "applications" ∧ r.model = "Group"

/-- What the elements of a standard entity list. -/
structure Lists (s : Store) (overrides : Overrides) (t : Subtree) (ns : List Node) : Prop where
  names : ∀ r ∈ rosterModels, ns.flatMap (found r.container r.member) = namesOf s r.model t.owned
  own : ∀ r ∈ rosterModels, (s.schemaOf t.root).name = r.model → overrides = [] →
    (ns.filter fun n => n.tag = "name").filterMap (·.text) = (s.text? t.root "name").toList
  tags : (s.schemaOf t.root).arrangement = none → (ns.map (·.tag)).Sublist ((s.schemaOf t.root).fields.map (·.name))
  apart : ∀ r ∈ rosterModels, ∀ n ∈ ns, Apart r n.tag → found r.container r.member n = []

/-- What is shown of the elements of trees of standard entities. -/
def Listed (s : Store) (overrides : Overrides) (t : Subtree) (ns : List Node) : Prop :=
  t.Whole s → Standard s t.root → Lists s overrides t ns

section Rows

variable {ov : Nat → Overrides} {k : Nat} {ms : List Node} (h : Standard s e) (hts : Owned s e i ts)
  (hrows : Rows s (Listed s) (memberTag? s e i) ov k ts ms) (hr : r ∈ rosterModels)

include h hts hrows hr

theorem rows_found : ms.flatMap (found r.container r.member) = ts.flatMap fun t => namesOf s r.model t.owned := by
  induction hrows with
  | nil => rfl
  | @cons k t ts children ns hpost _ ih =>
      obtain ⟨hw, hx, f, hh⟩ := hts t (by simp)
      have hne := (roster_of_holds h hx hh hr).2.1
      have hlists := hpost hw hx
      rw [List.flatMap_cons, List.flatMap_cons, ih fun t ht => hts t (by simp [ht])]
      rw [found_of_ne hne, nestedNames_eq (ne_star_of_mem hr)]
      exact congrArg (· ++ _) (hlists.names r hr)

theorem rows_own (hc : s.fieldName e i = r.container) (hov : ∀ k, ov k = []) :
    ms.flatMap (ownNames r.member) = ts.flatMap fun t => (s.text? t.root "name").toList := by
  induction hrows with
  | nil => rfl
  | @cons k t ts children ns hpost _ ih =>
      obtain ⟨hw, hx, f, hh⟩ := hts t (by simp)
      obtain ⟨hiff, _, htag⟩ := roster_of_holds h hx hh hr
      have hn := hiff.mp hc
      rw [List.flatMap_cons, List.flatMap_cons, ih fun t ht => hts t (by simp [ht])]
      have hmember : (Node.ofChildren (tagIn s e i t.root) children).tag = r.member := htag hn
      refine congrArg (· ++ _) ?_
      rw [ownNames, if_pos hmember]
      exact (hpost hw hx).own r hr hn (hov k)

omit h hts hr in
theorem rows_nil (hms : ms = []) : ts = [] := by
  cases hrows with
  | nil => rfl
  | cons => cases hms

/-- The names found in a collection are those of its members and of what these own. -/
theorem collection_found (hs : s.Linked) (hov : ∀ t ∈ ts, (s.schemaOf t.root).name = r.model → ∀ k, ov k = []) :
    (collectionNodes s e i ms).flatMap (found r.container r.member) = namesOf s r.model (preorderOfMembers ts) := by
  have hfound := rows_found h hts hrows hr
  rw [preorderOfMembers_eq, namesOf_flatMap]
  rcases collectionNodes_cases s e i ms with hc | ⟨hc, hms⟩
  · rw [hc, List.flatMap_singleton, found, nestedNames_eq (ne_star_of_mem hr), listed]
    change (if s.fieldName e i = r.container then ms.flatMap (ownNames r.member) else []) ++
      ms.flatMap (found r.container r.member) = _
    rw [hfound]
    by_cases hname : s.fieldName e i = r.container
    -- the members are of the roster themselves, and such entities own nothing
    · have howned : ∀ t ∈ ts, namesOf s r.model t.owned = [] := fun t ht => by
        obtain ⟨hw, hx, f, hh⟩ := hts t ht
        rw [owned_roster hs hw hx hr ((roster_of_holds h hx hh hr).1.mp hname)]
        rfl
      have hpre : ∀ t ∈ ts, namesOf s r.model t.preorder = (s.text? t.root "name").toList := fun t ht => by
        obtain ⟨_, hx, f, hh⟩ := hts t ht
        rw [preorder_eq, namesOf_cons_self ((roster_of_holds h hx hh hr).1.mp hname), howned t ht, List.append_nil]
      rw [if_pos hname, List.flatMap_eq_nil_iff.mpr howned, List.append_nil, List.flatMap_congr hpre]
      cases ts with
      | nil =>
          cases hrows
          rfl
      | cons t ts =>
          obtain ⟨_, hx, f, hh⟩ := hts t (by simp)
          exact rows_own h hts hrows hr hname (hov t (by simp) ((roster_of_holds h hx hh hr).1.mp hname))
    · have hpre : ∀ t ∈ ts, namesOf s r.model t.preorder = namesOf s r.model t.owned := fun t ht => by
        obtain ⟨_, hx, f, hh⟩ := hts t ht
        rw [preorder_eq, namesOf_cons_ne fun hn => hname ((roster_of_holds h hx hh hr).1.mpr hn)]
      rw [if_neg hname, List.nil_append, List.flatMap_congr hpre]
  · rw [hc, rows_nil hrows hms]
    rfl

end Rows

/-! ## Fields -/

theorem owned_of_whole (hs : s.Linked) (h : Standard s e) (hw : (Subtree.node e bs).Whole s) (hi : bs[i]? = some ts) :
    Owned s e i ts := fun _ ht => holds_of_whole hs h hw hi ht

theorem branch_nil (hw : (Subtree.node e bs).Whole s) (hi : bs[i]? = some ts)
    (hslot : ∀ es, s.slot e i ≠ .members es) : ts = [] := by
  have hroots := Store.roots_of_whole hw hi
  rw [Store.members_eq] at hroots
  cases hsl : s.slot e i with
  | members es => exact absurd hsl (hslot es)
  | scalar _ => exact List.map_eq_nil_iff.mp (by rw [hroots, hsl]; rfl)
  | binding _ => exact List.map_eq_nil_iff.mp (by rw [hroots, hsl]; rfl)

theorem part_found (hs : s.Linked) (h : Standard s e) (hw : (Subtree.node e bs).Whole s) (hi : bs[i]? = some ts)
    (hr : r ∈ rosterModels) (hpart : Part s (Listed s) e overrides i ts ns) :
    ns.flatMap (found r.container r.member) = namesOf s r.model (preorderOfMembers ts) := by
  cases hpart with
  | scalar hslot hn =>
      obtain ⟨v, rfl⟩ := scalarNodes_eq hn
      rw [branch_nil hw hi (by simp [hslot])]
      cases v with
      | none => rfl
      | some v =>
          refine List.flatMap_eq_nil_iff.mpr fun n hn => found_of_childless ?_
          rw [List.mem_singleton.mp hn]
          rfl
  | @reference _ n hslot hn =>
      rw [branch_nil hw hi (by simp [hslot]), List.flatMap_singleton]
      exact found_of_flat (ne_star_of_mem hr) (referenceNode_eq hn).2
  | members _ hrows => exact collection_found h (owned_of_whole hs h hw hi) hrows hr hs fun _ _ _ _ => rfl

theorem arrangement_of_arrangedIndex {m : ModelSchema} (h : arrangedIndex? m = some i) : m.arrangement ≠ none := by
  intro hn
  rw [arrangedIndex?, hn] at h
  cases h

theorem plain_of_arranged (hs : s.Linked) (h : Standard s e) (hw : (Subtree.node e bs).Whole s)
    (ha : (s.schemaOf e).arrangement ≠ none) (hi : bs[i]? = some ts) :
    ∀ x ∈ preorderOfMembers ts, (s.schemaOf x).name ∈ plainModels := by
  intro x hx
  have hmem : x ∈ (Subtree.node e bs).preorder :=
    mem_preorder.mpr (.inr ⟨ts, List.mem_of_getElem? hi, mem_preorderOfMembers.mp hx⟩)
  exact plain_of_whole hs hw h ((fields_table _ h.mem).2.2.1 ha) x hmem

theorem root_mem_preorder (t : Subtree) : t.root ∈ t.preorder := by
  rw [preorder_eq]
  exact List.mem_cons_self ..

theorem last_found (hs : s.Linked) (h : Standard s e) (hw : (Subtree.node e bs).Whole s) (hr : r ∈ rosterModels)
    (hlast : Last s (Listed s) e bs ns) : ns.flatMap (found r.container r.member) = [] := by
  cases hlast with
  | none => rfl
  | @members index a es width ms hi ha hslot _ hrows =>
      have harranged := arrangement_of_arrangedIndex hi
      cases hts : bs[index]? with
      | none =>
          rw [List.getD_eq_getElem?_getD, hts] at hrows
          cases hrows
          rcases collectionNodes_cases s e index [] with hc | ⟨hc, _⟩
          · rw [hc, List.flatMap_singleton]
            exact found_of_childless rfl
          · rw [hc]
            rfl
      | some ts =>
          rw [List.getD_eq_getElem?_getD, hts] at hrows
          have hplain := plain_of_arranged hs h hw harranged hts
          rw [collection_found h (owned_of_whole hs h hw hts) hrows hr hs fun t ht hn => ?_]
          · exact namesOf_plain hr hplain
          · have hroot := hplain t.root (mem_preorderOfMembers.mpr ⟨t, ht, root_mem_preorder t⟩)
            exact absurd (hn ▸ hroot) (model_ne_plain r hr)

/-! ## Entities -/

theorem names_of_assembled (hs : s.Linked) (hw : t.Whole s) (h : Standard s t.root) (hr : r ∈ rosterModels)
    (ha : Assembled s (Listed s) overrides t ns) :
    ns.flatMap (found r.container r.member) = namesOf s r.model t.owned := by
  cases ha with
  | @node e branches fields last hparts hlast =>
      rw [List.flatMap_append, last_found hs h hw hr hlast, List.append_nil, owned, preorderOfBranches_eq, namesOf_flatMap]
      refine hparts.flatMap (fun i ts here hi hpart => ?_) fun i ts hi harranged => ?_
      · rw [Nat.zero_add] at hpart
        exact part_found hs h hw hi hr hpart
      · exact namesOf_plain hr (plain_of_arranged hs h hw (arrangement_of_arrangedIndex harranged) hi)

theorem last_of_not_arranged {post : Overrides → Subtree → List Node → Prop} (ha : (s.schemaOf e).arrangement = none)
    (hlast : Last s post e bs ns) : ns = [] := by
  cases hlast with
  | none => rfl
  | members _ hsome => cases ha.symm.trans hsome

theorem map_fieldName (s : Store) (e : EntityId) : (List.range' 0 (s.schemaOf e).fields.length).map (s.fieldName e) =
    (s.schemaOf e).fields.map (·.name) := by
  refine List.ext_getElem (by simp) fun i _ hi => ?_
  rw [List.length_map] at hi
  have hf : s.field? e i = some (s.schemaOf e).fields[i] := List.getElem?_eq_getElem hi
  simp [fieldName_eq hf]

/-- An entity has an element for each field at most, in the order of its table. -/
theorem tags_of_assembled {post : Overrides → Subtree → List Node → Prop} (hs : s.Linked) (hw : t.Whole s)
    (he : s.Has t.root) (hn : (s.schemaOf t.root).arrangement = none) (ha : Assembled s post overrides t ns) :
    (ns.map (·.tag)).Sublist ((s.schemaOf t.root).fields.map (·.name)) := by
  cases ha with
  | @node e branches fields last hparts hlast =>
      have hlength : branches.length = (s.schemaOf e).fields.length := hw.length_fields hs he
      have hsub := hparts.sublist
      rw [hlength, map_fieldName] at hsub
      rw [last_of_not_arranged hn hlast, List.append_nil]
      exact hsub

theorem scalarNodes_read {palette palette' : Palette} (hk : s.kind e i = .scalar)
    (h : scalarNodes s e i [] palette = .ok (ns, palette')) :
    ∃ v, s.read e i = .ok v ∧ ns = (v.map fun v => Node.leaf (s.fieldName e i) v.render).toList := by
  have hread : s.readDrawing e i palette = (s.read e i).map (·, palette) := by simp [Store.readDrawing, hk]
  change (s.readDrawing e i palette >>= _) = _ at h
  rw [hread] at h
  cases hv : s.read e i with
  | error err =>
      rw [hv] at h
      cases h
  | ok v =>
      rw [hv] at h
      cases h
      exact ⟨v, rfl, rfl⟩

theorem get_of_single {f : FieldSchema} (hf : (s.schemaOf e).fields = [f]) : s.get e f.name = s.read e 0 := by
  have hindex : s.fieldIndex e f.name = .ok 0 := by
    rw [Store.fieldIndex, ModelSchema.fieldIndex?, hf, List.findIdx?_cons, decide_eq_true rfl]
    rfl
  rw [Store.get, hindex]
  rfl

/-- The name of a group or an application is written as it is read. -/
theorem own_of_assembled (hs : s.Linked) (hw : t.Whole s) (h : Standard s t.root) (hr : r ∈ rosterModels)
    (hn : (s.schemaOf t.root).name = r.model) (ha : Assembled s (Listed s) [] t ns) :
    (ns.filter fun n => n.tag = "name").filterMap (·.text) = (s.text? t.root "name").toList := by
  obtain ⟨hfields, harr, _⟩ := (fields_table _ h.mem).2.2.2.1 r hr hn
  obtain ⟨f, hf, hname⟩ := List.map_eq_singleton_iff.mp hfields
  obtain ⟨hname, hkind⟩ := Prod.mk.inj hname
  cases ha with
  | @node e branches fields last hparts hlast =>
      rw [Subtree.root] at *
      have hplace : s.field? e 0 = some f := by rw [Store.field?, hf]; rfl
      have hk : s.kind e 0 = .scalar := by rw [Store.kind, hplace, Option.map_some, Option.getD_some, hkind]
      have htag : s.fieldName e 0 = "name" := (fieldName_eq hplace).trans hname
      have hempty : (s.slot e 0).emptied = .scalar none := by
        rw [hs.typed.emptied_of_field h.has hplace, Store.freshSlot, hkind]
        rfl
      have hlength : branches.length = 1 := by rw [hw.length_fields hs h.has, hf, List.length_singleton]
      obtain ⟨ts, rfl⟩ := List.length_eq_one_iff.mp hlength
      rw [last_of_not_arranged harr hlast, List.append_nil]
      cases hparts with
      | skip hskip => exact absurd harr (arrangement_of_arrangedIndex hskip)
      | cons _ hpart hrest =>
          cases hrest
          cases hpart with
          | reference hslot => rw [hslot] at hempty; cases hempty
          | members hslot => rw [hslot] at hempty; cases hempty
          | scalar _ hnodes =>
              obtain ⟨v, hread, rfl⟩ := scalarNodes_read hk hnodes
              have hget : s.get e "name" = .ok v := by rw [← hname, get_of_single hf, hread]
              rw [Store.text?, hget, List.append_nil, htag]
              cases v <;> rfl

theorem groups_mem : (⟨"groups", "group", "Group"⟩ : RosterModel) ∈ rosterModels := List.mem_cons_self ..

theorem applications_mem : (⟨"applications", "application", "Application"⟩ : RosterModel) ∈ rosterModels :=
  List.mem_cons_of_mem _ (List.mem_cons_self ..)

/-- Graphs, screens and triggers own no groups and no applications, and applications own no groups. -/
theorem namesOf_apart (hs : s.Linked) (h : Standard s e) (hts : Owned s e i ts) (hr : r ∈ rosterModels)
    (hname : Apart r (s.fieldName e i)) : namesOf s r.model (preorderOfMembers ts) = [] := by
  rw [preorderOfMembers_eq, namesOf_flatMap, List.flatMap_eq_nil_iff]
  intro t ht
  obtain ⟨hw, hx, f, hh⟩ := hts t ht
  rcases hname with hplain | ⟨happ, hgroup⟩
  · rw [fieldName_eq hh.place] at hplain
    have hroot : (s.schemaOf t.root).name ∈ plainModels :=
      (takes_table _ h.mem f (List.mem_of_getElem? hh.place) _ hx.mem_zipIdx hh.admits).2.1 (.inr hplain)
    exact namesOf_plain hr (plain_of_whole hs hw hx hroot)
  · have hn : (s.schemaOf t.root).name = "Application" := (roster_of_holds h hx hh applications_mem).1.mp happ
    have hne : (s.schemaOf t.root).name ≠ r.model := by
      rw [hn, hgroup]
      decide
    rw [preorder_eq, owned_roster hs hw hx applications_mem hn, namesOf_cons_ne hne]
    rfl

theorem apart_of_assembled (hs : s.Linked) (hw : t.Whole s) (h : Standard s t.root) (hr : r ∈ rosterModels)
    (ha : Assembled s (Listed s) overrides t ns) :
    ∀ n ∈ ns, Apart r n.tag → found r.container r.member n = [] := by
  cases ha with
  | @node e branches fields last hparts hlast =>
      intro n hn htag
      rcases List.mem_append.mp hn with hn | hn
      · obtain ⟨i, ts, here, hi, _, hpart, hmem⟩ := hparts.exists_part hn
        rw [hpart.tag_eq hmem] at htag
        rw [Nat.zero_add] at hpart htag
        have hfound := part_found hs h hw hi hr hpart
        rw [namesOf_apart hs h (owned_of_whole hs h hw hi) hr htag] at hfound
        exact List.flatMap_eq_nil_iff.mp hfound n hmem
      · exact List.flatMap_eq_nil_iff.mp (last_found hs h hw hr hlast) n hn

theorem assembles (hs : s.Linked) : Assembles s (Listed s) := by
  intro overrides t ns ha hw h
  refine ⟨fun r hr => names_of_assembled hs hw h hr ha, fun r hr hn ho => ?_, fun hn => ?_, fun r hr => ?_⟩
  · subst ho
    exact own_of_assembled hs hw h hr hn ha
  · exact tags_of_assembled hs hw h.has hn ha
  · exact apart_of_assembled hs hw h hr ha

end MonitorExport.Catalogue
