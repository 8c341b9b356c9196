import MonitorExport.Proofs.Catalogue.Exports
import MonitorExport.Proofs.Catalogue.Fields
import MonitorExport.Proofs.Store.Identities

/-!
# What compiling asks of references

The standard models have two references, the item of a graph's item and the resource of a screen's item. An
entity of theirs compiles exactly if each of these below it stands for something, and otherwise it fails as the
first that does not.
-/

namespace MonitorExport.Catalogue

open Store Mapping

/-! ## Tables -/

/-- A reference of a standard model, and the field by which what it points at is named. -/
structure ReferenceField where
  model : String
  field : String
  key : String
deriving DecidableEq

def referenceFields : List ReferenceField :=
  [⟨"GraphItem", "item", "key"⟩, ⟨"ScreenItem", "resource", "name"⟩]

/-- Whether a field is a reference that points at entities of a model of the catalogue. -/
def pointsAt (field : FieldSchema) (p : ModelSchema × Nat) : Bool :=
  match field.kind, field.target with
  | .reference _ _, some k => p.2 = k || p.1.lineage.contains k
  | _, _ => false

/-- There are no other references, and what they point at can be named. -/
theorem reference_table : ∀ m ∈ models, ∀ field ∈ m.fields, isReference field = true →
    ∃ r ∈ referenceFields, m.name = r.model ∧ field.name = r.field ∧
      ∀ p ∈ models.zipIdx, pointsAt field p = true → p.1.reference = some ⟨r.key, r.key⟩ ∧ hasPlain p.1 r.key = true := by
  decide +kernel

theorem reference_there : ∀ r ∈ referenceFields, ∀ m ∈ models, m.name = r.model →
    ∃ field ∈ m.fields, field.name = r.field ∧ isReference field = true := by
  decide +kernel

/-! ## References of entities -/

variable {s : Store} {e x a : EntityId} {i : Nat} {f : FieldSchema} {r : ReferenceField}

/-- Whether a place of an entity's table is a reference of its model. -/
structure IsReference (s : Store) (x : EntityId) (i : Nat) (r : ReferenceField) : Prop where
  mem : r ∈ referenceFields
  model : (s.schemaOf x).name = r.model
  place : s.reference x r.field = .ok i

/-- Whether a reference stands for something: for a literal, or for an entity that has a value in the field by which
it is named. -/
def Stands (s : Store) (x : EntityId) (i : Nat) (key : String) : Prop :=
  match s.binding x i with
  | .unbound => False
  | .literal _ => True
  | .entity a => ∃ v, s.get a key = .ok (some v)

/-- The failure of compiling a reference that stands for nothing. -/
inductive Offends (s : Store) (x : EntityId) (i : Nat) (r : ReferenceField) : ConfigError → Prop
  | unbound (h : s.binding x i = .unbound) : Offends s x i r (.danglingReference r.model r.field)
  | unnamed {a : EntityId} (h : s.binding x i = .entity a) (hv : s.get a r.key = .ok none) :
      Offends s x i r (.unnamedTarget (s.schemaOf a).name r.key)

theorem slot_binding (hs : s.Linked) (h : Standard s x) (hf : s.field? x i = some f) (hr : isReference f = true) :
    ∃ b, s.slot x i = .binding b := by
  have hk : f.kind.isScalar = false := by
    unfold isReference at hr
    cases hkind : f.kind <;> simp_all [FieldKind.isScalar]
  obtain ⟨k, htarget⟩ := Option.isSome_iff_exists.mp ((countable_table _ h.mem f (List.mem_of_getElem? hf)).2 hk)
  have hkind : (s.slot x i).emptied = .binding .unbound := by
    rw [hs.typed.emptied_of_field h.has hf, freshSlot, htarget]
    unfold isReference at hr
    cases hkind : f.kind <;> simp_all [Slot.emptied]
  exact Slot.exists_binding hkind

theorem isReference_of_slot (hs : s.Linked) (h : Standard s x) {b : Binding} (hslot : s.slot x i = .binding b) :
    ∃ f, s.field? x i = some f ∧ isReference f = true := by
  obtain ⟨f, hf⟩ := hs.typed.field_of_slot (by rw [hslot]; nofun : s.slot x i ≠ .scalar none)
  refine ⟨f, hf, ?_⟩
  have hkind := hs.typed.emptied_of_field h.has hf
  rw [hslot, freshSlot] at hkind
  unfold isReference
  cases hk : f.kind <;> cases ht : f.target <;> simp_all [Slot.emptied]

theorem reference_eq (h : Standard s x) (hf : s.field? x i = some f) {b : Binding} (hslot : s.slot x i = .binding b) :
    s.reference x f.name = .ok i := by
  simp only [Store.reference, fieldIndex_eq h hf, ok_bind, hslot]
  rfl

/-- The references of a standard entity are those in the table. -/
theorem exists_isReference (hs : s.Linked) (h : Standard s x) {b : Binding} (hslot : s.slot x i = .binding b) :
    ∃ r, IsReference s x i r := by
  obtain ⟨f, hf, hr⟩ := isReference_of_slot hs h hslot
  obtain ⟨r, hmem, hmodel, hname, _⟩ := reference_table _ h.mem f (List.mem_of_getElem? hf) hr
  exact ⟨r, hmem, hmodel, hname ▸ reference_eq h hf hslot⟩

theorem model_unique : ∀ r ∈ referenceFields, ∀ r' ∈ referenceFields, r.model = r'.model → r = r' := by decide

theorem exists_reference (hs : s.Linked) (h : Standard s x) (hr : r ∈ referenceFields)
    (hm : (s.schemaOf x).name = r.model) : ∃ i, IsReference s x i r := by
  obtain ⟨f, hf, hname, href⟩ := reference_there r hr _ h.mem hm
  obtain ⟨i, hi⟩ := List.getElem?_of_mem hf
  obtain ⟨b, hslot⟩ := slot_binding hs h hi href
  exact ⟨i, hr, hm, hname ▸ reference_eq h hi hslot⟩

namespace IsReference

theorem slot (h : IsReference s x i r) : ∃ b, s.slot x i = .binding b := by
  have hplace := h.place
  unfold Store.reference at hplace
  obtain ⟨j, _, hj⟩ := bind_eq_ok hplace
  cases hslot : s.slot x j with
  | binding b =>
      rw [hslot] at hj
      cases hj
      exact ⟨b, hslot⟩
  | scalar _ => rw [hslot] at hj; cases hj
  | members _ => rw [hslot] at hj; cases hj

/-- The field of a reference has the name of the table, and points at what can be named. -/
theorem field (hs : s.Linked) (hx : Standard s x) (h : IsReference s x i r) : ∃ f, s.field? x i = some f ∧
    f.name = r.field ∧ ∀ p ∈ models.zipIdx, pointsAt f p = true →
      p.1.reference = some ⟨r.key, r.key⟩ ∧ hasPlain p.1 r.key = true := by
  obtain ⟨b, hslot⟩ := h.slot
  obtain ⟨f, hf, hr⟩ := isReference_of_slot hs hx hslot
  obtain ⟨r', hmem, hmodel, hname, hpoints⟩ := reference_table _ hx.mem f (List.mem_of_getElem? hf) hr
  cases model_unique _ h.mem _ hmem (h.model.symm.trans hmodel)
  exact ⟨f, hf, hname, hpoints⟩

end IsReference

/-- What a reference is bound to is of a model that can be named. -/
theorem IsReference.pointed (hs : s.Linked) (hx : Standard s x) (h : IsReference s x i r)
    (hb : s.binding x i = .entity a) :
    Standard s a ∧ (s.schemaOf a).reference = some ⟨r.key, r.key⟩ ∧ hasPlain (s.schemaOf a) r.key = true := by
  obtain ⟨f, hf, _, hpoints⟩ := h.field hs hx
  obtain ⟨b, hslot⟩ := h.slot
  have hk : ∃ model appendHost k, f.kind = .reference model appendHost ∧ f.target = some k := by
    have hkind := hs.typed.emptied_of_field hx.has hf
    rw [hslot, freshSlot] at hkind
    cases hk : f.kind <;> cases ht : f.target <;> simp_all [Slot.emptied]
  obtain ⟨model, appendHost, k, hkind, htarget⟩ := hk
  obtain ⟨ha, _, hplace⟩ := hx.admitted hf htarget (hs.typed.admits_of_binding hb)
  refine ⟨ha, hpoints _ ha.mem_zipIdx ?_⟩
  unfold pointsAt
  simp only [hkind, htarget, Bool.or_eq_true, decide_eq_true_eq]
  exact hplace

/-! ## Resolving -/

/-- An identity is completed by the host of a standard entity without fail. -/
theorem failureOf_completed (hs : s.Linked) (hx : Standard s x) (i : Nat) (identity : Identity) :
    failureOf (completed s x i identity) = none := by
  unfold completed
  split
  · exact exists_ok_iff.mp (withHost_ok (fun a ha => get_name_of_stampingHost hs hx ha) identity)
  · rfl

/-- An entity has an identity if the field by which it is named is set. -/
theorem identity_eq (hs : s.Linked) (ha : Standard s a) {key : String}
    (hr : (s.schemaOf a).reference = some ⟨key, key⟩) {v : Option Value} (hv : s.get a key = .ok v) :
    match v with
    | none => s.identity a = .error (.unnamedTarget (s.schemaOf a).name key)
    | some _ => ∃ identity, s.identity a = .ok identity := by
  unfold Store.identity
  dsimp only
  rw [hr]
  simp only [hv, ok_bind]
  cases v with
  | none => rfl
  | some v => exact withHost_ok (fun b hb => get_name_of_hostScope hs ha hb) _

/-- A reference is resolved if it stands for something, and fails as it offends if it does not. -/
theorem resolve_cases (hs : s.Linked) (hx : Standard s x) (h : IsReference s x i r) :
    Stands s x i r.key ∧ failureOf (s.resolve x i) = none ∨
      ¬ Stands s x i r.key ∧ ∃ err, Offends s x i r err ∧ failureOf (s.resolve x i) = some err := by
  unfold Stands
  cases hb : s.binding x i with
  | literal identity => exact .inl ⟨trivial, resolve_literal hb ▸ failureOf_completed hs hx i identity⟩
  | unbound =>
      obtain ⟨f, hf, hname, _⟩ := h.field hs hx
      refine .inr ⟨id, _, .unbound hb, ?_⟩
      rw [resolve_unbound hb, h.model, fieldName_eq hf, hname]
      rfl
  | entity a =>
      obtain ⟨ha, href, hplain⟩ := h.pointed hs hx hb
      obtain ⟨v, hv⟩ := ha.get_of_hasPlain hs hplain
      have hidentity := identity_eq hs ha href hv
      rw [resolve_entity hb]
      cases v with
      | none =>
          refine .inr ⟨fun ⟨w, hw⟩ => ?_, _, .unnamed hb hv, ?_⟩
          · rw [hv] at hw
            cases hw
          · rw [show s.identity a = _ from hidentity]
            rfl
      | some v =>
          obtain ⟨identity, hok⟩ := hidentity
          rw [hok, ok_bind]
          exact .inl ⟨⟨v, hv⟩, failureOf_completed hs hx i identity⟩

/-! ## Compiling -/

theorem failureOf_compile (h : ∀ x ∈ (s.subtree e).preorder, Readable s x) (c : Compiler) :
    failureOf (c.compile s e) = firstFailure s (references s (s.subtree e)) := by
  have hnodes := entityNodes_failsAs [] (s.subtree e) h c.palette.reset
  rw [← hnodes, Compiler.compile, failureOf_map, Compiler.mapRoot]
  change failureOf (Mapping.entityNodes s [] (s.subtree e) c.palette.reset >>= _) = _
  cases Mapping.entityNodes s [] (s.subtree e) c.palette.reset with
  | error err => rfl
  | ok p =>
      simp only [ok_bind]
      split <;> rfl

section Tree

variable {t : Subtree} (hs : s.Linked) (hw : t.Whole s) (ht : Standard s t.root)

include hs hw ht

/-- The references of the tree of a standard entity are those in the table, at or below it. -/
theorem mem_references_iff : (x, i) ∈ references s t ↔ s.AtOrAbove x t.root ∧ ∃ r, IsReference s x i r := by
  rw [mem_references hw, mem_preorder_of_whole hs hw]
  refine and_congr_right fun hx => ⟨fun ⟨b, hslot⟩ => ?_, fun ⟨r, hr⟩ => hr.slot⟩
  exact exists_isReference hs (standard_of_whole hs hw ht x ((mem_preorder_of_whole hs hw x).mpr hx)) hslot

theorem resolve_cases_of_mem (hx : (x, i) ∈ references s t) (hr : IsReference s x i r) :
    Stands s x i r.key ∧ failureOf (s.resolve x i) = none ∨
      ¬ Stands s x i r.key ∧ ∃ err, Offends s x i r err ∧ failureOf (s.resolve x i) = some err :=
  resolve_cases hs (standard_of_whole hs hw ht x ((mem_references hw).mp hx).1) hr

/-- No reference of a tree fails exactly if all stand for something. -/
theorem firstFailure_eq_none_iff : firstFailure s (references s t) = none ↔ ∀ x, s.AtOrAbove x t.root →
    ∀ r ∈ referenceFields, (s.schemaOf x).name = r.model →
      ∃ i, s.reference x r.field = .ok i ∧ Stands s x i r.key := by
  rw [firstFailure, List.findSome?_eq_none_iff]
  constructor
  · intro hnone x hx r hr hm
    have hstandard := standard_of_whole hs hw ht x ((mem_preorder_of_whole hs hw x).mpr hx)
    obtain ⟨i, hi⟩ := exists_reference hs hstandard hr hm
    have hmem : (x, i) ∈ references s t := (mem_references_iff hs hw ht).mpr ⟨hx, r, hi⟩
    rcases resolve_cases_of_mem hs hw ht hmem hi with ⟨hstands, _⟩ | ⟨_, err, _, herr⟩
    · exact ⟨i, hi.place, hstands⟩
    · rw [hnone _ hmem] at herr
      cases herr
  · rintro hall ⟨x, i⟩ hmem
    obtain ⟨hx, r, hr⟩ := (mem_references_iff hs hw ht).mp hmem
    rcases resolve_cases_of_mem hs hw ht hmem hr with ⟨_, hnone⟩ | ⟨hnot, _⟩
    · exact hnone
    · obtain ⟨j, hj, hstands⟩ := hall x hx r hr.mem hr.model
      rw [hr.place] at hj
      cases hj
      exact absurd hstands hnot

/-- The failure of a tree is that of the first reference that stands for nothing. -/
theorem exists_offending {err : ConfigError} (h : firstFailure s (references s t) = some err) :
    ∃ before x i after r, references s t = before ++ (x, i) :: after ∧
      (∀ y j r', (y, j) ∈ before → IsReference s y j r' → Stands s y j r'.key) ∧
      IsReference s x i r ∧ Offends s x i r err := by
  rw [firstFailure, List.findSome?_eq_some_iff] at h
  obtain ⟨before, ⟨x, i⟩, after, hsplit, hfail, hbefore⟩ := h
  have hmem : (x, i) ∈ references s t := hsplit ▸ List.mem_append_right _ List.mem_cons_self
  obtain ⟨_, r, hr⟩ := (mem_references_iff hs hw ht).mp hmem
  refine ⟨before, x, i, after, r, hsplit, fun y j r' hy hr' => ?_, hr, ?_⟩
  · have hy' : (y, j) ∈ references s t := hsplit ▸ List.mem_append_left _ hy
    rcases resolve_cases_of_mem hs hw ht hy' hr' with ⟨hstands, _⟩ | ⟨_, err', _, herr'⟩
    · exact hstands
    · rw [hbefore _ hy] at herr'
      cases herr'
  · rcases resolve_cases_of_mem hs hw ht hmem hr with ⟨_, hnone⟩ | ⟨_, err', hoffends, herr'⟩
    · rw [hnone] at hfail
      cases hfail
    · rw [hfail] at herr'
      cases herr'
      exact hoffends

end Tree

/-- An entity whose owners end compiles exactly if all references at or below it stand for something. These are the
items of graph items and the resources of screen items. If it does not compile, then because of the first reference
in the order of the mapping that stands for nothing. -/
theorem compile_stands (h : Reachable s) (he : Standard s e) (hf : Finishes s.owner e) (c : Compiler) :
    ((∃ root, c.compile s e = .ok root) ↔ ∀ x, s.AtOrAbove x e → ∀ r ∈ referenceFields,
      (s.schemaOf x).name = r.model → ∃ i, s.reference x r.field = .ok i ∧ Stands s x i r.key) ∧
    (∀ x i, (x, i) ∈ references s (s.subtree e) ↔ s.AtOrAbove x e ∧ ∃ r, IsReference s x i r) ∧
    ∀ err, c.compile s e = .error err → ∃ before x i after r,
      references s (s.subtree e) = before ++ (x, i) :: after ∧
      (∀ y j r', (y, j) ∈ before → IsReference s y j r' → Stands s y j r'.key) ∧
      IsReference s x i r ∧ Offends s x i r err := by
  have hs := h.linked
  have hw := subtree_whole_of_finishes hs hf
  have hroot : (s.subtree e).root = e := Subtree.root_subtree s e
  have hfails := failureOf_compile
    (fun x hx => (standard_of_whole hs hw (hroot.symm ▸ he) x hx).readable hs) c
  refine ⟨?_, fun x i => ?_, fun err herr => ?_⟩
  · rw [exists_ok_iff, hfails, firstFailure_eq_none_iff hs hw (hroot.symm ▸ he), hroot]
  · rw [mem_references_iff hs hw (hroot.symm ▸ he), hroot]
  · rw [eq_error_iff, hfails] at herr
    exact exists_offending hs hw (hroot.symm ▸ he) herr

/-- A graph with two items, of which the second stands for nothing. -/
def chartFields : Fields := ⟨[("name", .text "Load"), ("graph_items", .list [
  .mapping ⟨[("item", .mapping ⟨[("key", .text "system.cpu.load")]⟩)]⟩, .mapping ⟨[]⟩])]⟩

def makeChart : Operation := .build ⟨0, 11⟩ .null chartFields

def chart : Store := (makeChart.step (.ofRegistries [registry])).2

theorem makeChart_valid : makeChart.Valid s := Operation.build_valid fun x hx => by
  rw [namedIn_iff] at hx
  simp [chartFields, names_mapping_iff, names_list_iff, Input.text, not_names_value] at hx

theorem chart_reachable : Reachable chart := .step start_reachable makeChart_valid trivial

theorem chart_made : chart.Has ⟨0⟩ ∧ (chart.model ⟨0⟩).registry = 0 ∧ (chart.schemaOf ⟨0⟩).name = "Graph" ∧
    chart.owner ⟨0⟩ = none := by
  rw [chart, registry_eq]
  decide +kernel

theorem chart_items : chart.owner ⟨2⟩ = some ⟨0⟩ ∧ (chart.schemaOf ⟨2⟩).name = "GraphItem" ∧
    references chart (chart.subtree ⟨0⟩) = [(⟨1⟩, 6), (⟨2⟩, 6)] ∧
    (match chart.binding ⟨1⟩ 6, chart.binding ⟨2⟩ 6 with | .literal _, .unbound => true | _, _ => false) = true := by
  rw [chart, registry_eq]
  decide +kernel

/-- What one operation makes of the standard models is standard if it has a name. -/
theorem standard_of_step {op : Operation} (hv : op.Valid (.ofRegistries [registry])) {x : EntityId}
    (hx : (op.step (.ofRegistries [registry])).2.Has x)
    (hm : ((op.step (.ofRegistries [registry])).2.model x).registry = 0) {name : String} (hne : name ≠ "")
    (hn : ((op.step (.ofRegistries [registry])).2.schemaOf x).name = name) :
    Standard (op.step (.ofRegistries [registry])).2 x := by
  have hregistries : (op.step (.ofRegistries [registry])).2.registries = [registry] := start_reachable.registries_step hv
  refine .of_ne hx ?_ fun hd => hne ?_
  · rw [hm, Store.registry, hregistries]
    rfl
  · rw [← hn, hd]
    rfl

theorem chart_standard : Standard chart ⟨0⟩ :=
  standard_of_step makeChart_valid chart_made.1 chart_made.2.1 (by decide) chart_made.2.2.1

/-- The first item of the graph stands for a literal, so the second is the one to blame. -/
theorem compile_stands_chart : Reachable chart ∧ Standard chart ⟨0⟩ ∧ Finishes chart.owner ⟨0⟩ ∧
    newYear.compile chart ⟨0⟩ = .error (.danglingReference "GraphItem" "item") := by
  have hfinishes : Finishes chart.owner ⟨0⟩ := .last chart_made.2.2.2
  obtain ⟨howner, hmodel, hrefs, hbindings⟩ := chart_items
  obtain ⟨hok, hmem, herror⟩ := compile_stands chart_reachable chart_standard hfinishes newYear
  split at hbindings
  case h_2 => cases hbindings
  case h_1 identity hliteral hunbound =>
    refine ⟨chart_reachable, chart_standard, hfinishes, ?_⟩
    cases hc : newYear.compile chart ⟨0⟩ with
    | ok root =>
        obtain ⟨_, r, hr⟩ := (hmem ⟨2⟩ 6).mp (by rw [hrefs]; simp)
        obtain ⟨i, hi, hstands⟩ := hok.mp ⟨root, hc⟩ ⟨2⟩ (.single howner) r hr.mem hr.model
        rw [hr.place] at hi
        cases hi
        rw [Stands, hunbound] at hstands
        exact hstands.elim
    | error err =>
        obtain ⟨before, x, i, after, r, hsplit, _, hr, hoffends⟩ := herror err hc
        have hx : (x, i) ∈ references chart (chart.subtree ⟨0⟩) := hsplit ▸ List.mem_append_right _ List.mem_cons_self
        simp only [hrefs, List.mem_cons, Prod.mk.injEq, List.not_mem_nil, or_false] at hx
        rcases hx with ⟨rfl, rfl⟩ | ⟨rfl, rfl⟩
        · cases hoffends with
          | unbound h => rw [hliteral] at h; cases h
          | unnamed h _ => rw [hliteral] at h; cases h
        · cases hoffends with
          | unnamed h _ => rw [hunbound] at h; cases h
          | unbound h =>
              have hgraph : (⟨"GraphItem", "item", "key"⟩ : ReferenceField) ∈ referenceFields := List.mem_cons_self
              rw [model_unique r hr.mem _ hgraph (hr.model.symm.trans hmodel)]

end MonitorExport.Catalogue
