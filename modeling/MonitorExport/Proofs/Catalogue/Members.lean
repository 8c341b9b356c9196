import MonitorExport.Proofs.Catalogue.Tables
import MonitorExport.Proofs.Store.Preorder

/-!
# Entities of the standard models

The members of an entity of a standard model are of standard models too, namely of those that the field takes.
So what the tables say of models holds of the trees that entities own.
-/

namespace MonitorExport

namespace Catalogue

open Subtree

variable {s : Store} {e x : EntityId} {i : Nat} {t : Subtree}

/-- Whether an entity is of a standard model. -/
structure Standard (s : Store) (e : EntityId) : Prop where
  has : s.Has e
  registry : s.registry (s.model e).registry = registry
  known : models[(s.model e).index]? = some (s.schemaOf e)

/-- Whether a field at a place of an entity's table takes a member, as the tables of the models say. -/
structure Holds (s : Store) (e : EntityId) (i : Nat) (x : EntityId) (f : FieldSchema) : Prop where
  place : s.field? e i = some f
  registry : (s.model x).registry = (s.model e).registry
  admits : takes f (s.schemaOf x, (s.model x).index) = true

theorem schemaOf_eq (h : s.registry (s.model e).registry = registry) :
    s.schemaOf e = models.getD (s.model e).index default := by
  rw [Store.schemaOf, Store.schema, h, registry_eq]

namespace Standard

theorem of_ne (hh : s.Has e) (hr : s.registry (s.model e).registry = Catalogue.registry)
    (hne : s.schemaOf e ≠ default) : Standard s e := by
  refine ⟨hh, hr, ?_⟩
  have hs := schemaOf_eq hr
  rw [List.getD_eq_getElem?_getD] at hs
  cases hi : models[(s.model e).index]? with
  | none =>
      rw [hi] at hs
      exact absurd hs hne
  | some m =>
      rw [hi] at hs
      rw [hs]
      rfl

theorem mem (h : Standard s e) : s.schemaOf e ∈ models := List.mem_of_getElem? h.known

theorem mem_zipIdx (h : Standard s e) : (s.schemaOf e, (s.model e).index) ∈ models.zipIdx :=
  List.mk_mem_zipIdx_iff_getElem?.mpr h.known

end Standard

theorem kind_of_freshSlot {field : FieldSchema} (h : (Store.freshSlot field).emptied = .members []) :
    ∃ model allowEmpty tag k, field.kind = .set model allowEmpty tag ∧ field.target = some k := by
  unfold Store.freshSlot at h
  split at h
  · next model allowEmpty tag k hk ht => exact ⟨model, allowEmpty, tag, k, hk, ht⟩
  · cases h
  · cases h

theorem of_admits {m : ModelId} (h : s.Admits m x) : (s.model x).registry = m.registry ∧
    ((s.model x).index = m.index ∨ (s.schemaOf x).lineage.contains m.index = true) := by
  obtain ⟨_, hm | hm⟩ := h
  · rw [hm]
    exact ⟨rfl, .inl rfl⟩
  · unfold Store.isA at hm
    rw [Bool.and_eq_true, decide_eq_true_eq] at hm
    exact ⟨hm.1, .inr hm.2⟩

/-- What a field of a standard entity admits is of a standard model. -/
theorem Standard.admitted (h : Standard s e) {f : FieldSchema} {k : Nat} (hf : s.field? e i = some f)
    (ht : f.target = some k) (ha : s.Admits (s.target e i) x) : Standard s x ∧
      (s.model x).registry = (s.model e).registry ∧
      ((s.model x).index = k ∨ (s.schemaOf x).lineage.contains k = true) := by
  have hlt : k < models.length := (fields_table _ h.mem).2.1 f (List.mem_of_getElem? hf) k ht
  have hhas := ha.1
  have hbound : s.target e i = ⟨(s.model e).registry, k⟩ := by
    rw [Store.target, hf, Option.bind_some, ht]
    rfl
  rw [hbound] at ha
  have hplace := of_admits ha
  have hregistry : s.registry (s.model x).registry = Catalogue.registry := by rw [hplace.1, h.registry]
  refine ⟨?_, hplace⟩
  rcases hplace.2 with hk | hline
  · have hschema := schemaOf_eq hregistry
    rw [hk, List.getD_eq_getElem?_getD, List.getElem?_eq_getElem hlt] at hschema
    exact ⟨hhas, hregistry, by rw [hk, List.getElem?_eq_getElem hlt, hschema]; rfl⟩
  · refine .of_ne hhas hregistry fun hb => ?_
    rw [hb] at hline
    cases hline

/-- A member is of a model that the field takes. -/
theorem Standard.holds (hs : s.Linked) (h : Standard s e) (hx : x ∈ s.members ⟨e, i⟩) :
    Standard s x ∧ ∃ f, Holds s e i x f := by
  have hc : s.IsCollection ⟨e, i⟩ := .of_mem hx
  obtain ⟨f, hfield⟩ := hs.typed.field_of_slot hc.slot_ne
  have hkind : (Store.freshSlot f).emptied = .members [] := (hs.typed.emptied_of_field h.has hfield).symm.trans hc
  obtain ⟨model, allowEmpty, tag, k, hset, htarget⟩ := kind_of_freshSlot hkind
  obtain ⟨hknown, hregistry, hplace⟩ := h.admitted hfield htarget (hs.typed.admits_of_mem hx)
  refine ⟨hknown, f, hfield, hregistry, ?_⟩
  unfold takes
  simp only [hset, htarget, Bool.or_eq_true, decide_eq_true_eq]
  exact hplace

/-- What owns a standard entity is standard too, since the members of a collection are of its registry. -/
theorem Standard.of_parent (hs : s.Linked) (h : Standard s x) {c : CollectionId} (hp : s.parent x = some c) :
    Standard s c.owner := by
  have hc := hs.isCollection hp
  obtain ⟨f, hf⟩ := hs.typed.field_of_slot hc.slot_ne
  have hregistry : (s.model x).registry = (s.model c.owner).registry :=
    (of_admits (hs.typed.admits_of_mem (hs.mem_iff.mpr hp))).1
  refine .of_ne hc.has (hregistry ▸ h.registry) fun hd => ?_
  rw [Store.field?, hd] at hf
  cases hf

/-! ## Trees -/

variable {branches : List (List Subtree)} {ts : List Subtree}

/-- What a tree of a standard entity has below its root. -/
theorem holds_of_whole (hs : s.Linked) (h : Standard s e) (hw : (Subtree.node e branches).Whole s)
    (hi : branches[i]? = some ts) (ht : t ∈ ts) : t.Whole s ∧ Standard s t.root ∧ ∃ f, Holds s e i t.root f := by
  have hx : t.root ∈ s.members ⟨e, i⟩ := Store.roots_of_whole hw hi ▸ List.mem_map_of_mem ht
  exact ⟨hw.member (List.mem_of_getElem? hi) ht, h.holds hs hx⟩

theorem standard_of_whole (hs : s.Linked) (hw : t.Whole s) (h : Standard s t.root) : ∀ x ∈ t.preorder, Standard s x := by
  induction hw with
  | @node e branches hroots hb ih =>
      intro x hx
      rcases mem_preorder.mp hx with rfl | ⟨ts, hts, t, ht, hx⟩
      · exact h
      · obtain ⟨i, hi⟩ := List.getElem?_of_mem hts
        obtain ⟨_, hstandard, _⟩ := holds_of_whole hs h (.node hroots hb) hi ht
        exact ih ts hts t ht hstandard x hx

theorem registry_of_whole (hs : s.Linked) (hw : t.Whole s) (h : Standard s t.root) :
    ∀ x ∈ t.preorder, (s.model x).registry = (s.model t.root).registry := by
  induction hw with
  | @node e branches hroots hb ih =>
      intro x hx
      rcases mem_preorder.mp hx with rfl | ⟨ts, hts, t, ht, hx⟩
      · rfl
      · obtain ⟨i, hi⟩ := List.getElem?_of_mem hts
        obtain ⟨_, hstandard, f, hholds⟩ := holds_of_whole hs h (.node hroots hb) hi ht
        exact (ih ts hts t ht hstandard x hx).trans hholds.registry

/-- Below an entity of a plain model there are plain ones alone. -/
theorem plain_of_whole (hs : s.Linked) (hw : t.Whole s) (h : Standard s t.root)
    (hp : (s.schemaOf t.root).name ∈ plainModels) : ∀ x ∈ t.preorder, (s.schemaOf x).name ∈ plainModels := by
  induction hw with
  | @node e branches hroots hb ih =>
      intro x hx
      rcases mem_preorder.mp hx with rfl | ⟨ts, hts, t, ht, hx⟩
      · exact hp
      · obtain ⟨i, hi⟩ := List.getElem?_of_mem hts
        obtain ⟨_, hstandard, f, hholds⟩ := holds_of_whole hs h (.node hroots hb) hi ht
        have hplain : (s.schemaOf t.root).name ∈ plainModels :=
          (takes_table _ h.mem f (List.mem_of_getElem? hholds.place) _ hstandard.mem_zipIdx hholds.admits).2.1 (.inl hp)
        exact ih ts hts t ht hstandard hplain x hx

theorem owned_roster (hs : s.Linked) (hw : t.Whole s) (h : Standard s t.root) {r : RosterModel} (hr : r ∈ rosterModels)
    (hn : (s.schemaOf t.root).name = r.model) : t.owned = [] := by
  cases t with
  | node e branches =>
      rw [owned, preorderOfBranches_eq, List.flatMap_eq_nil_iff]
      intro ts hts
      obtain ⟨i, hi⟩ := List.getElem?_of_mem hts
      cases ts with
      | nil => rfl
      | cons t ts =>
          obtain ⟨_, _, f, hholds⟩ := holds_of_whole hs h hw hi (List.mem_cons_self ..)
          have hfield : (f.name, f.kind) ∈ [("name", FieldKind.scalar)] := by
            rw [← ((fields_table _ h.mem).2.2.2.1 r hr hn).1]
            exact List.mem_map_of_mem (List.mem_of_getElem? hholds.place)
          have hkind : f.kind = .scalar := congrArg Prod.snd (List.mem_singleton.mp hfield)
          have hadmits := hholds.admits
          unfold takes at hadmits
          rw [hkind] at hadmits
          cases hadmits

end Catalogue

end MonitorExport
