import MonitorExport.Proofs.Schema.Declaring
import MonitorExport.Proofs.Schema.InOrder
import MonitorExport.Proofs.Store.Operations
import MonitorExport.Proofs.Store.Reading

/-!
# What entities hold

Over registries that are resolved from declarations, every store that a program reaches holds entities of the
models that the fields name, codes of the choices that they declare, and numbers that keep to their bounds.
-/

namespace MonitorExport

namespace Validator

variable {before : List Validator} {validator : Validator} {v w : Value}

/-- What a chain gives, its last validator gave. -/
theorem of_runChain_concat (h : runChain (before ++ [validator]) v = .ok w) : ∃ x, validator.validate x = .ok w := by
  unfold runChain at h
  rw [List.foldlM_append] at h
  obtain ⟨x, _, h⟩ := bind_eq_ok h
  exact ⟨x, by simpa using h⟩

theorem validate_choice {choices : List Choice} (h : (Validator.choice choices).validate v = .ok w) :
    ∃ choice ∈ choices, w = choice.code := by
  simp only [validate] at h
  split at h
  · next picked hp =>
    cases h
    exact ⟨picked, List.mem_of_find?_eq_some hp, rfl⟩
  · cases h

theorem validate_min {minimum : Int} (h : (Validator.min minimum).validate v = .ok w) :
    ∃ n, w = .int n ∧ minimum ≤ n := by
  simp only [validate] at h
  split at h
  · cases h
  · next n _ =>
    split at h
    · cases h
    · next hn =>
      cases h
      exact ⟨n, rfl, Int.not_lt.mp hn⟩

end Validator

namespace FieldSchema.Sound

variable {field : FieldSchema} {v : Value}

/-- A stored value has passed the validators, also if it is the default. -/
theorem passed (h : field.Sound) (hv : field.Stores v) : ∃ w, Validator.runChain field.validators w = .ok v :=
  hv.elim (h.default v) id

theorem code (h : field.Sound) (hv : field.Stores v) (hc : field.choices ≠ []) :
    ∃ choice ∈ field.choices, v = choice.code := by
  obtain ⟨w, hw⟩ := h.passed hv
  obtain ⟨before, hbefore⟩ := h.choices hc
  rw [hbefore] at hw
  obtain ⟨x, hx⟩ := Validator.of_runChain_concat hw
  exact Validator.validate_choice hx

theorem number (h : field.Sound) (hv : field.Stores v) {minimum : Int} (hk : field.kind = .fixedSize minimum)
    (hall : ∀ validator ∈ field.validators, validator = .min minimum) : ∃ n, v = .int n ∧ minimum ≤ n := by
  obtain ⟨w, hw⟩ := h.passed hv
  have hne : field.validators ≠ [] := List.ne_nil_of_mem (h.bound minimum hk)
  rw [← List.dropLast_concat_getLast hne, hall _ (List.getLast_mem hne)] at hw
  obtain ⟨x, hx⟩ := Validator.of_runChain_concat hw
  exact Validator.validate_min hx

end FieldSchema.Sound

namespace Store

variable {s : Store} {e x : EntityId} {i k : Nat} {field : FieldSchema}

/-- A model with a field is one of the store. -/
theorem schema_known {m : ModelId} (h : field ∈ (s.schema m).fields) :
    s.registry m.registry ∈ s.registries ∧ (s.registry m.registry).models[m.index]? = some (s.schema m) := by
  have hmodel : (s.registry m.registry).models[m.index]? = some (s.schema m) := by
    unfold schema at h ⊢
    rw [List.getD_eq_getElem?_getD] at h ⊢
    cases hm : (s.registry m.registry).models[m.index]? with
    | none =>
        rw [hm] at h
        cases h
    | some schema => rfl
  exact ⟨registry_mem_of_model hmodel, hmodel⟩

/-- Whether all registries of a store are resolved from declarations. -/
def Declared (s : Store) : Prop := ∀ r ∈ s.registries, r.Declared

namespace Declared

theorem sound (h : s.Declared) (hf : s.field? e i = some field) : field.Sound := by
  have hmem : field ∈ (s.schemaOf e).fields := List.mem_of_getElem? hf
  obtain ⟨hr, hm⟩ := schema_known hmem
  exact (h _ hr).sound (List.mem_of_getElem? hm) hmem

/-- The model that a field names is there, and comes first in its lineage. -/
theorem isA_target (h : s.Declared) (hf : s.field? e i = some field) (ht : field.target = some k) :
    s.isA (s.target e i) (s.target e i) = true := by
  have hmem : field ∈ (s.schemaOf e).fields := List.mem_of_getElem? hf
  obtain ⟨hr, hm⟩ := schema_known hmem
  have hk : k < (s.registry (s.model e).registry).models.length :=
    (h _ hr).target (List.mem_of_getElem? hm) hmem ht
  have htarget : s.target e i = ⟨(s.model e).registry, k⟩ := by
    rw [target, hf, Option.bind_some, ht]
    rfl
  have hline : k ∈ (s.schema ⟨(s.model e).registry, k⟩).lineage := by
    rw [schema, List.getD_eq_getElem?_getD, List.getElem?_eq_getElem hk]
    exact (h _ hr).lineage (List.getElem?_eq_getElem hk)
  rw [htarget, isA]
  simpa using hline

/-- What a slot for entities admits is of the model that its field names, or of a subtype of it. -/
theorem isA_of_admits (h : s.Declared) (hs : s.Typed) (hslot : (s.slot e i).emptied ≠ .scalar none)
    (ha : s.Admits (s.target e i) x) : s.isA (s.model x) (s.target e i) = true := by
  obtain ⟨_, hm | hm⟩ := ha
  · obtain ⟨field, k, hf, ht⟩ := hs.target_of_slot hslot
    rw [hm]
    exact h.isA_target hf ht
  · exact hm

end Declared

theorem Typed.stores (hs : s.Typed) (hf : s.field? e i = some field) {v : Value}
    (hslot : s.slot e i = .scalar (some v)) : field.Stores v := by
  have hv := hs.valued e i
  rw [hslot] at hv
  exact hv field hf

/-- In every store that a program reaches over declared registries: a member is of the model of its
collection, or of a subtype of it, and so of the same registry; what a reference is bound to is of the model
that it points at; a field with choices stores nothing or one of their codes; and a number with a lower bound
that nothing else checks, choices neither, is not stored or is an integer that keeps to it. -/
theorem reachable_typing (h : Reachable s) (hr : ∀ r ∈ s.registries, r.Declared) :
    (∀ c e, e ∈ s.members c → s.isA (s.model e) (s.target c.owner c.field) = true ∧
      (s.model e).registry = (s.model c.owner).registry) ∧
      (∀ e i x, s.binding e i = .entity x → s.isA (s.model x) (s.target e i) = true ∧
        (s.model x).registry = (s.model e).registry) ∧
      ∀ e i field stored, s.field? e i = some field → s.slot e i = .scalar stored →
        (field.choices ≠ [] → stored = none ∨ ∃ choice ∈ field.choices, stored = some choice.code) ∧
        ∀ minimum, field.kind = .fixedSize minimum → (∀ v ∈ field.validators, v = .min minimum) →
          stored = none ∨ ∃ n, stored = some (.int n) ∧ minimum ≤ n := by
  have hs : s.Typed := h.linked.typed
  have hsame : ∀ {e x i}, s.isA (s.model x) (s.target e i) = true → (s.model x).registry = (s.model e).registry :=
    fun hisA => by
      rw [isA, Bool.and_eq_true, decide_eq_true_eq] at hisA
      exact hisA.1
  refine ⟨fun c e hmem => ?_, fun e i x hb => ?_, fun e i field stored hf hslot => ?_⟩
  · have hkind : (s.slot c.owner c.field).emptied ≠ .scalar none := by
      rw [IsCollection.of_mem hmem]
      simp
    have hisA := Declared.isA_of_admits hr hs hkind (hs.admits_of_mem hmem)
    exact ⟨hisA, hsame hisA⟩
  · have hkind : (s.slot e i).emptied ≠ .scalar none := by
      rw [slot_of_binding hb (by simp)]
      simp [Slot.emptied]
    have hisA := Declared.isA_of_admits hr hs hkind (hs.admits_of_binding hb)
    exact ⟨hisA, hsame hisA⟩
  · cases stored with
    | none => exact ⟨fun _ => .inl rfl, fun _ _ _ => .inl rfl⟩
    | some v =>
        have hv : field.Stores v := hs.stores hf hslot
        have hsound : field.Sound := Declared.sound hr hf
        refine ⟨fun hc => ?_, fun minimum hk hall => ?_⟩
        · obtain ⟨choice, hmem, rfl⟩ := hsound.code hv hc
          exact .inr ⟨choice, hmem, rfl⟩
        · obtain ⟨n, rfl, hn⟩ := hsound.number hv hk hall
          exact .inr ⟨n, rfl, hn⟩

/-! ## A shelf of books -/

/-- Shelves that take books, and novels, which are books bound in cloth unless they say otherwise. -/
def shelfDecls : List ModelDecl := ModelDecl.number [
  { name := "Shelf"
    fields := [("width", .fixedSize 1), ("books", .set "Book"), ("favourite", .reference "Book")] },
  { name := "Book", fields := [("cover", Field.plain.oneOf [(0, "paper"), (1, "cloth")])] },
  { name := "Novel", extends? := some "Book", fields := [("cover", Field.plain.withDefault (.text "cloth"))] }]

def shelfRegistry : Registry := ⟨(Registry.resolveInOrder shelfDecls 0 shelfDecls).toOption.getD []⟩

theorem shelfRegistry_eq : Registry.ofDecls shelfDecls = .ok shelfRegistry :=
  Registry.ofDecls_eq (by decide) (by decide) (by decide)

theorem shelfRegistry_declared : shelfRegistry.Declared := by
  refine ⟨shelfDecls, Registry.number_declarable ?_, shelfRegistry_eq⟩
  simp only [List.forall_mem_cons]
  simp

theorem shelfRegistry_namesGiven : shelfRegistry.NamesGiven :=
  Registry.namesGiven_of_unprepared shelfRegistry_eq (by simp [shelfDecls, ModelDecl.number, ModelDecl.numberFrom])

def makeNovel : Operation := .build ⟨0, 2⟩ .null .empty

/-- Makes a shelf of width four for a novel that is there, its favourite too. -/
def makeShelf : Operation :=
  .build ⟨0, 0⟩ .null ⟨[("width", .text "4"), ("books", .entity ⟨0⟩), ("favourite", .entity ⟨0⟩)]⟩

def novelAlone : Store := (makeNovel.step (.ofRegistries [shelfRegistry])).2

def shelf : Store := (makeShelf.step novelAlone).2

theorem novel_valid : makeNovel.Valid (.ofRegistries [shelfRegistry]) := Operation.build_valid fun x hx => by
  simp [namedIn_iff, Entries.empty] at hx

theorem noBooks_reachable : Reachable (.ofRegistries [shelfRegistry]) :=
  .start (List.forall_mem_singleton.mpr shelfRegistry_namesGiven)

theorem novel_reachable : Reachable novelAlone := .step noBooks_reachable novel_valid trivial

theorem shelf_valid : makeShelf.Valid novelAlone := Operation.build_valid fun x hx => by
  have hx : x = ⟨0⟩ := by simpa [namedIn_iff, Input.text, not_names_value, names_entity_iff] using hx
  rw [hx]
  decide

theorem shelf_reachable : Reachable shelf := .step novel_reachable shelf_valid trivial

theorem shelf_declared : ∀ r ∈ shelf.registries, r.Declared := by
  have hregistries : shelf.registries = [shelfRegistry] :=
    (novel_reachable.registries_step shelf_valid).trans (noBooks_reachable.registries_step novel_valid)
  rw [hregistries]
  exact List.forall_mem_singleton.mpr shelfRegistry_declared

theorem shelf_made : shelf.members ⟨⟨1⟩, 1⟩ = [⟨0⟩] ∧
    (match shelf.binding ⟨1⟩ 2 with | .entity _ => true | _ => false) = true ∧
    (match shelf.field? ⟨0⟩ 0, shelf.slot ⟨0⟩ 0 with
      | some cover, .scalar (some _) => !cover.choices.isEmpty
      | _, _ => false) = true ∧
    (match shelf.field? ⟨1⟩ 0, shelf.slot ⟨1⟩ 0 with
      | some ⟨_, _, .fixedSize 1, _, _, _, _, [.min 1]⟩, .scalar (some _) => true
      | _, _ => false) = true := by
  decide

theorem shelf_typing : shelf.isA (shelf.model ⟨0⟩) (shelf.target ⟨1⟩ 1) = true ∧
    (∃ x, shelf.binding ⟨1⟩ 2 = .entity x ∧ shelf.isA (shelf.model x) (shelf.target ⟨1⟩ 2) = true) ∧
    (∃ cover v, shelf.field? ⟨0⟩ 0 = some cover ∧ shelf.slot ⟨0⟩ 0 = .scalar (some v) ∧
      ∃ choice ∈ cover.choices, v = choice.code) ∧
    ∃ n, shelf.slot ⟨1⟩ 0 = .scalar (some (.int n)) ∧ 1 ≤ n := by
  obtain ⟨hmembers, hbindings, hvalues⟩ := reachable_typing shelf_reachable shelf_declared
  obtain ⟨hbooks, hfavourite, hcover, hwidth⟩ := shelf_made
  refine ⟨(hmembers ⟨⟨1⟩, 1⟩ ⟨0⟩ (by simp [hbooks])).1, ?_, ?_, ?_⟩
  · split at hfavourite
    · next x hx => exact ⟨x, hx, (hbindings _ _ _ hx).1⟩
    · cases hfavourite
  · split at hcover
    · next cover v hf hslot =>
      obtain hnone | ⟨choice, hmem, hcode⟩ := (hvalues _ _ _ _ hf hslot).1 (by simpa using hcover)
      · cases hnone
      · exact ⟨cover, v, hf, hslot, choice, hmem, Option.some.inj hcode⟩
    · cases hcover
  · split at hwidth
    · next hf hslot =>
      obtain hnone | ⟨n, hn, hle⟩ := (hvalues _ _ _ _ hf hslot).2 1 rfl (by simp)
      · cases hnone
      · exact ⟨n, by rw [hslot, hn], hle⟩
    · cases hwidth

end Store

end MonitorExport
