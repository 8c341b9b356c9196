import MonitorExport.Proofs.Schema.Resolving
import MonitorExport.Store.Read

/-!
# Reading fields

When reading a field has a result: it must be a scalar, and where it is an elastic field without a size, there must
be members to count and a field that gives the size, which is read in one step less.
-/

namespace MonitorExport

namespace ModelSchema

variable {m : ModelSchema} {name : String} {j : Nat}

theorem fieldIndex?_lt (h : m.fieldIndex? name = some j) : j < m.fields.length :=
  (List.findIdx?_eq_some_iff_getElem.mp h).1

theorem field_of_fieldIndex? (h : m.fieldIndex? name = some j) : ∃ field, m.fields[j]? = some field ∧ field.name = name := by
  obtain ⟨hlt, hname, _⟩ := List.findIdx?_eq_some_iff_getElem.mp h
  exact ⟨m.fields[j], List.getElem?_eq_getElem hlt, of_decide_eq_true hname⟩

theorem exists_fieldIndex? (h : name ∈ m.fields.map (·.name)) : ∃ j, m.fieldIndex? name = some j := by
  obtain ⟨field, hf, hname⟩ := List.mem_map.mp h
  refine Option.isSome_iff_exists.mp ?_
  rw [fieldIndex?, List.findIdx?_isSome, List.any_eq_true]
  exact ⟨field, hf, decide_eq_true hname⟩

end ModelSchema

namespace Store

variable {s : Store} {e : EntityId} {m : ModelSchema} {index fuel : Nat} {field : FieldSchema} {size items name : String}
  {stored : Option Value}

theorem schema_eq {k i : Nat} (h : (s.registry k).models[i]? = some m) : s.schema ⟨k, i⟩ = m := by
  rw [schema, List.getD_eq_getElem?_getD, h]
  rfl

/-- A registry with a model is one of the store. -/
theorem registry_mem_of_model {k i : Nat} (h : (s.registry k).models[i]? = some m) : s.registry k ∈ s.registries := by
  unfold registry at h ⊢
  rw [List.getD_eq_getElem?_getD] at h ⊢
  cases hr : s.registries[k]? with
  | none =>
      rw [hr] at h
      cases h
  | some r => exact List.mem_of_getElem? hr

theorem kind_eq (hf : s.field? e index = some field) : s.kind e index = field.kind := by
  rw [Store.kind, hf]
  rfl

theorem fieldIndex_ok_iff {i : Nat} : s.fieldIndex e name = .ok i ↔ (s.schemaOf e).fieldIndex? name = some i := by
  rw [fieldIndex]
  cases (s.schemaOf e).fieldIndex? name <;> simp

theorem stored_of_slot (hs : s.slot e index = .scalar stored) : s.stored e index = .ok stored := by
  rw [Store.stored, hs]

theorem readWithin_plain (hs : s.slot e index = .scalar stored) (hk : ∀ size items, s.kind e index ≠ .elastic size items) :
    s.readWithin e fuel index = .ok stored := by
  unfold readWithin
  rw [stored_of_slot hs, ok_bind]
  split
  · next hn => exact absurd hn (hk _ _)
  · rfl

theorem readWithin_given (hs : s.slot e index = .scalar stored) (hk : s.kind e index = .elastic size items)
    (hd : isSize stored = true) : s.readWithin e fuel index = .ok stored := by
  unfold readWithin
  rw [stored_of_slot hs, ok_bind]
  simp only [hk, hd]
  rfl

/-- Rows are counted if there are members to count and a size can be read in one step less. -/
theorem readWithin_counted (hs : s.slot e index = .scalar stored) (hk : s.kind e index = .elastic size items)
    (hd : ¬ isSize stored = true) : (∃ v, s.readWithin e fuel index = .ok v) ↔
      (∃ c, s.collection e items = .ok c) ∧ ∃ j, s.fieldIndex e size = .ok j ∧
        ∃ n, fuel = n + 1 ∧ ∃ w, s.readWithin e n j = .ok w := by
  rw [readWithin, stored_of_slot hs, ok_bind]
  simp only [hk, if_neg hd]
  rw [exists_bind_ok]
  cases fuel with
  | zero =>
      constructor
      · rintro ⟨c, _, h⟩
        obtain ⟨j, _, _, h⟩ := exists_bind_ok.mp h
        cases h
      · rintro ⟨_, j, _, n, hn, _⟩
        cases hn
  | succ fuel =>
      constructor
      · rintro ⟨c, hc, h⟩
        obtain ⟨j, hj, h⟩ := exists_bind_ok.mp h
        obtain ⟨w, hw, _⟩ := exists_bind_ok.mp h
        exact ⟨⟨c, hc⟩, j, hj, fuel, rfl, w, hw⟩
      · rintro ⟨⟨c, hc⟩, j, hj, n, hn, w, hw⟩
        cases hn
        exact ⟨c, hc, exists_bind_ok.mpr ⟨j, hj, exists_bind_ok.mpr ⟨w, hw, _, rfl⟩⟩⟩

/-- The rows that are counted are those that the members fill in rows of the width that is read. -/
theorem readWithin_rows (hs : s.slot e index = .scalar stored) (hk : s.kind e index = .elastic size items)
    (hd : isSize stored = false) {c : CollectionId} (hc : s.collection e items = .ok c) {j : Nat}
    (hj : s.fieldIndex e size = .ok j) {width : Option Value} (hw : s.readWithin e fuel j = .ok width) :
    s.readWithin e (fuel + 1) index = .ok (some (.int (rowCount (s.members c).length (rowWidth width)))) := by
  rw [readWithin, stored_of_slot hs, ok_bind]
  simp only [hk, hd, hc, hj, hw, ok_bind]
  rfl

theorem slot_of_readWithin {v : Option Value} (h : s.readWithin e fuel index = .ok v) :
    ∃ stored, s.slot e index = .scalar stored := by
  unfold readWithin at h
  obtain ⟨stored, hs, _⟩ := bind_eq_ok h
  unfold Store.stored at hs
  split at hs
  · next hslot => exact ⟨_, hslot⟩
  · cases hs

end Store

end MonitorExport
