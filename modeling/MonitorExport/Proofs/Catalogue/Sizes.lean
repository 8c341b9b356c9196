import MonitorExport.Catalogue.Standard
import MonitorExport.Proofs.Export.Settling
import MonitorExport.Proofs.Schema.Resolving

/-!
# Sizes of the catalogue

The standard models count rows by the field `hsize` alone, and that field holds a plain number. So their
sizes are never circular.
-/

namespace MonitorExport.Catalogue

/-- The name of the field by which the standard models count rows. -/
def widthField : String := "hsize"

/-- Whether a field of a name and kind is no link between elastic fields. -/
def Unlinked (name : String) : FieldKind → Prop
  | .elastic size _ => size = widthField ∧ name ≠ widthField
  | _ => True

instance (name : String) : (kind : FieldKind) → Decidable (Unlinked name kind)
  | .elastic size _ => inferInstanceAs (Decidable (size = widthField ∧ name ≠ widthField))
  | .scalar | .fixedSize _ | .color | .set _ _ _ | .reference _ _ => .isTrue trivial

theorem declarations_unlinked : ∀ d ∈ ModelDecl.number declarations, Registry.AllKinds Unlinked d.fields := by
  decide

theorem finishes_of_unlinked {m : ModelSchema} (h : ∀ field ∈ m.fields, Unlinked field.name field.kind)
    (index : Nat) : Finishes m.sizeField? index := by
  cases hi : m.sizeField? index with
  | none => exact .last hi
  | some j =>
      refine .step hi (.last ?_)
      unfold ModelSchema.sizeField? at hi
      split at hi
      · next field hfield =>
        split at hi
        · next size items hk =>
          have hgood := h field (List.mem_of_getElem? hfield)
          rw [hk] at hgood
          have hname : ∃ width, m.fields[j]? = some width ∧ width.name = widthField := by
            obtain ⟨hlt, hj, _⟩ := List.findIdx?_eq_some_iff_getElem.mp hi
            exact ⟨m.fields[j], List.getElem?_eq_getElem hlt, by rw [← hgood.1]; simpa using hj⟩
          obtain ⟨width, hwidth, hn⟩ := hname
          have hplain := h width (List.mem_of_getElem? hwidth)
          unfold ModelSchema.sizeField?
          rw [hwidth]
          cases hkind : width.kind <;> simp_all [Unlinked]
        · cases hi
      · cases hi

/-- Sizes are never circular in a store of the standard models. -/
theorem sizesFinish {s : Store} (h : ∀ r ∈ s.registries, r = registry) : s.SizesFinish := by
  have hblank : ∀ index, Finishes ModelSchema.blank.sizeField? index :=
    finishes_of_unlinked fun _ hf => absurd hf List.not_mem_nil
  have hstandard : ∀ m ∈ registry.models, ∀ index, Finishes m.sizeField? index := by
    unfold registry
    cases hr : standard with
    | error err => exact fun _ hm => absurd hm List.not_mem_nil
    | ok r =>
        intro m hm
        obtain ⟨decl, line, hresolved⟩ := Registry.mem_ofDecls hr m hm
        exact finishes_of_unlinked (Registry.resolveModel_kinds hresolved declarations_unlinked)
  intro m
  have hmodels : ∀ m' ∈ (s.registry m.registry).models, ∀ index, Finishes m'.sizeField? index := by
    refine Store.getD_mem (P := fun r : Registry => ∀ m' ∈ r.models, ∀ index, Finishes m'.sizeField? index)
      (fun r hr => h r hr ▸ hstandard) (fun _ hm => absurd hm List.not_mem_nil) _
  exact Store.getD_mem (P := fun m : ModelSchema => ∀ index, Finishes m.sizeField? index) hmodels hblank _

end MonitorExport.Catalogue
