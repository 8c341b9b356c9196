import MonitorExport.Proofs.Schema.Building
import MonitorExport.Proofs.Schema.Subtyping

/-!
# Subtypes that declare nothing

A declaration that only extends another resolves to the same model under its own name: it takes over the fields and the
preparations, and each attribute of the model that it does not give. Whether a model is a document is not taken over.
-/

namespace MonitorExport

/-- Whether two models have the same fields and work alike. They may differ in name and lineage, and one may be a
document. -/
structure ModelSchema.Akin (m m' : ModelSchema) : Prop where
  tag : m'.tag = m.tag
  fields : m'.fields = m.fields
  identity : m'.identity = m.identity
  positional : m'.positional = m.positional
  reference : m'.reference = m.reference
  hostScope : m'.hostScope = m.hostScope
  arrangement : m'.arrangement = m.arrangement
  preparations : m'.preparations = m.preparations

theorem mapM_ok_of_imp {α β ε : Type} {f g : α → Except ε β} {as : List α} {bs : List β} (h : as.mapM f = .ok bs)
    (hfg : ∀ a b, f a = .ok b → g a = .ok b) : as.mapM g = .ok bs := by
  induction as generalizing bs with
  | nil => exact h
  | cons a as ih =>
      rw [List.mapM_cons] at h ⊢
      obtain ⟨b, hb, h⟩ := bind_eq_ok h
      obtain ⟨rest, hrest, h⟩ := bind_eq_ok h
      rw [hfg a b hb, ok_bind, ih hrest]
      exact h

namespace Registry

variable {decls : List ModelDecl} {r : Registry} {m : ModelSchema} {b : ModelDecl} {i j : Nat} {name tag : String}

/-- A declaration that extends another and gives nothing itself. -/
def emptySubtype (name : String) (b : ModelDecl) : ModelDecl := { name, extends? := some b.name, fields := [] }

theorem resolveModel_document {places : List Nat} (h : resolveModel decls b places = .ok m) : m.document = b.document := by
  unfold resolveModel resolveTable at h
  obtain ⟨_, _, h⟩ := bind_eq_ok h
  cases h
  rfl

theorem resolveModel_tag {above : List Nat} (h : resolveModel decls b (i :: above) = .ok m) (hb : decls[i]? = some b)
    (htag : b.tag = some tag) : m.tag = tag := by
  have hown : ((i :: above).filterMap fun i => decls[i]?).findSome? (·.tag) = some tag := by
    rw [List.filterMap_cons_some hb, List.findSome?_cons, htag]
  unfold resolveModel resolveTable at h
  obtain ⟨_, _, h⟩ := bind_eq_ok h
  cases h
  dsimp only
  rw [hown]
  rfl

/-- A model is a document if its own declaration says so. -/
theorem document_eq (h : ofDecls decls = .ok r) (hi : r.models[i]? = some m) (hb : decls[i]? = some b) :
    m.document = b.document := by
  obtain ⟨b', _, hb', _, _, hm⟩ := model_ascends h hi
  cases hb.symm.trans hb'
  exact resolveModel_document hm

theorem tag_eq (h : ofDecls decls = .ok r) (hi : r.models[i]? = some m) (hb : decls[i]? = some b)
    (htag : b.tag = some tag) : m.tag = tag := by
  obtain ⟨b', above, hb', hline, _, hm⟩ := model_ascends h hi
  cases hb.symm.trans hb'
  rw [hline] at hm
  exact resolveModel_tag hm hb htag

/-- The name of a model is only told in failures to resolve it. -/
theorem resolveField_rename {model other field : String} {siblings : List String} {f : Field} {schema : FieldSchema}
    (h : resolveField decls model siblings field f = .ok schema) :
    resolveField decls other siblings field f = .ok schema := by
  obtain ⟨target, default?, htarget, hdefault, rfl⟩ := resolveField_eq h
  have htarget' : resolveTarget decls other siblings field f.kind = .ok target := by
    unfold resolveTarget at htarget ⊢
    grind
  have hdefault' : resolveDefault other field f = .ok default? := by
    unfold resolveDefault at hdefault ⊢
    grind
  unfold resolveField
  rw [htarget', hdefault']
  rfl

theorem mergedFields_append_empty (line : List ModelDecl) (name : String) (b : ModelDecl) :
    mergedFields (line ++ [emptySubtype name b]) = mergedFields line := by
  have hfields : (line ++ [emptySubtype name b]).flatMap (·.fields) = line.flatMap (·.fields) := by
    simp [emptySubtype]
  unfold mergedFields
  rw [hfields]

/-- Along a line that goes on with an empty subtype, a model resolves to what it resolves to without it. -/
theorem resolveModel_emptySubtype {line : List Nat} (h : resolveModel decls b line = .ok m)
    (hd : decls[j]? = some (emptySubtype name b)) (htag : ∃ d ∈ along decls line, d.tag.isSome) :
    resolveModel decls (emptySubtype name b) (j :: line) =
      .ok { m with name, document := false, lineage := j :: line } := by
  have hline : (j :: line).filterMap (fun i => decls[i]?) = emptySubtype name b :: along decls line :=
    List.filterMap_cons_some hd
  obtain ⟨fields, hfields⟩ : ∃ fields, (mergedFields (along decls line).reverse).mapM (fun entry => resolveField decls
      b.name ((mergedFields (along decls line).reverse).map (·.1)) entry.1 entry.2) = .ok fields :=
    ⟨_, (resolveModel_eq h).2⟩
  obtain ⟨t, ht⟩ : ∃ t, (along decls line).findSome? (·.tag) = some t :=
    Option.isSome_iff_exists.mp (List.findSome?_isSome_iff.mpr htag)
  unfold resolveModel resolveTable at h ⊢
  dsimp only at h ⊢
  rw [hline, List.reverse_cons, mergedFields_append_empty, mapM_ok_of_imp hfields fun _ _ => resolveField_rename]
  rw [hfields] at h
  cases h
  simp [emptySubtype, ht]

/-- Above an empty subtype stands what it extends, with what stands above that. -/
theorem ascends_emptySubtype {above above' : List Nat} (hdistinct : DistinctNames decls) (hb : decls[i]? = some b)
    (h : Ascends decls b above) (h' : Ascends decls (emptySubtype name b) above') : above' = i :: above := by
  cases h' with
  | top hnone => cases hnone
  | @up _ p k l hparent _ hp hl =>
      have hname : b.name = p.name := Option.some.inj hparent
      cases eq_of_name hdistinct (List.mem_of_getElem? hb) (List.mem_of_getElem? hp) hname
      -- names are distinct, so that the declaration stands at one place
      have hlt : i < (decls.map (·.name)).length := by simpa using (List.getElem?_eq_some_iff.mp hb).1
      have hplace : i = k := (List.getElem?_inj hlt hdistinct).mp (by rw [List.getElem?_map, List.getElem?_map, hb, hp])
      rw [hplace, hl.unique h]

/-- An empty subtype is the model that it extends, but for its name, and is no document. -/
theorem models_emptySubtype (h : ofDecls decls = .ok r) (hi : r.models[i]? = some m) (hb : decls[i]? = some b)
    (htag : b.tag.isSome) (hd : decls[j]? = some (emptySubtype name b)) :
    r.models[j]? = some { m with name, document := false, lineage := j :: m.lineage } := by
  obtain ⟨b', above, hb', hline, hasc, hm⟩ := model_ascends h hi
  cases hb.symm.trans hb'
  have hj : j < r.models.length := length_models h ▸ (List.getElem?_eq_some_iff.mp hd).1
  obtain ⟨d, above', hd', hline', hasc', hm'⟩ := model_ascends h (List.getElem?_eq_getElem hj)
  cases hd.symm.trans hd'
  have hdistinct : DistinctNames decls := (exists_ofDecls.mp ⟨r, h⟩).1
  have habove : above' = i :: above := ascends_emptySubtype hdistinct hb hasc hasc'
  rw [hline', habove, ← hline] at hm'
  have htag' : ∃ d ∈ along decls m.lineage, d.tag.isSome :=
    ⟨b, hline ▸ List.mem_filterMap.mpr ⟨i, List.mem_cons_self, hb⟩, htag⟩
  rw [List.getElem?_eq_getElem hj, Except.ok.inj (hm'.symm.trans (resolveModel_emptySubtype hm hd htag'))]

theorem akin_emptySubtype (m : ModelSchema) (name : String) (lineage : List Nat) :
    m.Akin { m with name, document := false, lineage } := ⟨rfl, rfl, rfl, rfl, rfl, rfl, rfl, rfl⟩

end Registry

end MonitorExport
