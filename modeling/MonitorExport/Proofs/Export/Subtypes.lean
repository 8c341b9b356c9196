import MonitorExport.Proofs.Export.Gathering
import MonitorExport.Proofs.Export.Pruning
import MonitorExport.Proofs.Export.Recasting

/-!
# Compiling empty subtypes

A declaration that only extends another makes a model whose entities are built as those of the other one, and compile to
the same trees. It is so unless the other one is a document: its subtype is none, so that an entity of it compiles to an
element of its own, where one of the document compiles to a whole export.
-/

namespace MonitorExport

open ConfigError (unnamed)

/-- What an entity compiles to is an export if it is a document, and otherwise has the tag of its model. -/
theorem Compiler.tag_of_compile {c : Compiler} {s : Store} {e : EntityId} {root : Node} (h : c.compile s e = .ok root) :
    root.tag = if s.isDocument e then rootTag else (s.schemaOf e).tag := by
  obtain ⟨tree, htree, rfl⟩ := Except.map_eq_ok h
  have htag : tree.tag = if s.isDocument e then rootTag else (s.schemaOf e).tag := by
    unfold mapRoot at htree
    obtain ⟨⟨nodes, _⟩, _, htree⟩ := bind_eq_ok htree
    dsimp only at htree
    split at htree
    · next hd =>
      cases htree
      rw [if_pos hd]
      rfl
    · next hd =>
      cases htree
      rw [if_neg hd]
      rfl
  dsimp only
  rw [← htag]
  split <;> simp

namespace Store

variable {s : Store} {decls : List ModelDecl} {b : ModelDecl} {k i j : Nat} {name tag : String} {positional : Input}
  {fields : Fields}

/-- An entity of an empty subtype is built if one of its parent is, as the same entity among the same others, or the
builds fail alike but for the names of the models. Both entities compile to the same tree, or fail alike, unless the
parent is a document: then it alone compiles to an export. -/
theorem build_emptySubtype (hs : Reachable s) (ha : s.AsksGiven) (hr : Registry.ofDecls decls = .ok (s.registry k))
    (hb : decls[i]? = some b) (ht : b.tag = some tag) (hd : decls[j]? = some (Registry.emptySubtype name b))
    (hv : (Operation.build ⟨k, i⟩ positional fields).Valid s) :
    (build ⟨k, j⟩ positional fields s).1.mapError unnamed = (build ⟨k, i⟩ positional fields s).1.mapError unnamed ∧
    ∀ e t, build ⟨k, i⟩ positional fields s = (.ok e, t) →
      build ⟨k, j⟩ positional fields s = (.ok e, t.retype e ⟨k, j⟩) ∧ ∀ c : Compiler,
        (b.document = false → (c.compile (t.retype e ⟨k, j⟩) e).mapError unnamed = (c.compile t e).mapError unnamed) ∧
        (b.document = true → (∀ root, c.compile t e = .ok root → root.tag = Compiler.rootTag) ∧
          ∀ root, c.compile (t.retype e ⟨k, j⟩) e = .ok root → root.tag = tag) := by
  have hi : i < (s.registry k).models.length := Registry.length_models hr ▸ (List.getElem?_eq_some_iff.mp hb).1
  have hm := List.getElem?_eq_getElem hi
  have hm' := Registry.models_emptySubtype hr hm hb (ht ▸ rfl) hd
  have hdocument := Registry.document_eq hr hm hb
  have hk : (s.schema ⟨k, i⟩).Akin (s.schema ⟨k, j⟩) := by
    rw [schema_eq hm, schema_eq hm']
    exact Registry.akin_emptySubtype ..
  obtain ⟨hresult, hstore, hbuilt⟩ := build_recast hk rfl hs.linked ha hs.namesGiven hv.names
  refine ⟨hresult, fun e t hbuild => ?_⟩
  rw [hbuild] at hresult hstore hbuilt
  obtain ⟨rfl, hapart⟩ := hbuilt e rfl
  refine ⟨Prod.ext (Except.mapError_eq_ok.mp hresult) hstore, fun c => ⟨fun hdoc => ?_, fun hdoc => ⟨?_, ?_⟩⟩⟩
  · refine c.compile_retype hk hapart ?_ _
    rw [schema_eq hm, schema_eq hm', hdocument, hdoc]
  · intro root hroot
    rw [Compiler.tag_of_compile hroot, isDocument, hapart.schemaOf, schema_eq hm, hdocument, hdoc, if_pos rfl]
  · intro root hroot
    rw [Compiler.tag_of_compile hroot, isDocument, hapart.schemaOf_retype, schema_eq hm']
    exact Registry.tag_eq (m := (s.registry k).models[i]) hr hm hb ht

/-- Reports, which are documents, pages, which are not, and empty subtypes of both. -/
def reportDecls : List ModelDecl := ModelDecl.number [
  { name := "Report", fields := [("title", .plain)], tag := some "report", document := true },
  { name := "Annual", extends? := some "Report", fields := [] },
  { name := "Page", fields := [("title", .plain)], tag := some "page" },
  { name := "Cover", extends? := some "Page", fields := [] }]

def reportRegistry : Registry := ⟨(Registry.resolveInOrder reportDecls 0 reportDecls).toOption.getD []⟩

theorem reportRegistry_eq : Registry.ofDecls reportDecls = .ok reportRegistry :=
  Registry.ofDecls_eq (by decide) (by decide) (by decide)

theorem reportDecls_unprepared : ∀ d ∈ reportDecls, d.preparation = none := by
  simp [reportDecls, ModelDecl.number, ModelDecl.numberFrom]

def noReports : Store := .ofRegistries [reportRegistry]

theorem noReports_reachable : Reachable noReports :=
  .start (List.forall_mem_singleton.mpr (Registry.namesGiven_of_unprepared reportRegistry_eq reportDecls_unprepared))

theorem noReports_asksGiven : noReports.AsksGiven :=
  List.forall_mem_singleton.mpr (Registry.asksGiven_of_unprepared reportRegistry_eq reportDecls_unprepared)

def sales : Fields := ⟨[("title", .text "sales")]⟩

theorem sales_valid (model : Nat) : (Operation.build ⟨0, model⟩ .null sales).Valid noReports :=
  Operation.build_valid fun x hx => by simp [namedIn_iff, sales, Input.text, not_names_value] at hx

/-- A compiler that leaves nothing out, at the start of a year. -/
def unpruned : Compiler := { Compiler.standard ⟨2024, 1, 1, 0, 0, 0, 0⟩ with rules := .empty }

theorem sales_compiled (model : Nat) (h : model < 4) : ∃ t root, build ⟨0, model⟩ .null sales noReports = (.ok ⟨0⟩, t) ∧
    unpruned.compile t ⟨0⟩ = .ok root := by
  have hmade : ∀ model < 4, (build ⟨0, model⟩ .null sales noReports).1.toOption = some ⟨0⟩ ∧
      (unpruned.compile (build ⟨0, model⟩ .null sales noReports).2 ⟨0⟩).toOption.isSome = true := by decide
  obtain ⟨hbuilt, hcompiled⟩ := hmade model h
  generalize build ⟨0, model⟩ .null sales noReports = r at hbuilt hcompiled
  rcases r with ⟨err | e, t⟩
  · cases hbuilt
  · cases hbuilt
    cases hroot : unpruned.compile t ⟨0⟩ with
    | error err =>
        rw [hroot] at hcompiled
        cases hcompiled
    | ok root => exact ⟨t, root, rfl, hroot⟩

/-- A cover compiles as a page does, but an annual report is no export. -/
theorem build_emptySubtype_sales :
    (∃ t t' root, build ⟨0, 2⟩ .null sales noReports = (.ok ⟨0⟩, t) ∧ unpruned.compile t ⟨0⟩ = .ok root ∧
      build ⟨0, 3⟩ .null sales noReports = (.ok ⟨0⟩, t') ∧ unpruned.compile t' ⟨0⟩ = .ok root) ∧
    ∃ t t' root root', build ⟨0, 0⟩ .null sales noReports = (.ok ⟨0⟩, t) ∧ unpruned.compile t ⟨0⟩ = .ok root ∧
      build ⟨0, 1⟩ .null sales noReports = (.ok ⟨0⟩, t') ∧ unpruned.compile t' ⟨0⟩ = .ok root' ∧
      root.tag = "zabbix_export" ∧ root'.tag = "report" := by
  constructor
  · obtain ⟨t, root, hpage, hroot⟩ := sales_compiled 2 (by decide)
    obtain ⟨hcover, hcompile⟩ := (build_emptySubtype (k := 0) (i := 2) (j := 3) noReports_reachable noReports_asksGiven
      reportRegistry_eq rfl rfl rfl (sales_valid 2)).2 ⟨0⟩ t hpage
    have hsame := (hcompile unpruned).1 rfl
    rw [hroot] at hsame
    exact ⟨t, _, root, hpage, hroot, hcover, Except.mapError_eq_ok.mp hsame⟩
  · obtain ⟨t, root, hreport, hroot⟩ := sales_compiled 0 (by decide)
    obtain ⟨t', root', hannual, hroot'⟩ := sales_compiled 1 (by decide)
    obtain ⟨hannual', hcompile⟩ := (build_emptySubtype (k := 0) (i := 0) (j := 1) noReports_reachable noReports_asksGiven
      reportRegistry_eq rfl rfl rfl (sales_valid 0)).2 ⟨0⟩ t hreport
    obtain ⟨hexport, helement⟩ := (hcompile unpruned).2 rfl
    cases hannual.symm.trans hannual'
    exact ⟨t, _, root, root', hreport, hroot, hannual, hroot', hexport root hroot, helement root' hroot'⟩

/-- An entity of an empty subtype need not compile to the tree that one of its parent compiles to. -/
theorem document_unlike_subtype : ¬ ∀ (s : Store) (decls : List ModelDecl) (b : ModelDecl) (k i j : Nat)
    (name tag : String) (fields : Fields), Reachable s → s.AsksGiven → Registry.ofDecls decls = .ok (s.registry k) →
    decls[i]? = some b → b.tag = some tag → decls[j]? = some (Registry.emptySubtype name b) →
    (Operation.build ⟨k, i⟩ .null fields).Valid s →
    ∀ e e' t t', build ⟨k, i⟩ .null fields s = (.ok e, t) → build ⟨k, j⟩ .null fields s = (.ok e', t') →
    ∀ (c : Compiler) root root', c.compile t e = .ok root → c.compile t' e' = .ok root' → root' = root := by
  intro hall
  obtain ⟨t, root, hreport, hroot⟩ := sales_compiled 0 (by decide)
  obtain ⟨t', root', hannual, hroot'⟩ := sales_compiled 1 (by decide)
  have hsame : root' = root := hall noReports reportDecls _ 0 0 1 "Annual" "report" sales noReports_reachable
    noReports_asksGiven reportRegistry_eq rfl rfl rfl (sales_valid 0) _ _ _ _ hreport hannual unpruned _ _ hroot hroot'
  have htags : (unpruned.compile (build ⟨0, 0⟩ .null sales noReports).2 ⟨0⟩).toOption.map (·.tag) ≠
      (unpruned.compile (build ⟨0, 1⟩ .null sales noReports).2 ⟨0⟩).toOption.map (·.tag) := by decide
  rw [hreport, hannual, hroot, hroot', hsame] at htags
  exact htags rfl

end Store

end MonitorExport
