import MonitorExport.Proofs.Schema.Resolving

/-!
# Declarations in order

Where merging leaves the fields of all models in the order of their positions, there is nothing to sort, and
resolving comes to the same without it.
-/

namespace MonitorExport.Registry

variable {decls rest : List ModelDecl} {index : Nat}

/-- The fields of declarations merged in order. -/
def mergedInOrder (line : List ModelDecl) : List (String × Field) :=
  (line.flatMap (·.fields)).foldl (fun table field => mergeField table field.1 field.2) []

abbrev InOrder (table : List (String × Field)) : Prop := table.Pairwise fun a b => a.2.position ≤ b.2.position

theorem mergedFields_eq {line : List ModelDecl} (h : InOrder (mergedInOrder line)) :
    mergedFields line = mergedInOrder line := by
  unfold mergedFields
  exact List.mergeSort_of_pairwise (h.imp decide_eq_true)

/-- Resolves the declarations from `index` on, without sorting. -/
def resolveInOrder (decls : List ModelDecl) (index : Nat) : List ModelDecl → Except SchemaError (List ModelSchema)
  | [] => .ok []
  | decl :: rest => do
    let lineage ← lineage decls index decl
    let model ← resolveTable decls decl lineage (mergedInOrder (along decls lineage).reverse)
    let models ← resolveInOrder decls (index + 1) rest
    return model :: models

theorem resolveFrom_eq (h : ∀ p ∈ rest.zipIdx index, ∀ line ∈ (lineage decls p.2 p.1).toOption,
    InOrder (mergedInOrder (along decls line).reverse)) :
    resolveFrom decls index rest = resolveInOrder decls index rest := by
  induction rest generalizing index with
  | nil => rfl
  | cons decl rest ih =>
      rw [List.zipIdx_cons, List.forall_mem_cons] at h
      obtain ⟨hdecl, hrest⟩ := h
      rw [resolveFrom, resolveInOrder, ih hrest]
      cases hline : lineage decls index decl with
      | error err => rfl
      | ok line =>
          have hmodel : resolveModel decls decl line =
              resolveTable decls decl line (mergedInOrder (along decls line).reverse) := by
            rw [resolveModel, mergedFields_eq (hdecl line (by rw [hline]; rfl))]
          show (resolveModel decls decl line >>= _) = (resolveTable decls decl line _ >>= _)
          rw [hmodel]

/-- Declarations in order that resolve without sorting resolve to the same with it. -/
theorem ofDecls_eq (hdistinct : duplicate? [] decls = none)
    (h : ∀ p ∈ decls.zipIdx, ∀ line ∈ (lineage decls p.2 p.1).toOption,
      InOrder (mergedInOrder (along decls line).reverse))
    (hok : (resolveInOrder decls 0 decls).toOption.isSome = true) :
    ofDecls decls = .ok ⟨(resolveInOrder decls 0 decls).toOption.getD []⟩ := by
  rw [ofDecls, hdistinct, resolveFrom_eq h]
  cases hr : resolveInOrder decls 0 decls with
  | error err => simp [hr, Except.toOption] at hok
  | ok models => rfl

end MonitorExport.Registry
