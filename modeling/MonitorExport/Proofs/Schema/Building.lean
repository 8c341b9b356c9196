import MonitorExport.Proofs.Schema.Merging

/-!
# Declarations that resolve

Declarations resolve exactly if their names are distinct, each name that is extended is declared, no declaration
extends itself, and each field that is merged along the line of one of them mentions declared models and fields of
its own table only and has a default that its validators and choices let pass. Nothing depends on the order in
which the declarations are given.
-/

namespace MonitorExport

theorem exists_mapM_ok {α β ε : Type} {f : α → Except ε β} {as : List α} :
    (∃ bs, as.mapM f = .ok bs) ↔ ∀ a ∈ as, ∃ b, f a = .ok b := by
  induction as with
  | nil => simpa using ⟨[], rfl⟩
  | cons a as ih =>
      rw [List.mapM_cons, List.forall_mem_cons, ← ih, exists_bind_ok]
      constructor
      · rintro ⟨b, hb, hrest⟩
        obtain ⟨bs, hbs, _⟩ := exists_bind_ok.mp hrest
        exact ⟨⟨b, hb⟩, bs, hbs⟩
      · rintro ⟨⟨b, hb⟩, bs, hbs⟩
        exact ⟨b, hb, exists_bind_ok.mpr ⟨bs, hbs, b :: bs, rfl⟩⟩

namespace Registry

variable {decls rest line : List ModelDecl} {decl : ModelDecl} {model name : String} {field : Field}
  {places : List Nat}

abbrev IsDeclared (decls : List ModelDecl) (name : String) : Prop := ∃ d ∈ decls, d.name = name

/-- Whether a merged field can be resolved beside the other fields of its line. -/
structure Resolvable (decls line : List ModelDecl) (field : Field) : Prop where
  set : ∀ model allowEmpty tag, field.kind = .set model allowEmpty tag → IsDeclared decls model
  reference : ∀ model appendHost, field.kind = .reference model appendHost → IsDeclared decls model
  elastic : ∀ size items, field.kind = .elastic size items →
    (∃ f, mergedField? line size = some f) ∧ ∃ f, mergedField? line items = some f
  default : ∀ v, field.default? = some v → ∃ w, Validator.runChain field.validators v = .ok w ∧
    (field.choices ≠ [] → ∃ choice ∈ field.choices, choice.accepts w)

/-! ## Fields -/

theorem contains_names {sibling : String} : ((mergedFields line).map (·.1)).contains sibling = true ↔
    ∃ f, mergedField? line sibling = some f := by
  rw [List.contains_iff_mem, mem_names, exists_mergedField?]

theorem resolveTarget_ok_iff : (∃ t, resolveTarget decls model ((mergedFields line).map (·.1)) name field.kind = .ok t) ↔
    (∀ model allowEmpty tag, field.kind = .set model allowEmpty tag → IsDeclared decls model) ∧
      (∀ model appendHost, field.kind = .reference model appendHost → IsDeclared decls model) ∧
      ∀ size items, field.kind = .elastic size items →
        (∃ f, mergedField? line size = some f) ∧ ∃ f, mergedField? line items = some f := by
  have hdeclared (target : String) : IsDeclared decls target ↔ ∃ i, declIndex? decls target = some i :=
    exists_declIndex?.symm
  have hfield (sibling : String) : ((mergedFields line).map (·.1)).contains sibling = true ↔
      ∃ f, mergedField? line sibling = some f := contains_names
  unfold resolveTarget
  cases field.kind with
  | set target allowEmpty tag => cases hi : declIndex? decls target <;> simp [hdeclared, hi]
  | reference target appendHost => cases hi : declIndex? decls target <;> simp [hdeclared, hi]
  | elastic size items =>
      have hsize := hfield size
      have hitems := hfield items
      cases hs : ((mergedFields line).map (·.1)).contains size <;>
        cases hi : ((mergedFields line).map (·.1)).contains items <;>
          (simp only [List.find?_cons, hs, hi] at hsize hitems ⊢; simp [← hsize, ← hitems])
  | scalar => simp
  | fixedSize => simp
  | color => simp

theorem chain_ok_iff {v : Value} : (∃ w, Validator.runChain (chain field) v = .ok w) ↔
    ∃ w, Validator.runChain field.validators v = .ok w ∧
      (field.choices ≠ [] → ∃ choice ∈ field.choices, choice.accepts w) := by
  unfold chain
  split
  · next h =>
    rw [List.isEmpty_iff] at h
    simp [h]
  · next h =>
    have hne : field.choices ≠ [] := fun he => h (List.isEmpty_iff.mpr he)
    simp only [Validator.runChain, List.foldlM_append, exists_bind_ok]
    refine exists_congr fun w => and_congr_right fun _ => ?_
    simp only [List.foldlM_cons, List.foldlM_nil, bind_pure, Validator.validate]
    cases hf : field.choices.find? (·.accepts w) with
    | none => simpa [hne] using List.find?_eq_none.mp hf
    | some picked =>
        have haccepts : picked.accepts w = true := by simpa using List.find?_some hf
        simpa [hne] using ⟨picked, List.mem_of_find?_eq_some hf, haccepts⟩

theorem resolveDefault_ok_iff : (∃ d, resolveDefault model name field = .ok d) ↔
    ∀ v, field.default? = some v → ∃ w, Validator.runChain (chain field) v = .ok w := by
  unfold resolveDefault
  cases field.default? with
  | none => simp
  | some v => cases hv : Validator.runChain (chain field) v <;> simp [hv]

/-- A field resolves beside the names of its table exactly if it is resolvable along the line. -/
theorem resolveField_ok_iff : (∃ schema, resolveField decls model ((mergedFields line).map (·.1)) name field =
    .ok schema) ↔ Resolvable decls line field := by
  unfold resolveField
  rw [exists_bind_ok]
  constructor
  · rintro ⟨target, ht, schema, hrest⟩
    obtain ⟨default?, hd, _⟩ := bind_eq_ok hrest
    obtain ⟨hset, hreference, helastic⟩ := resolveTarget_ok_iff.mp ⟨target, ht⟩
    exact ⟨hset, hreference, helastic, fun v hv => chain_ok_iff.mp (resolveDefault_ok_iff.mp ⟨default?, hd⟩ v hv)⟩
  · intro h
    obtain ⟨target, ht⟩ := resolveTarget_ok_iff.mpr ⟨h.set, h.reference, h.elastic⟩
    obtain ⟨default?, hd⟩ := resolveDefault_ok_iff.mpr fun v hv => chain_ok_iff.mpr (h.default v hv)
    exact ⟨target, ht, exists_bind_ok.mpr ⟨default?, hd, _, rfl⟩⟩

/-! ## Models -/

theorem resolveModel_ok_iff : (∃ m, resolveModel decls decl places = .ok m) ↔
    ∀ name field, mergedField? (along decls places).reverse name = some field →
      Resolvable decls (along decls places).reverse field := by
  unfold resolveModel resolveTable
  rw [exists_bind_ok]
  constructor
  · rintro ⟨fields, hfields, _⟩ name field hfield
    exact resolveField_ok_iff.mp (exists_mapM_ok.mp ⟨fields, hfields⟩ (name, field) (mem_mergedFields.mpr hfield))
  · intro h
    obtain ⟨fields, hfields⟩ := exists_mapM_ok.mpr fun (entry : String × Field) hentry =>
      resolveField_ok_iff.mpr (h entry.1 entry.2 (mem_mergedFields.mp hentry))
    exact ⟨fields, hfields, _, rfl⟩

theorem resolveFrom_ok_iff (index : Nat) : (∃ ms, resolveFrom decls index rest = .ok ms) ↔
    ∀ i d, rest[i]? = some d → ∃ places, lineage decls (index + i) d = .ok places ∧
      ∃ m, resolveModel decls d places = .ok m := by
  induction rest generalizing index with
  | nil => simpa using ⟨[], rfl⟩
  | cons d rest ih =>
      rw [resolveFrom, exists_bind_ok]
      constructor
      · rintro ⟨places, hplaces, h⟩
        obtain ⟨m, hm, h⟩ := exists_bind_ok.mp h
        obtain ⟨ms, hms, _⟩ := exists_bind_ok.mp h
        intro i x hx
        cases i with
        | zero =>
            cases hx
            exact ⟨places, hplaces, m, hm⟩
        | succ i =>
            have := (ih (index + 1)).mp ⟨ms, hms⟩ i x hx
            rwa [Nat.add_right_comm] at this
      · intro h
        obtain ⟨places, hplaces, m, hm⟩ := h 0 d rfl
        obtain ⟨ms, hms⟩ := (ih (index + 1)).mpr fun i x hx => by
          rw [Nat.add_right_comm]
          exact h (i + 1) x hx
        exact ⟨places, hplaces, exists_bind_ok.mpr ⟨m, hm, exists_bind_ok.mpr ⟨ms, hms, _, rfl⟩⟩⟩

theorem exists_ofDecls : (∃ r, ofDecls decls = .ok r) ↔ DistinctNames decls ∧ ∃ ms, resolveFrom decls 0 decls = .ok ms := by
  have hduplicate : duplicate? [] decls = none ↔ DistinctNames decls ∧ ∀ d ∈ decls, d.name ∉ [] := duplicate?_eq_none []
  unfold ofDecls
  cases hd : duplicate? [] decls with
  | some name =>
      rw [hd] at hduplicate
      simpa using fun hdistinct => by simpa using hduplicate.mpr ⟨hdistinct, by simp⟩
  | none =>
      have hdistinct : DistinctNames decls := (hduplicate.mp hd).1
      cases resolveFrom decls 0 decls <;> simp [hdistinct, Except.map]

/-- Resolving always comes to an end, since the climb from each declaration does, and it succeeds exactly for
declarations with distinct names and lines without a circle along which all fields can be resolved. -/
theorem ofDecls_ok_iff (decls : List ModelDecl) :
    (∀ (i : Nat) (d : ModelDecl), decls[i]? = some d →
      Climbs decls d.name [i] d (ancestors decls d.name decls.length [i] d)) ∧
    ((∃ r, ofDecls decls = .ok r) ↔ DistinctNames decls ∧ ParentsDeclared decls ∧ Acyclic decls ∧
      ∀ d ∈ decls, ∀ line, Line decls d line → ∀ name field, mergedField? line name = some field →
        Resolvable decls line field) := by
  refine ⟨fun i d hd => climbs_lineage hd, ?_, ?_⟩
  · intro h
    obtain ⟨hdistinct, h⟩ := exists_ofDecls.mp h
    have hmodels := (resolveFrom_ok_iff 0).mp h
    have hascends : ∀ d ∈ decls, ∃ above, Ascends decls d above := fun d hd => by
      obtain ⟨i, hi⟩ := List.getElem?_of_mem hd
      obtain ⟨places, hplaces, _⟩ := hmodels i d hi
      rw [Nat.zero_add] at hplaces
      obtain ⟨above, _, habove⟩ := lineage_eq_ok hi hplaces
      exact ⟨above, habove⟩
    refine ⟨hdistinct, parentsDeclared_of_ascends hascends, acyclic_of_ascends hdistinct hascends, ?_⟩
    intro d hd line hline
    obtain ⟨i, hi⟩ := List.getElem?_of_mem hd
    obtain ⟨places, hplaces, hm⟩ := hmodels i d hi
    rw [Nat.zero_add] at hplaces
    rw [hline.unique hdistinct (lineage_line hi hplaces)]
    exact resolveModel_ok_iff.mp hm
  · rintro ⟨hdistinct, hparents, hacyclic, hresolvable⟩
    refine exists_ofDecls.mpr ⟨hdistinct, (resolveFrom_ok_iff 0).mpr fun i d hi => ?_⟩
    rw [Nat.zero_add]
    obtain ⟨places, hplaces⟩ := exists_lineage hparents hacyclic hi
    refine ⟨places, hplaces, resolveModel_ok_iff.mpr ?_⟩
    exact hresolvable d (List.mem_of_getElem? hi) _ (lineage_line hi hplaces)

end Registry

end MonitorExport
