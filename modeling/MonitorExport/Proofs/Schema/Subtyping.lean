import MonitorExport.Proofs.Schema.Merging
import MonitorExport.Proofs.Store.Reading

/-!
# Subtypes

The lineage of a model ends with that of each model in it. So models of a registry are ordered by `isA`, and the
table of a subtype has the fields of the other model in their order, with more of its own before, between and
after them.
-/

namespace MonitorExport

namespace Registry

variable {decls : List ModelDecl} {r : Registry} {m : ModelSchema} {line : List ModelDecl} {i j : Nat}

/-- The fields of a model are those declared along a line, in the order of their first declarations. -/
structure Tabled (line : List ModelDecl) (m : ModelSchema) : Prop where
  distinct : (m.fields.map (·.name)).Nodup
  declared : ∀ name, name ∈ m.fields.map (·.name) ↔ ∃ d ∈ line, name ∈ d.fields.map (·.1)
  increasing : (m.fields.map (·.position)).Pairwise (· < ·)
  position : ∀ field ∈ m.fields,
    (declarationsOf line field.name).head?.map (·.position) = some field.position

/-! ## Lineages -/

theorem model_ascends (h : ofDecls decls = .ok r) (hi : r.models[i]? = some m) : ∃ d above, decls[i]? = some d ∧
    m.lineage = i :: above ∧ Ascends decls d above ∧ resolveModel decls d m.lineage = .ok m := by
  obtain ⟨d, places, hd, hplaces, hm⟩ := (getElem?_resolveFrom (resolveFrom_of_ofDecls h)).2 i m hi
  rw [Nat.zero_add] at hplaces
  rw [resolveModel_lineage hm]
  obtain ⟨above, rfl, hasc⟩ := lineage_eq_ok hd hplaces
  exact ⟨d, above, hd, rfl, hasc, hm⟩

/-- The lineage of a model ends with that of each of its ancestors. -/
theorem lineage_suffix (h : ofDecls decls = .ok r) (hi : r.models[i]? = some m) (hj : j ∈ m.lineage) :
    ∃ n, r.models[j]? = some n ∧ n.lineage <:+ m.lineage := by
  obtain ⟨d, above, hd, hline, hasc, _⟩ := model_ascends h hi
  rw [hline] at hj ⊢
  rcases List.mem_cons.mp hj with rfl | hj
  · exact ⟨m, hi, hline ▸ List.suffix_rfl⟩
  · obtain ⟨p, rest, hp, hrest, hsuffix⟩ := hasc.of_mem hj
    have hlt : j < r.models.length := length_models h ▸ (List.getElem?_eq_some_iff.mp hp).1
    obtain ⟨p', rest', hp', hline', hasc', _⟩ := model_ascends h (List.getElem?_eq_getElem hlt)
    cases hp.symm.trans hp'
    refine ⟨r.models[j], List.getElem?_eq_getElem hlt, ?_⟩
    rw [hline', ← hrest.unique hasc']
    exact hsuffix.trans (List.suffix_cons _ _)

/-! ## Tables -/

theorem resolveModel_placed {d : ModelDecl} {places : List Nat} (h : resolveModel decls d places = .ok m) :
    (mergedFields (along decls places).reverse).map placed = m.fields.map fun field => (field.name, field.position) := by
  rw [← List.forall₂_eq_eq_eq, List.forall₂_map_left_iff, List.forall₂_map_right_iff]
  refine (forall₂_of_mapM_ok (resolveModel_eq h).2).imp fun entry field hf => ?_
  obtain ⟨_, _, _, _, rfl⟩ := resolveField_eq hf
  rfl

theorem resolveModel_name {d : ModelDecl} {places : List Nat} (h : resolveModel decls d places = .ok m) :
    m.name = d.name := by
  unfold resolveModel resolveTable at h
  obtain ⟨_, _, h⟩ := bind_eq_ok h
  cases h
  rfl

theorem names_eq (h : ofDecls decls = .ok r) (hi : r.models[i]? = some m) :
    m.fields.map (·.name) = (mergedFields (along decls m.lineage).reverse).map (·.1) := by
  obtain ⟨_, _, _, _, _, hm⟩ := model_ascends h hi
  rw [← map_placed, resolveModel_placed hm, List.map_map]
  rfl

theorem line_eq (h : ofDecls decls = .ok r) (hi : r.models[i]? = some m) :
    ∃ d, decls[i]? = some d ∧ m.name = d.name ∧ Line decls d (along decls m.lineage).reverse := by
  obtain ⟨d, places, hd, hplaces, hm⟩ := (getElem?_resolveFrom (resolveFrom_of_ofDecls h)).2 i m hi
  rw [Nat.zero_add] at hplaces
  refine ⟨d, hd, resolveModel_name hm, ?_⟩
  rw [resolveModel_lineage hm]
  exact lineage_line hd hplaces

theorem tabled (hn : Numbered decls) (h : ofDecls decls = .ok r) (hi : r.models[i]? = some m) :
    Tabled (along decls m.lineage).reverse m := by
  obtain ⟨d, hd, _, hline⟩ := line_eq h hi
  obtain ⟨_, _, _, _, _, hm⟩ := model_ascends h hi
  have hplaced := resolveModel_placed hm
  refine ⟨?_, fun name => ?_, ?_, fun field hfield => ?_⟩
  · rw [names_eq h hi]
    exact nodup_names _
  · rw [names_eq h hi, mem_names]
  · have hpos : m.fields.map (·.position) = (mergedFields (along decls m.lineage).reverse).map (·.2.position) := by
      have hsnd := congrArg (List.map Prod.snd) hplaced
      rw [List.map_map, List.map_map] at hsnd
      exact hsnd.symm
    rw [hpos, List.pairwise_map]
    exact hn.increasing (hline.mem (List.mem_of_getElem? hd))
  · have hmem : (field.name, field.position) ∈ (mergedFields (along decls m.lineage).reverse).map placed := by
      rw [hplaced]
      exact List.mem_map_of_mem hfield
    obtain ⟨⟨name, f⟩, hf, heq⟩ := List.mem_map.mp hmem
    obtain ⟨rfl, hp⟩ := Prod.mk.inj heq
    rw [← hp]
    exact position_mergedField? (mem_mergedFields.mp hf)

/-- A model has the fields of each of its ancestors in the order in which they have them. -/
theorem names_sublist (hn : Numbered decls) (h : ofDecls decls = .ok r) {n : ModelSchema}
    (hi : r.models[i]? = some m) (hj : r.models[j]? = some n) (hsuffix : n.lineage <:+ m.lineage) :
    (n.fields.map (·.name)).Sublist (m.fields.map (·.name)) := by
  obtain ⟨d, hd, _, hline⟩ := line_eq h hi
  obtain ⟨front, hfront⟩ := hsuffix
  have happend : (along decls m.lineage).reverse =
      (along decls n.lineage).reverse ++ (along decls front).reverse := by
    rw [← hfront, along, List.filterMap_append, List.reverse_append]
  have hsub := hn.sublist (happend ▸ hline.mem (List.mem_of_getElem? hd))
  rw [names_eq h hi, names_eq h hj, happend, ← map_placed, ← map_placed (mergedFields (_ ++ _))]
  exact hsub.map _

end Registry

namespace Store

open Registry

variable {s : Store} {decls : List ModelDecl} {k i j l : Nat}

theorem isA_iff : s.isA ⟨k, i⟩ ⟨k, j⟩ = true ↔ ∃ m, (s.registry k).models[i]? = some m ∧ j ∈ m.lineage := by
  rw [isA, schema, List.getD_eq_getElem?_getD]
  cases (s.registry k).models[i]? with
  | none => simp [default, ModelSchema.blank]
  | some m => simp

theorem isA_antisymm (hr : ofDecls decls = .ok (s.registry k)) (hij : s.isA ⟨k, i⟩ ⟨k, j⟩ = true)
    (hji : s.isA ⟨k, j⟩ ⟨k, i⟩ = true) : i = j := by
  obtain ⟨m, hm, hj⟩ := isA_iff.mp hij
  obtain ⟨n, hn, hi⟩ := isA_iff.mp hji
  obtain ⟨n', hn', hnm⟩ := lineage_suffix hr hm hj
  obtain ⟨m', hm', hmn⟩ := lineage_suffix hr hn hi
  cases hn.symm.trans hn'
  cases hm.symm.trans hm'
  have heq : m.lineage = n.lineage := hmn.eq_of_length (Nat.le_antisymm hmn.length_le hnm.length_le)
  obtain ⟨_, _, _, hline, _, _⟩ := model_ascends hr hm
  obtain ⟨_, _, _, hline', _, _⟩ := model_ascends hr hn
  rw [hline, hline'] at heq
  exact (List.cons.inj heq).1

theorem isA_trans (hr : ofDecls decls = .ok (s.registry k)) (hij : s.isA ⟨k, i⟩ ⟨k, j⟩ = true)
    (hjl : s.isA ⟨k, j⟩ ⟨k, l⟩ = true) : s.isA ⟨k, i⟩ ⟨k, l⟩ = true := by
  obtain ⟨m, hm, hj⟩ := isA_iff.mp hij
  obtain ⟨n, hn, hl⟩ := isA_iff.mp hjl
  obtain ⟨n', hn', hnm⟩ := lineage_suffix hr hm hj
  cases hn.symm.trans hn'
  exact isA_iff.mpr ⟨m, hm, hnm.subset hl⟩

/-- In a registry whose declared fields all have positions of their own: a model has each field once that is declared
along its line, at the position of its first declaration and in the order of these; models are partially ordered by
`isA`, never across registries; and the fields of a model are among those of its subtypes in the same order. -/
theorem models_ordered (s : Store) {k : Nat} {decls : List ModelDecl} (hn : Numbered decls)
    (hr : ofDecls decls = .ok (s.registry k)) :
    (∀ (i : Nat) (m : ModelSchema), (s.registry k).models[i]? = some m → ∃ d line, decls[i]? = some d ∧ m.name = d.name ∧
      Line decls d line ∧ Tabled line m) ∧
    (∀ i : Nat, i < (s.registry k).size → s.isA ⟨k, i⟩ ⟨k, i⟩ = true) ∧
    (∀ i j : Nat, s.isA ⟨k, i⟩ ⟨k, j⟩ = true → s.isA ⟨k, j⟩ ⟨k, i⟩ = true → i = j) ∧
    (∀ i j l : Nat, s.isA ⟨k, i⟩ ⟨k, j⟩ = true → s.isA ⟨k, j⟩ ⟨k, l⟩ = true → s.isA ⟨k, i⟩ ⟨k, l⟩ = true) ∧
    (∀ a b : ModelId, a.registry ≠ b.registry → s.isA a b = false) ∧
    (∀ i j : Nat, s.isA ⟨k, i⟩ ⟨k, j⟩ = true →
      ((s.schema ⟨k, j⟩).fields.map (·.name)).Sublist ((s.schema ⟨k, i⟩).fields.map (·.name))) := by
  refine ⟨fun i m hm => ?_, fun i hi => ?_, fun i j => isA_antisymm hr, fun i j l => isA_trans hr,
    fun a b hab => ?_, fun i j hij => ?_⟩
  · obtain ⟨d, hd, hname, hline⟩ := line_eq hr hm
    exact ⟨d, _, hd, hname, hline, tabled hn hr hm⟩
  · have hm := List.getElem?_eq_getElem hi
    exact isA_iff.mpr ⟨_, hm, mem_lineage hr hm⟩
  · simp [isA, hab]
  · obtain ⟨m, hm, hj⟩ := isA_iff.mp hij
    obtain ⟨n, hn', hsuffix⟩ := lineage_suffix hr hm hj
    rw [schema_eq hm, schema_eq hn']
    exact names_sublist hn hr hm hn' hsuffix

def seatDecls : List ModelDecl := ModelDecl.number [
  { name := "Seat", fields := [("name", .plain), ("legs", .fixedSize 3)] },
  { name := "Chair", extends? := some "Seat", fields := [("back", .plain), ("legs", .fixedSize 4)] },
  { name := "Armchair", extends? := some "Chair", fields := [("arms", .plain), ("name", .plain), ("arms", .color)] }]

def seatRegistry : Registry := ⟨(resolveInOrder seatDecls 0 seatDecls).toOption.getD []⟩

theorem seatRegistry_eq : ofDecls seatDecls = .ok seatRegistry :=
  ofDecls_eq (by decide) (by decide) (by decide)

def seats : Store := .ofRegistries [seatRegistry, seatRegistry]

theorem seats_ordered : Numbered seatDecls ∧ ofDecls seatDecls = .ok (seats.registry 0) ∧
    seats.isA ⟨0, 2⟩ ⟨0, 0⟩ = true ∧ seats.isA ⟨0, 0⟩ ⟨0, 2⟩ = false ∧ seats.isA ⟨0, 2⟩ ⟨1, 0⟩ = false ∧
    ["name", "legs"].Sublist ["name", "legs", "back", "arms"] ∧
    ∃ line, Tabled line (seats.schema ⟨0, 2⟩) := by
  have hn : Numbered seatDecls := numbered_number _
  obtain ⟨htabled, _, hantisymm, _, hacross, hsublist⟩ := models_ordered seats (k := 0) hn seatRegistry_eq
  have hup : seats.isA ⟨0, 2⟩ ⟨0, 0⟩ = true := by decide
  have hdown : seats.isA ⟨0, 0⟩ ⟨0, 2⟩ = false := by
    cases h : seats.isA ⟨0, 0⟩ ⟨0, 2⟩ with
    | false => rfl
    | true => exact absurd (hantisymm 2 0 hup h) (by decide)
  have hbase : (seats.schema ⟨0, 0⟩).fields.map (·.name) = ["name", "legs"] := by decide
  have hsub : (seats.schema ⟨0, 2⟩).fields.map (·.name) = ["name", "legs", "back", "arms"] := by decide
  obtain ⟨d, line, _, _, _, hline⟩ := htabled 2 (seats.schema ⟨0, 2⟩) (by rfl)
  exact ⟨hn, seatRegistry_eq, hup, hdown, hacross _ _ (by decide), hbase ▸ hsub ▸ hsublist 2 0 hup, line, hline⟩

end Store

end MonitorExport
