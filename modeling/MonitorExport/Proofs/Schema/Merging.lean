import Mathlib.Data.List.Sort
import MonitorExport.Proofs.Schema.Ancestry
import MonitorExport.Proofs.Schema.InOrder

/-!
# Merged fields

The table that is merged along a line of declarations has one field for each name declared there: its first
declaration, overridden by the later ones in order. Overriding keeps the position, so where all declarations of
fields have positions of their own, the table is in the strict order of the first declarations, and a line that
goes on after another only puts more fields into the table of the other.
-/

namespace MonitorExport.Registry

variable {decls line : List ModelDecl} {table entries : List (String × Field)} {name : String} {field : Field}

/-- The declarations of a field along a line, in order. -/
def declarationsOf (line : List ModelDecl) (name : String) : List Field :=
  ((line.flatMap (·.fields)).filter (·.1 = name)).map (·.2)

/-- A field as it is declared, on top of what was declared before. -/
def overlaid (inherited : Option Field) (field : Field) : Field := (inherited.map field.overriding).getD field

/-- The field of a name after all its declarations along a line. -/
def mergedField? (line : List ModelDecl) (name : String) : Option Field :=
  (declarationsOf line name).foldl (fun inherited field => some (overlaid inherited field)) none

/-! ## Tables -/

theorem lookup_cons_ne {k n : String} (h : k ≠ n) (f : Field) (table : List (String × Field)) :
    ((n, f) :: table).lookup k = table.lookup k := by
  rw [List.lookup_cons, beq_false_of_ne h]

theorem lookup_mergeField (table : List (String × Field)) (name : String) (field : Field) (k : String) :
    (mergeField table name field).lookup k =
      if k = name then some (overlaid (table.lookup k) field) else table.lookup k := by
  induction table with
  | nil =>
      by_cases h : k = name
      · simp [mergeField, overlaid, h]
      · rw [mergeField, lookup_cons_ne h, if_neg h]
  | cons entry rest ih =>
      obtain ⟨n, inherited⟩ := entry
      unfold mergeField
      split
      · next hn =>
        subst hn
        by_cases h : k = n
        · simp [overlaid, h]
        · rw [lookup_cons_ne h, lookup_cons_ne h, if_neg h]
      · next hn =>
        by_cases h : k = n
        · subst h
          simp [hn]
        · rw [lookup_cons_ne h, lookup_cons_ne h, ih]

theorem lookup_foldl_mergeField (entries table : List (String × Field)) (k : String) :
    (entries.foldl (fun table entry => mergeField table entry.1 entry.2) table).lookup k =
      ((entries.filter (·.1 = k)).map (·.2)).foldl (fun inherited field => some (overlaid inherited field))
        (table.lookup k) := by
  induction entries generalizing table with
  | nil => rfl
  | cons entry rest ih =>
      rw [List.foldl_cons, ih, lookup_mergeField]
      by_cases h : entry.1 = k
      · rw [List.filter_cons_of_pos (by simpa using h), if_pos h.symm, List.map_cons, List.foldl_cons]
      · rw [List.filter_cons_of_neg (by simpa using h), if_neg (Ne.symm h)]

theorem lookup_mergedInOrder (line : List ModelDecl) (name : String) :
    (mergedInOrder line).lookup name = mergedField? line name :=
  lookup_foldl_mergeField _ [] name

theorem names_mergeField (table : List (String × Field)) (name : String) (field : Field) :
    (mergeField table name field).map (·.1) =
      if name ∈ table.map (·.1) then table.map (·.1) else table.map (·.1) ++ [name] := by
  induction table with
  | nil => rfl
  | cons entry rest ih =>
      obtain ⟨n, inherited⟩ := entry
      unfold mergeField
      by_cases h : n = name
      · simp [h]
      · rw [if_neg h, List.map_cons, ih]
        by_cases hmem : name ∈ rest.map (·.1)
        · simp [hmem]
        · simp [hmem, Ne.symm h]

theorem nodup_foldl_mergeField (entries : List (String × Field)) (h : (table.map (·.1)).Nodup) :
    ((entries.foldl (fun table entry => mergeField table entry.1 entry.2) table).map (·.1)).Nodup := by
  induction entries generalizing table with
  | nil => exact h
  | cons entry rest ih =>
      refine ih ?_
      rw [names_mergeField]
      split
      · exact h
      · next hmem => exact h.append (List.nodup_singleton _) (by simpa using hmem)

theorem mem_iff_lookup (h : (table.map (·.1)).Nodup) : (name, field) ∈ table ↔ table.lookup name = some field := by
  induction table with
  | nil => simp
  | cons entry rest ih =>
      obtain ⟨n, f⟩ := entry
      rw [List.map_cons, List.nodup_cons] at h
      rw [List.mem_cons]
      by_cases hn : name = n
      · subst hn
        have hnot : (name, field) ∉ rest := fun hmem => h.1 (List.mem_map.mpr ⟨_, hmem, rfl⟩)
        simp [hnot, eq_comm]
      · rw [lookup_cons_ne hn, ← ih h.2]
        simp [hn]

/-! ## Along a line -/

theorem perm_mergedFields (line : List ModelDecl) : (mergedFields line).Perm (mergedInOrder line) :=
  List.mergeSort_perm _ _

theorem nodup_mergedInOrder (line : List ModelDecl) : ((mergedInOrder line).map (·.1)).Nodup :=
  nodup_foldl_mergeField _ List.nodup_nil

theorem nodup_names (line : List ModelDecl) : ((mergedFields line).map (·.1)).Nodup :=
  ((perm_mergedFields line).map _).nodup_iff.mpr (nodup_mergedInOrder line)

/-- The merged table has exactly the merged field of each name. -/
theorem mem_mergedFields : (name, field) ∈ mergedFields line ↔ mergedField? line name = some field := by
  rw [(perm_mergedFields line).mem_iff, mem_iff_lookup (nodup_mergedInOrder line), lookup_mergedInOrder]

theorem mem_declarationsOf : field ∈ declarationsOf line name ↔ ∃ d ∈ line, (name, field) ∈ d.fields := by
  simp only [declarationsOf, List.mem_map, List.mem_filter, List.mem_flatMap, decide_eq_true_eq]
  constructor
  · rintro ⟨⟨_, _⟩, ⟨hd, rfl⟩, rfl⟩
    exact hd
  · exact fun hd => ⟨(name, field), ⟨hd, rfl⟩, rfl⟩

theorem position_overlaid {inherited : Field} : (overlaid (some inherited) field).position = inherited.position := rfl

theorem foldl_overlaid (fields : List Field) (inherited : Field) :
    ∃ f, fields.foldl (fun inherited field => some (overlaid inherited field)) (some inherited) = some f ∧
      f.position = inherited.position := by
  induction fields generalizing inherited with
  | nil => exact ⟨inherited, rfl, rfl⟩
  | cons g rest ih =>
      obtain ⟨f, hf, hp⟩ := ih (overlaid (some inherited) g)
      exact ⟨f, hf, hp.trans position_overlaid⟩

/-- A name that is declared along a line has a merged field, at the position of its first declaration. -/
theorem mergedField?_eq_of_cons {first : Field} {rest : List Field} (h : declarationsOf line name = first :: rest) :
    ∃ f, mergedField? line name = some f ∧ f.position = first.position := by
  rw [mergedField?, h]
  exact foldl_overlaid rest first

theorem declarationsOf_append (line more : List ModelDecl) (name : String) :
    declarationsOf (line ++ more) name = declarationsOf line name ++ declarationsOf more name := by
  simp [declarationsOf]

/-- Later declarations leave a field at its place. -/
theorem mergedField?_append (h : mergedField? line name = some field) (more : List ModelDecl) :
    ∃ f, mergedField? (line ++ more) name = some f ∧ f.position = field.position := by
  rw [mergedField?, declarationsOf_append, List.foldl_append, ← mergedField?, h]
  exact foldl_overlaid _ field

theorem mergedField?_eq_none (h : declarationsOf line name = []) : mergedField? line name = none := by
  rw [mergedField?, h]
  rfl

theorem exists_mergedField? : (∃ f, mergedField? line name = some f) ↔ ∃ d ∈ line, name ∈ d.fields.map (·.1) := by
  have hiff : (∃ d ∈ line, name ∈ d.fields.map (·.1)) ↔ ∃ f, f ∈ declarationsOf line name := by
    simp only [mem_declarationsOf, List.mem_map]
    constructor
    · rintro ⟨d, hd, ⟨_, f⟩, hf, rfl⟩
      exact ⟨f, d, hd, hf⟩
    · rintro ⟨f, d, hd, hf⟩
      exact ⟨d, hd, (name, f), hf, rfl⟩
  rw [hiff]
  cases h : declarationsOf line name with
  | nil => simp [mergedField?_eq_none h]
  | cons first rest =>
      obtain ⟨f, hf, _⟩ := mergedField?_eq_of_cons h
      exact ⟨fun _ => ⟨first, List.mem_cons_self ..⟩, fun _ => ⟨f, hf⟩⟩

theorem mem_names : name ∈ (mergedFields line).map (·.1) ↔ ∃ d ∈ line, name ∈ d.fields.map (·.1) := by
  rw [← exists_mergedField?]
  simp only [← mem_mergedFields, List.mem_map]
  exact ⟨fun ⟨⟨_, f⟩, hf, hn⟩ => ⟨f, hn ▸ hf⟩, fun ⟨f, hf⟩ => ⟨(name, f), hf, rfl⟩⟩

/-- The field of a name has the position of the first declaration of the name. -/
theorem position_mergedField? (h : mergedField? line name = some field) :
    (declarationsOf line name).head?.map (·.position) = some field.position := by
  cases hd : declarationsOf line name with
  | nil => simp [mergedField?_eq_none hd] at h
  | cons first rest =>
      obtain ⟨f, hf, hp⟩ := mergedField?_eq_of_cons hd
      rw [hf, Option.some.injEq] at h
      rw [← h, hp]
      rfl

/-! ## Positions of their own -/

/-- Whether no two declarations of fields have the same position. -/
def Numbered (decls : List ModelDecl) : Prop := ((decls.flatMap (·.fields)).map (·.2.position)).Nodup

theorem positions_numberFields (start : Nat) (fields : List (String × Field)) :
    (ModelDecl.numberFields start fields).map (·.2.position) = List.range' start fields.length := by
  induction fields generalizing start with
  | nil => rfl
  | cons entry rest ih =>
      rw [ModelDecl.numberFields, List.map_cons, ih]
      rfl

theorem positions_numberFrom (start : Nat) (decls : List ModelDecl) :
    ((ModelDecl.numberFrom start decls).flatMap (·.fields)).map (·.2.position) =
      List.range' start (decls.flatMap (·.fields)).length := by
  induction decls generalizing start with
  | nil => rfl
  | cons d rest ih =>
      rw [ModelDecl.numberFrom, List.flatMap_cons, List.map_append, positions_numberFields, ih, List.flatMap_cons,
        List.length_append, List.range'_append_1]

theorem numbered_number (decls : List ModelDecl) : Numbered (ModelDecl.number decls) := by
  rw [Numbered, ModelDecl.number, positions_numberFrom]
  exact List.nodup_range'

theorem Numbered.name_eq (hn : Numbered decls) (hline : ∀ d ∈ line, d ∈ decls) {a b : String × Field}
    (ha : a ∈ mergedFields line) (hb : b ∈ mergedFields line) (hp : a.2.position = b.2.position) : a.1 = b.1 := by
  have hfirst : ∀ {c : String × Field}, c ∈ mergedFields line →
      ∃ f, (c.1, f) ∈ decls.flatMap (·.fields) ∧ f.position = c.2.position := fun {c} hc => by
    have hpos := position_mergedField? (mem_mergedFields.mp hc)
    obtain ⟨f, hf, hp⟩ := Option.map_eq_some_iff.mp hpos
    obtain ⟨d, hd, hmem⟩ := mem_declarationsOf.mp (List.mem_of_mem_head? hf)
    exact ⟨f, List.mem_flatMap.mpr ⟨d, hline d hd, hmem⟩, hp⟩
  obtain ⟨f, hf, hfp⟩ := hfirst ha
  obtain ⟨g, hg, hgp⟩ := hfirst hb
  have heq : (a.1, f) = (b.1, g) := List.inj_on_of_nodup_map hn hf hg (hfp.trans (hp.trans hgp.symm))
  exact (Prod.mk.inj heq).1

theorem Numbered.increasing (hn : Numbered decls) (hline : ∀ d ∈ line, d ∈ decls) :
    (mergedFields line).Pairwise fun a b => a.2.position < b.2.position := by
  have hle : (mergedFields line).Pairwise fun a b => a.2.position ≤ b.2.position := by
    refine (List.pairwise_mergeSort (fun a b c hab hbc => ?_) (fun a b => ?_) _).imp of_decide_eq_true
    · simpa using Nat.le_trans (of_decide_eq_true hab) (of_decide_eq_true hbc)
    · simpa using Nat.le_total a.2.position b.2.position
  have hne : (mergedFields line).Pairwise fun a b => a.1 ≠ b.1 := List.pairwise_map.mp (nodup_names line)
  refine (hle.and hne).imp_of_mem fun ha hb h => ?_
  exact lt_of_le_of_ne h.1 fun hp => h.2 (hn.name_eq hline ha hb hp)

/-- The name of an entry and the place of its field. -/
abbrev placed (entry : String × Field) : String × Nat := (entry.1, entry.2.position)

theorem map_placed (table : List (String × Field)) : (table.map placed).map (·.1) = table.map (·.1) := by
  rw [List.map_map]
  rfl

/-- The fields of a line that another one starts with are found in its table in the same order. -/
theorem Numbered.sublist (hn : Numbered decls) {more : List ModelDecl} (hline : ∀ d ∈ line ++ more, d ∈ decls) :
    ((mergedFields line).map placed).Sublist ((mergedFields (line ++ more)).map placed) := by
  have hsub : (mergedFields line).map placed ⊆ (mergedFields (line ++ more)).map placed := by
    intro entry hentry
    obtain ⟨⟨n, f⟩, hmem, rfl⟩ := List.mem_map.mp hentry
    obtain ⟨g, hg, hp⟩ := mergedField?_append (mem_mergedFields.mp hmem) more
    exact List.mem_map.mpr ⟨(n, g), mem_mergedFields.mpr hg, by rw [placed, hp]⟩
  have hshort : ((mergedFields line).map placed).Pairwise fun a b => a.2 < b.2 :=
    List.pairwise_map.mpr (hn.increasing fun d hd => hline d (List.mem_append_left _ hd))
  have hlong : ((mergedFields (line ++ more)).map placed).Pairwise fun a b => a.2 < b.2 :=
    List.pairwise_map.mpr (hn.increasing hline)
  have hnodup : ((mergedFields line).map placed).Nodup :=
    List.Pairwise.imp (fun {a b} hlt => by rintro rfl; exact Nat.lt_irrefl _ hlt) hshort
  exact List.sublist_of_subperm_of_pairwise (r := fun a b : String × Nat => a.2 < b.2)
    (List.subperm_of_subset hnodup hsub) hshort hlong

end MonitorExport.Registry
