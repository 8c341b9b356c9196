import MonitorExport.Proofs.Schema.Subtyping

/-!
# Fields that are overridden

A field is merged from its outermost declaration inwards, but it can be read off the other way, from its innermost
declaration outwards: the kind is the innermost one, and everything else is what the nearest declaration gives that gives
it. A declaration of another kind hides the default, the choices and the validators behind it, but no description.
-/

namespace MonitorExport

namespace Field

variable {f g : Field} {outward : List Field}

/-- Declarations, read outwards, as long as each is of the kind of the one before it. -/
def run : List Field → List Field
  | [] => []
  | [f] => [f]
  | f :: g :: rest => if f.kind = g.kind then f :: run (g :: rest) else [f]

/-- The first of some lists that is not empty. -/
def firstGiven {α : Type} (lists : List (List α)) : List α := (lists.find? (!·.isEmpty)).getD []

theorem firstGiven_cons {α : Type} (l : List α) (lists : List (List α)) :
    firstGiven (l :: lists) = if l.isEmpty then firstGiven lists else l := by
  cases l <;> rfl

theorem run_cons_cons (f g : Field) (outward : List Field) :
    run (f :: g :: outward) = if f.kind = g.kind then f :: run (g :: outward) else [f] := rfl

theorem firstGiven_run_cons {α : Type} (pick : Field → List α) (f g : Field) (outward : List Field) :
    firstGiven ((run (f :: g :: outward)).map pick) =
      if f.kind = g.kind ∧ (pick f).isEmpty then firstGiven ((run (g :: outward)).map pick) else pick f := by
  rw [run_cons_cons]
  by_cases hk : f.kind = g.kind
  · simp only [hk, if_true, List.map_cons, firstGiven_cons, true_and]
  · rw [if_neg hk, if_neg fun h => hk h.1]
    cases h : pick f <;> simp [firstGiven, h]

/-- Whether a field is what its declarations, read outwards, say. -/
structure ReadsOutward (outward : List Field) (field : Field) : Prop where
  kind : outward.head?.map (·.kind) = some field.kind
  default : field.default? = (run outward).findSome? (·.default?)
  choices : field.choices = firstGiven ((run outward).map (·.choices))
  validators : field.validators = firstGiven ((run outward).map (·.validators))
  description : field.description = outward.findSome? (·.description)

theorem readsOutward_singleton (f : Field) : ReadsOutward [f] f where
  kind := rfl
  default := by cases h : f.default? <;> simp [run, h]
  choices := by cases h : f.choices <;> simp [run, firstGiven, h]
  validators := by cases h : f.validators <;> simp [run, firstGiven, h]
  description := by cases h : f.description <;> simp [h]

/-- One more declaration on top of a field that reads outwards. -/
theorem ReadsOutward.overriding {inherited : Field} (h : ReadsOutward (g :: outward) inherited) (f : Field) :
    ReadsOutward (f :: g :: outward) (f.overriding inherited) := by
  have hkind : g.kind = inherited.kind := Option.some.inj h.kind
  refine ⟨rfl, ?_, ?_, ?_, ?_⟩
  · rw [run_cons_cons, hkind]
    simp only [Field.overriding]
    split
    · rw [List.findSome?_cons, ← h.default]
      cases f.default? <;> rfl
    · exact (readsOutward_singleton f).default
  · rw [firstGiven_run_cons, hkind, ← h.choices]
    rfl
  · rw [firstGiven_run_cons, hkind, ← h.validators]
    rfl
  · rw [List.findSome?_cons, ← h.description]
    cases hd : f.description <;> simp [Field.overriding, hd]

end Field

namespace Registry

open MonitorExport.Field

variable {decls line : List ModelDecl} {name : String} {field : Field} {r : Registry} {m : ModelSchema} {i : Nat}
  {outward : List Field}

/-- The declarations of a field along a line, from the innermost outwards. -/
def outwardOf (line : List ModelDecl) (name : String) : List Field := (declarationsOf line name).reverse

theorem mergedField?_eq_foldr (line : List ModelDecl) (name : String) : mergedField? line name =
    (outwardOf line name).foldr (fun field inherited => some (overlaid inherited field)) none :=
  (List.foldr_reverse ..).symm

/-- What is merged from the outermost declaration inwards is what the declarations read outwards say. -/
theorem readsOutward_foldr (h : outward.foldr (fun field inherited => some (overlaid inherited field)) none = some field) :
    ReadsOutward outward field := by
  induction outward generalizing field with
  | nil => cases h
  | cons f outward ih =>
      rw [List.foldr_cons] at h
      cases outward with
      | nil =>
          cases h
          exact readsOutward_singleton f
      | cons g outward =>
          obtain ⟨inherited, hinherited⟩ : ∃ inherited, (g :: outward).foldr
              (fun field inherited => some (overlaid inherited field)) none = some inherited := ⟨_, rfl⟩
          rw [hinherited] at h
          cases h
          exact (ih hinherited).overriding f

/-- Whether a resolved field is what its declarations, read outwards, say: its default is the nearest one, run through
the nearest validators and then through the nearest choices, if there are any. -/
structure ReadsNearest (outward : List Field) (schema : FieldSchema) : Prop where
  kind : outward.head?.map (·.kind) = some schema.kind
  choices : schema.choices = firstGiven ((run outward).map (·.choices))
  validators : schema.validators = firstGiven ((run outward).map (·.validators)) ++
    if schema.choices.isEmpty then [] else [.choice schema.choices]
  description : schema.description = outward.findSome? (·.description)
  noDefault : (run outward).findSome? (·.default?) = none → schema.default? = none
  default : ∀ v, (run outward).findSome? (·.default?) = some v →
    ∃ w, Validator.runChain (firstGiven ((run outward).map (·.validators))) v = .ok w ∧
      if schema.choices.isEmpty then schema.default? = some w
      else ∃ choice, schema.choices.find? (·.accepts w) = some choice ∧ schema.default? = some choice.code

theorem chain_eq (field : Field) :
    chain field = field.validators ++ if field.choices.isEmpty then [] else [.choice field.choices] := by
  unfold chain
  split <;> simp

theorem runChain_chain {v w : Value} (h : Validator.runChain (chain field) v = .ok w) :
    ∃ u, Validator.runChain field.validators v = .ok u ∧ if field.choices.isEmpty then w = u
      else ∃ choice, field.choices.find? (·.accepts u) = some choice ∧ w = choice.code := by
  unfold chain at h
  split at h
  · next he => exact ⟨w, h, by simp [he]⟩
  · next he =>
    rw [Validator.runChain, List.foldlM_append] at h
    obtain ⟨u, hu, h⟩ := bind_eq_ok h
    simp only [List.foldlM_cons, List.foldlM_nil, bind_pure, Validator.validate] at h
    refine ⟨u, hu, ?_⟩
    rw [if_neg he]
    split at h
    · next choice hchoice => exact ⟨choice, hchoice, (Except.ok.inj h).symm⟩
    · cases h

theorem readsNearest_of_resolveField {model : String} {siblings : List String} {schema : FieldSchema}
    (hfield : ReadsOutward outward field) (h : resolveField decls model siblings name field = .ok schema) :
    ReadsNearest outward schema := by
  obtain ⟨target, default?, _, hdefault, rfl⟩ := resolveField_eq h
  unfold resolveDefault at hdefault
  refine ⟨hfield.kind, hfield.choices, hfield.validators ▸ chain_eq field, hfield.description, fun hnone => ?_,
    fun v hv => ?_⟩
  · rw [hfield.default, hnone] at hdefault
    exact (Except.ok.inj hdefault).symm
  · rw [hfield.default, hv] at hdefault
    dsimp only at hdefault
    split at hdefault
    · next w hw =>
      cases hdefault
      obtain ⟨u, hu, hlast⟩ := runChain_chain hw
      refine ⟨u, hfield.validators ▸ hu, ?_⟩
      split at hlast
      · next he => rw [if_pos he, hlast]
      · next he =>
        obtain ⟨choice, hchoice, rfl⟩ := hlast
        rw [if_neg he]
        exact ⟨choice, hchoice, rfl⟩
    · cases hdefault

/-- Every name that is declared along the line of a model has one field there, and it is what the declarations of the name
say, read from the innermost one outwards. -/
theorem fields_readNearest (h : ofDecls decls = .ok r) (hi : r.models[i]? = some m) :
    ∃ d line, decls[i]? = some d ∧ m.name = d.name ∧ Line decls d line ∧
      ∀ name, (∃ decl ∈ line, name ∈ decl.fields.map (·.1)) →
        ∃ schema ∈ m.fields, schema.name = name ∧ ReadsNearest (outwardOf line name) schema ∧
          ∀ other ∈ m.fields, other.name = name → other = schema := by
  obtain ⟨d, hd, hname, hline⟩ := line_eq h hi
  obtain ⟨_, _, _, _, _, hm⟩ := model_ascends h hi
  refine ⟨d, _, hd, hname, hline, fun name hdeclared => ?_⟩
  have hnames := names_eq h hi
  have hmem : name ∈ m.fields.map (·.name) := by rwa [hnames, mem_names]
  have hnodup : (m.fields.map (·.name)).Nodup := hnames ▸ nodup_names _
  obtain ⟨schema, hschema, rfl⟩ := List.mem_map.mp hmem
  obtain ⟨⟨name, field⟩, hentry, hfield⟩ := mapM_ok_mem (resolveModel_eq hm).2 schema hschema
  have hentryName : schema.name = name := (resolveField_resolves hfield).name
  have hmerged := mem_mergedFields.mp hentry
  rw [← hentryName, mergedField?_eq_foldr] at hmerged
  exact ⟨schema, hschema, rfl, readsNearest_of_resolveField (readsOutward_foldr hmerged) hfield,
    fun other hother hsame => List.inj_on_of_nodup_map hnodup hother hschema hsame⟩

/-- Items whose type is declared three times along a line. -/
def itemDecls : List ModelDecl := ModelDecl.number [
  { name := "Item", fields := [("type", (Field.plain.oneOf [(2, "Trapper"), (4, "SNMPv2")]).describedAs "Item type")] },
  { name := "SnmpItem", extends? := some "Item",
    fields := [("type", Field.plain.withDefault (.text "SNMPv2")), ("type", Field.plain)] },
  { name := "ColouredItem", extends? := some "SnmpItem", fields := [("type", Field.color)] }]

def itemRegistry : Registry := ⟨(resolveInOrder itemDecls 0 itemDecls).toOption.getD []⟩

theorem itemRegistry_eq : ofDecls itemDecls = .ok itemRegistry :=
  ofDecls_eq (by decide) (by decide) (by decide)

/-- A default goes through choices that are inherited. Behind another kind both are hidden, but not the description. -/
theorem fields_readNearest_items : ofDecls itemDecls = .ok itemRegistry ∧
    (∃ m, itemRegistry.models[1]? = some m ∧ ∃ schema ∈ m.fields, schema.name = "type" ∧ schema.kind = .scalar ∧
      schema.choices.length = 2 ∧ schema.default? = some (.int 4)) ∧
    ∃ m, itemRegistry.models[2]? = some m ∧ ∃ schema ∈ m.fields, schema.name = "type" ∧ schema.kind = .color ∧
      schema.choices = [] ∧ schema.default? = none ∧ schema.description = some "Item type" := by
  have hdistinct : DistinctNames itemDecls := by decide
  have hitem : Line itemDecls itemDecls[0] [itemDecls[0]] := .top rfl
  have hsnmp : Line itemDecls itemDecls[1] [itemDecls[0], itemDecls[1]] := .under rfl (List.getElem_mem _) hitem
  have hcoloured : Line itemDecls itemDecls[2] [itemDecls[0], itemDecls[1], itemDecls[2]] :=
    .under rfl (List.getElem_mem _) hsnmp
  refine ⟨itemRegistry_eq, ⟨_, rfl, ?_⟩, ⟨_, rfl, ?_⟩⟩
  · obtain ⟨d, line, hd, _, hline, hread⟩ := fields_readNearest itemRegistry_eq (i := 1) rfl
    cases hd
    cases hline.unique hdistinct hsnmp
    obtain ⟨schema, hschema, hname, hnearest, _⟩ := hread "type" ⟨_, List.mem_cons_self, List.mem_cons_self⟩
    obtain ⟨w, hw, hpicked⟩ := hnearest.default (.text "SNMPv2") rfl
    cases hw
    have hchoices : schema.choices = [⟨.int 2, "Trapper"⟩, ⟨.int 4, "SNMPv2"⟩] := hnearest.choices
    rw [hchoices, if_neg (by decide)] at hpicked
    obtain ⟨choice, hchoice, hdefault⟩ := hpicked
    cases hchoice
    exact ⟨schema, hschema, hname, (Option.some.inj hnearest.kind).symm, by rw [hchoices]; rfl, hdefault⟩
  · obtain ⟨d, line, hd, _, hline, hread⟩ := fields_readNearest itemRegistry_eq (i := 2) rfl
    cases hd
    cases hline.unique hdistinct hcoloured
    obtain ⟨schema, hschema, hname, hnearest, _⟩ := hread "type" ⟨_, List.mem_cons_self, List.mem_cons_self⟩
    exact ⟨schema, hschema, hname, (Option.some.inj hnearest.kind).symm, hnearest.choices, hnearest.noDefault rfl,
      hnearest.description⟩

end Registry

end MonitorExport
