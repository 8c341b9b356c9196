import MonitorExport.Proofs.Schema.Resolving

/-!
# Named entities

Which entities the inputs of a step name. Preparations get the fields for a new entity alone, so they name
no entity that these do not name; every preparation of the catalogue is of that kind.
-/

namespace MonitorExport

/-- An input names an entity if it is that entity or holds it at any depth. -/
inductive Input.Names : Input → EntityId → Prop
  | entity {e : EntityId} : Names (.entity e) e
  | item {items : List Input} {i : Input} {e : EntityId} (hi : i ∈ items) (h : Names i e) : Names (.list items) e
  | field {fields : Fields} {key : String} {i : Input} {e : EntityId} (hi : (key, i) ∈ fields.pairs)
      (h : Names i e) : Names (.mapping fields) e

def NamedIn (fields : Fields) (e : EntityId) : Prop := (Input.mapping fields).Names e

theorem namedIn_iff {fields : Fields} {e : EntityId} :
    NamedIn fields e ↔ ∃ pair ∈ fields.pairs, pair.2.Names e := by
  constructor
  · rintro (_ | _ | ⟨hi, h⟩)
    exact ⟨_, hi, h⟩
  · rintro ⟨⟨key, i⟩, hi, h⟩
    exact .field hi h

theorem names_mapping_iff {fields : Fields} {e : EntityId} :
    (Input.mapping fields).Names e ↔ ∃ pair ∈ fields.pairs, pair.2.Names e :=
  namedIn_iff

theorem names_list_iff {items : List Input} {e : EntityId} : (Input.list items).Names e ↔ ∃ i ∈ items, i.Names e := by
  constructor
  · rintro (_ | ⟨hi, h⟩)
    exact ⟨_, hi, h⟩
  · rintro ⟨i, hi, h⟩
    exact .item hi h

theorem names_entity_iff {x e : EntityId} : (Input.entity x).Names e ↔ e = x :=
  ⟨fun h => by cases h; rfl, fun h => h ▸ .entity⟩

theorem not_names_value {v : Value} {e : EntityId} : ¬ (Input.value v).Names e := nofun

theorem NamedIn.of_get? {fields : Fields} {key : String} {i : Input} {e : EntityId} (h : fields.get? key = some i)
    (hi : i.Names e) : NamedIn fields e := by
  obtain ⟨pair, hpair, rfl⟩ := Option.map_eq_some_iff.mp h
  exact namedIn_iff.mpr ⟨pair, List.mem_of_find?_eq_some hpair, hi⟩

theorem NamedIn.erase {fields : Fields} {key : String} {e : EntityId} (h : NamedIn (fields.erase key) e) :
    NamedIn fields e := by
  obtain ⟨pair, hpair, hn⟩ := namedIn_iff.mp h
  exact namedIn_iff.mpr ⟨pair, List.mem_of_mem_eraseP hpair, hn⟩

theorem NamedIn.setDefault {fields : Fields} {key : String} {i : Input} {e : EntityId}
    (h : NamedIn (fields.setDefault key i) e) : i.Names e ∨ NamedIn fields e := by
  unfold Entries.setDefault at h
  split at h
  · exact .inr h
  · obtain ⟨pair, hpair, hn⟩ := namedIn_iff.mp h
    rcases List.mem_append.mp hpair with hpair | hpair
    · exact .inr (namedIn_iff.mpr ⟨pair, hpair, hn⟩)
    · cases List.mem_singleton.mp hpair
      exact .inl hn

/-- Whether a preparation names no entity that it was not given. A preparation is a function of the fields alone
and holds no entity of its own, so it has none to add. -/
def Preparation.NamesGiven (p : Preparation) : Prop :=
  ∀ view fields fields', p view fields = .ok fields' → ∀ e, NamedIn fields' e → NamedIn fields e

/-- Whether no preparation of a registry names an entity that it was not given. -/
def Registry.NamesGiven (r : Registry) : Prop := ∀ m ∈ r.models, ∀ p ∈ m.preparations, p.NamesGiven

/-- Whether two views tell the same of the entities that are given. -/
def EntityView.Agree (view view' : EntityView) (given : EntityId → Prop) : Prop :=
  ∀ e, given e → view.describe e = view'.describe e ∧ view.nameOf e = view'.nameOf e

theorem EntityView.Agree.describeInput {view view' : EntityView} {i : Input} (h : view.Agree view' i.Names) :
    view.describeInput i = view'.describeInput i := by
  cases i with
  | entity e => exact (h e .entity).1
  | null => rfl
  | value v => rfl
  | list items => rfl
  | mapping fields => rfl

/-- Whether a preparation asks only about the entities that the fields name. A preparation is a function of the fields
alone, so it knows no others. -/
def Preparation.AsksGiven (p : Preparation) : Prop :=
  ∀ (view view' : EntityView) (fields : Fields), view.Agree view' (NamedIn fields) → p view fields = p view' fields

/-- Whether no preparation of a registry asks about an entity that it was not given. -/
def Registry.AsksGiven (r : Registry) : Prop := ∀ m ∈ r.models, ∀ p ∈ m.preparations, p.AsksGiven

namespace Entries

theorem mem_insertPair {α : Type} {key : String} {value : α} {pairs : List (String × α)} {pair : String × α}
    (h : pair ∈ insertPair key value pairs) : pair = (key, value) ∨ pair ∈ pairs := by
  induction pairs with
  | nil => simpa [insertPair] using h
  | cons p pairs ih =>
      unfold insertPair at h
      split at h
      · next hk => rcases List.mem_cons.mp h with rfl | h <;> simp_all
      · rcases List.mem_cons.mp h with rfl | h
        · simp
        · exact (ih h).imp_right (List.mem_cons_of_mem _)

end Entries

theorem NamedIn.insert {fields : Fields} {key : String} {i : Input} {e : EntityId}
    (h : NamedIn (fields.insert key i) e) : i.Names e ∨ NamedIn fields e := by
  obtain ⟨pair, hpair, hn⟩ := namedIn_iff.mp h
  rcases Entries.mem_insertPair hpair with rfl | hmem
  · exact .inl hn
  · exact .inr (namedIn_iff.mpr ⟨pair, hmem, hn⟩)

/-- What holds of the preparations of all declarations holds of those of the registry. -/
theorem Registry.ofDecls_prepared {P : Preparation → Prop} {decls : List ModelDecl} {r : Registry}
    (h : ofDecls decls = .ok r) (hd : ∀ d ∈ decls, ∀ p, d.preparation = some p → P p) :
    ∀ m ∈ r.models, ∀ p ∈ m.preparations, P p := by
  intro m hm p hp
  obtain ⟨decl, line, hresolved⟩ := mem_ofDecls h m hm
  obtain ⟨d, hmem, hpd⟩ := mem_preparations hresolved hp
  exact hd d hmem p hpd

/-- A registry without preparations names nothing. -/
theorem Registry.namesGiven_of_unprepared {decls : List ModelDecl} {r : Registry} (h : ofDecls decls = .ok r)
    (hd : ∀ d ∈ decls, d.preparation = none) : r.NamesGiven := by
  refine ofDecls_prepared h fun d hmem p hp => ?_
  rw [hd d hmem] at hp
  cases hp

/-- A registry without preparations asks about nothing. -/
theorem Registry.asksGiven_of_unprepared {decls : List ModelDecl} {r : Registry} (h : ofDecls decls = .ok r)
    (hd : ∀ d ∈ decls, d.preparation = none) : r.AsksGiven := by
  refine ofDecls_prepared h fun d hmem p hp => ?_
  rw [hd d hmem] at hp
  cases hp

end MonitorExport
