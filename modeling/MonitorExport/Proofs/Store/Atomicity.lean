import MonitorExport.Proofs.Store.Ownership

/-!
# All or nothing

A step that fails leaves every entity that was there as it was: what its slots hold, and what it belongs
to. Hydrating fails for an unknown key before it looks at any input.
-/

namespace MonitorExport.Store

variable {s t : Store} {e x : EntityId} {fields : Fields} {err : ConfigError}

/-- An operation that fails leaves every entity that was there as it was. -/
theorem entity_of_error {op : Operation} (hs : s.Linked) (hr : s.NamesGiven) (hv : op.Valid s)
    (h : op.step s = (.error err, t)) (hx : s.Has x) : t.entity x = s.entity x :=
  ((op.step_ends hs hr hv).error h).entity x hx

theorem entity_of_update_error (hs : s.Linked) (hr : s.NamesGiven) (he : s.Has e)
    (hn : ∀ x, NamedIn fields x → s.Has x) (h : update e fields s = (.error err, t)) (hx : s.Has x) :
    t.entity x = s.entity x := by
  have hv : (Operation.update e fields).Valid s := ⟨he, hn⟩
  have hop : (Operation.update e fields).step s = (.error err, t) := Edit.bind_error h
  exact entity_of_error hs hr hv hop hx

theorem entity_of_assign_error {field : String} {input : Input} (hs : s.Linked) (hr : s.NamesGiven) (he : s.Has e)
    (hn : ∀ x, input.Names x → s.Has x) (h : assign e field input s = (.error err, t)) (hx : s.Has x) :
    t.entity x = s.entity x := by
  have hv : (Operation.assign e field input).Valid s := ⟨he, hn⟩
  have hop : (Operation.assign e field input).step s = (.error err, t) := Edit.bind_error h
  exact entity_of_error hs hr hv hop hx

/-! ## Unknown keys -/

/-- Whether an entity has no field of a name. -/
def lacks (s : Store) (e : EntityId) (key : String) : Bool := ((s.schemaOf e).fieldIndex? key).isNone

theorem fieldIndex_of_lacks {key : String} (h : s.lacks e key = true) :
    s.fieldIndex e key = .error (.unknownField (s.schemaOf e).name key) := by
  have hn : (s.schemaOf e).fieldIndex? key = none := Option.isNone_iff_eq_none.mp h
  rw [fieldIndex, hn]

theorem fieldIndex_of_not_lacks {key : String} (h : ¬ s.lacks e key = true) :
    ∃ i, s.fieldIndex e key = .ok i := by
  unfold lacks at h
  cases hi : (s.schemaOf e).fieldIndex? key with
  | none => simp [hi] at h
  | some i => exact ⟨i, by rw [fieldIndex, hi]⟩

/-- Looking keys up fails for the first that the entity lacks. -/
theorem mapM_fieldIndex {keys : List String} {key : String} (h : keys.find? (s.lacks e) = some key) :
    keys.mapM (s.fieldIndex e) = .error (.unknownField (s.schemaOf e).name key) := by
  induction keys with
  | nil => cases h
  | cons k keys ih =>
      rw [List.mapM_cons]
      by_cases hk : s.lacks e k = true
      · rw [List.find?_cons_of_pos hk] at h
        cases h
        rw [fieldIndex_of_lacks hk]
        rfl
      · rw [List.find?_cons_of_neg hk] at h
        obtain ⟨i, hi⟩ := fieldIndex_of_not_lacks hk
        rw [hi, ih h]
        rfl

/-- Hydrating fails for the first key that the entity lacks, whatever the inputs for other keys are. -/
theorem update_of_lacks {key : String} (h : fields.keys.find? (s.lacks e) = some key) :
    (update e fields s).1 = .error (.unknownField (s.schemaOf e).name key) := by
  have hread : Edit.ofRead (fun s => fields.keys.mapM (s.fieldIndex e)) s =
      (.error (.unknownField (s.schemaOf e).name key), s) := by
    rw [Edit.ofRead, mapM_fieldIndex h]
  have hstage : ∀ build, stageFields build e fields s = (.error (.unknownField (s.schemaOf e).name key), s) :=
    fun _ => Edit.bind_error hread
  rw [update, updateTo, Edit.orRelease, updateWith, Edit.bind_error (hstage _)]

/-- If hydrating an entity or assigning one of its fields fails, then every entity that was there holds what
it held and belongs to what it belonged to. Hydrating fails for the first unknown key, if there is one. -/
theorem reachable_atomic (h : Reachable s) (he : s.Has e) :
    (∀ fields, (∀ x, NamedIn fields x → s.Has x) →
      (∀ err t, update e fields s = (.error err, t) → ∀ x, s.Has x → t.entity x = s.entity x) ∧
      ∀ key, fields.keys.find? (s.lacks e) = some key →
        (update e fields s).1 = .error (.unknownField (s.schemaOf e).name key)) ∧
    ∀ field input, (∀ x, input.Names x → s.Has x) →
      ∀ err t, assign e field input s = (.error err, t) → ∀ x, s.Has x → t.entity x = s.entity x := by
  refine ⟨fun fields hn => ⟨fun err t hu x hx => ?_, fun key hk => ?_⟩, fun field input hn err t ha x hx => ?_⟩
  · exact entity_of_update_error h.linked h.namesGiven he hn hu hx
  · exact update_of_lacks hk
  · exact entity_of_assign_error h.linked h.namesGiven he hn ha hx

/-- Fields for a node that give it a new node, which takes the second node, and then what is no node. -/
def strayFields : Fields := ⟨[("Nodes", .list [.mapping ⟨[("Nodes", .entity ⟨1⟩)]⟩, .null])]⟩

theorem strayFields_names (h : NamedIn strayFields x) : x = ⟨1⟩ := by
  obtain ⟨_, hmem, hx⟩ := namedIn_iff.mp h
  cases List.mem_singleton.mp hmem
  obtain _ | ⟨hi, hx⟩ := hx
  simp only [List.mem_cons, List.not_mem_nil, or_false] at hi
  rcases hi with rfl | rfl
  · obtain ⟨_, hmem, hx⟩ := namedIn_iff.mp hx
    cases List.mem_singleton.mp hmem
    cases hx
    rfl
  · cases hx

theorem twoNodes_atomic :
    (update ⟨0⟩ strayFields twoNodes).2.entity ⟨1⟩ = twoNodes.entity ⟨1⟩ ∧
      (update ⟨0⟩ ⟨[("Nodes", .value (.int 1)), ("Edges", .null)]⟩ twoNodes).1 =
        .error (.unknownField "Node" "Edges") := by
  have hall := reachable_atomic (e := ⟨0⟩) twoNodes_reachable (by decide)
  refine ⟨?_, ?_⟩
  · have hn : ∀ x, NamedIn strayFields x → twoNodes.Has x := fun x hx => strayFields_names hx ▸ (by decide)
    exact (hall.1 strayFields hn).1 _ _ rfl ⟨1⟩ (by decide)
  · refine (hall.1 ⟨[("Nodes", .value (.int 1)), ("Edges", .null)]⟩ ?_).2 "Edges" rfl
    intro x hx
    obtain ⟨_, hmem, hx⟩ := namedIn_iff.mp hx
    simp only [List.mem_cons, List.not_mem_nil, or_false] at hmem
    rcases hmem with rfl | rfl <;> cases hx

end MonitorExport.Store
