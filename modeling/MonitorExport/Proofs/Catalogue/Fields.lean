import MonitorExport.Proofs.Catalogue.Documents
import MonitorExport.Proofs.Export.Failures
import MonitorExport.Proofs.Store.Reading

/-!
# Reading entities of the standard models

All scalar fields of the standard models can be read: the rows of an elastic field are counted from a plain field
and a set, both of which its model has. So can the width of an arrangement, and the name of what gives a
reference its host.
-/

namespace MonitorExport.Catalogue

open Store Mapping

/-! ## Tables -/

/-- Whether a field holds a value that is read as it is stored. -/
def isPlain (field : FieldSchema) : Bool :=
  match field.kind with
  | .scalar | .fixedSize _ | .color => true
  | _ => false

def isReference (field : FieldSchema) : Bool :=
  match field.kind with
  | .reference _ _ => true
  | _ => false

/-- Whether a model has a plain field of a name. -/
def hasPlain (m : ModelSchema) (name : String) : Bool := m.fields.any fun f => f.name = name && isPlain f

/-- Whether a model has a set of a name. -/
def hasSet (m : ModelSchema) (name : String) : Bool := m.fields.any fun f => f.name = name && isSet f

/-- Whether the rows of a field can be counted, if it is elastic. -/
def countable (m : ModelSchema) (field : FieldSchema) : Bool :=
  match field.kind with
  | .elastic size items => hasPlain m size && hasSet m items
  | _ => true

/-- Whether a model has what its arrangement speaks of. -/
def arrangeable (m : ModelSchema) : Bool :=
  match m.arrangement with
  | some (.sequence items _) => hasSet m items
  | some (.grid items columns _ _) => hasSet m items && hasPlain m columns
  | none => true

theorem countable_table : ∀ m ∈ models, ∀ field ∈ m.fields, countable m field = true ∧
    (field.kind.isScalar = false → field.target.isSome = true) := by
  decide +kernel

theorem arrangeable_table : ∀ m ∈ models, arrangeable m = true := by
  decide +kernel

/-- The models that give references a host. -/
def hostModels : List String := ["Host", "Template"]

theorem hosts_table : ∀ m ∈ models, (m.hostScope = true ↔ m.name ∈ hostModels) ∧
    (m.hostScope = true → hasPlain m hostNameField = true) := by
  decide +kernel

theorem documents_table : ∀ m ∈ models, m.document = true → ∀ field ∈ m.fields, ∀ p ∈ models.zipIdx, takes field p →
    hasPlain p.1 hostNameField = true := by
  decide +kernel

/-! ## Slots -/

variable {s : Store} {e x : EntityId} {i : Nat} {f : FieldSchema} {name : String}

theorem isScalar_of_isPlain (h : isPlain f = true) : f.kind.isScalar = true := by
  unfold isPlain at h
  cases hk : f.kind <;> simp_all [FieldKind.isScalar]

theorem slot_scalar (hs : s.Linked) (he : s.Has e) (hf : s.field? e i = some f) (h : f.kind.isScalar = true) :
    ∃ stored, s.slot e i = .scalar stored := by
  have hkind : (s.slot e i).emptied = .scalar none := by
    rw [hs.typed.emptied_of_field he hf, freshSlot]
    cases hk : f.kind <;> simp_all [FieldKind.isScalar, Slot.emptied]
  exact Slot.exists_scalar hkind

/-! ## Fields by name -/

theorem exists_field {p : FieldSchema → Bool} (h : (s.schemaOf e).fields.any (fun f => f.name = name && p f) = true) :
    ∃ i f, s.field? e i = some f ∧ f.name = name ∧ p f = true := by
  obtain ⟨f, hf, hp⟩ := List.any_eq_true.mp h
  obtain ⟨i, hi⟩ := List.getElem?_of_mem hf
  rw [Bool.and_eq_true, decide_eq_true_eq] at hp
  exact ⟨i, f, hi, hp⟩

theorem read_of_plain (hf : s.field? e i = some f) (hp : isPlain f = true) {stored : Option Value}
    (hslot : s.slot e i = .scalar stored) (fuel : Nat) : s.readWithin e fuel i = .ok stored := by
  refine readWithin_plain hslot fun size items hk => ?_
  rw [kind_eq hf] at hk
  simp [isPlain, hk] at hp

theorem read_of_no_field (hf : s.field? e i = none) {stored : Option Value} (hslot : s.slot e i = .scalar stored)
    (fuel : Nat) : s.readWithin e fuel i = .ok stored := by
  have hkind : s.kind e i = .scalar := by rw [Store.kind, hf]; rfl
  exact readWithin_plain hslot fun size items => by simp [hkind]

namespace Standard

variable (hs : s.Linked) (h : Standard s e)

include hs h

/-- A plain field is found by its name, and read with any fuel. -/
theorem readWithin_of_hasPlain (hp : hasPlain (s.schemaOf e) name = true) :
    ∃ i, s.fieldIndex e name = .ok i ∧ ∃ stored, ∀ fuel, s.readWithin e fuel i = .ok stored := by
  obtain ⟨i, f, hf, rfl, hplain⟩ := exists_field hp
  obtain ⟨stored, hslot⟩ := slot_scalar hs h.has hf (isScalar_of_isPlain hplain)
  exact ⟨i, fieldIndex_eq h hf, stored, read_of_plain hf hplain hslot⟩

theorem get_of_hasPlain (hp : hasPlain (s.schemaOf e) name = true) : ∃ v, s.get e name = .ok v := by
  obtain ⟨i, hi, stored, hread⟩ := readWithin_of_hasPlain hs h hp
  refine ⟨stored, ?_⟩
  rw [Store.get, hi]
  exact hread _

theorem collection_of_hasSet (hp : hasSet (s.schemaOf e) name = true) : ∃ i, s.fieldIndex e name = .ok i ∧
    s.collection e name = .ok ⟨e, i⟩ ∧ ∃ es, s.slot e i = .members es := by
  obtain ⟨i, f, hf, rfl, hset⟩ := exists_field hp
  obtain ⟨es, hslot⟩ := slot_members hs h.has hf hset
  have hi := fieldIndex_eq h hf
  refine ⟨i, hi, ?_, es, hslot⟩
  simp only [Store.collection, hi, ok_bind, hslot]
  rfl

theorem read_of_isScalar (hf : s.field? e i = some f) (hk : f.kind.isScalar = true) : ∃ v, s.read e i = .ok v := by
  obtain ⟨stored, hslot⟩ := slot_scalar hs h.has hf hk
  cases hplain : isPlain f with
  | true => exact ⟨stored, read_of_plain hf hplain hslot _⟩
  | false =>
      have hmem : f ∈ (s.schemaOf e).fields := List.mem_of_getElem? hf
      cases hkind : f.kind with
      | scalar | fixedSize | color => simp [isPlain, hkind] at hplain
      | set | reference => simp [FieldKind.isScalar, hkind] at hk
      | elastic size items =>
          have hcount := (countable_table _ h.mem f hmem).1
          rw [countable, hkind, Bool.and_eq_true] at hcount
          obtain ⟨j, hj, width, hwidth⟩ := readWithin_of_hasPlain hs h hcount.1
          obtain ⟨k, _, hc, _⟩ := collection_of_hasSet hs h hcount.2
          obtain ⟨fuel, hfuel⟩ : ∃ fuel, (s.schemaOf e).fields.length = fuel + 1 :=
            Nat.exists_eq_succ_of_ne_zero (Nat.ne_of_gt (List.length_pos_of_mem hmem))
          have hkind := (kind_eq hf).trans hkind
          by_cases hd : isSize stored = true
          · exact ⟨stored, readWithin_given hslot hkind hd⟩
          · exact (readWithin_counted hslot hkind hd).mpr ⟨⟨_, hc⟩, j, hj, fuel, hfuel, width, hwidth fuel⟩

theorem emptied_of_not_scalar (hf : s.field? e i = some f) (hk : f.kind.isScalar = false) :
    (s.slot e i).emptied ≠ .scalar none := by
  have htarget := (countable_table _ h.mem f (List.mem_of_getElem? hf)).2 hk
  obtain ⟨k, htarget⟩ := Option.isSome_iff_exists.mp htarget
  rw [hs.typed.emptied_of_field h.has hf, freshSlot, htarget]
  cases hkind : f.kind <;> simp_all [FieldKind.isScalar, Slot.emptied]

theorem isScalar_of_slot (hf : s.field? e i = some f) {stored : Option Value} (hslot : s.slot e i = .scalar stored) :
    f.kind.isScalar = true :=
  Bool.of_not_eq_false fun hk => emptied_of_not_scalar hs h hf hk (by rw [hslot]; rfl)

/-- Of a standard entity all can be read that its mapping reads. -/
theorem readable : Readable s e where
  scalar i stored palette hslot := by
    have hread : ∃ v, s.read e i = .ok v := by
      cases hf : s.field? e i with
      | none => exact ⟨stored, read_of_no_field hf hslot _⟩
      | some f => exact read_of_isScalar hs h hf (isScalar_of_slot hs h hf hslot)
    unfold readDrawing
    split
    · exact ⟨_, rfl⟩
    · obtain ⟨v, hv⟩ := hread
      exact ⟨(v, palette), by rw [hv]; rfl⟩
  arranged i hi := by
    obtain ⟨a, ha, hindex⟩ := Option.bind_eq_some_iff.mp hi
    have htable := arrangeable_table _ h.mem
    have hset : hasSet (s.schemaOf e) a.items = true := by
      rw [arrangeable, ha] at htable
      cases a with
      | sequence => exact htable
      | grid => exact (Bool.and_eq_true_iff.mp htable).1
    obtain ⟨j, hj, _, hslot⟩ := collection_of_hasSet hs h hset
    rw [Store.fieldIndex, hindex] at hj
    cases hj
    exact hslot
  width a ha := by
    cases a with
    | sequence => exact ⟨1, rfl⟩
    | grid items columns x y =>
        have htable := arrangeable_table _ h.mem
        rw [arrangeable, ha] at htable
        obtain ⟨v, hv⟩ := get_of_hasPlain hs h (Bool.and_eq_true_iff.mp htable).2
        exact ⟨rowWidth v, by rw [arrangementWidth, hv]; rfl⟩

end Standard

/-! ## Owners -/

variable {c : CollectionId} {a : EntityId}

theorem Standard.of_owner (hs : s.Linked) (h : Standard s x) (ho : s.owner x = some a) : Standard s a := by
  obtain ⟨c, hp, rfl⟩ := owner_eq_some.mp ho
  exact h.of_parent hs hp

/-- The ancestors of an entity are above it. -/
theorem after_of_mem_ancestors (ha : a ∈ s.ancestors x) : After s.owner x a := by
  have hwithin (fuel : Nat) : ∀ x, a ∈ s.ancestorsWithin fuel x → After s.owner x a := by
    induction fuel with
    | zero => exact fun _ ha => absurd ha List.not_mem_nil
    | succ fuel ih =>
        intro x ha
        unfold ancestorsWithin at ha
        split at ha
        · cases ha
        · next o ho =>
          split at ha
          · cases ha
          · rcases List.mem_cons.mp ha with rfl | ha
            · exact .single ho
            · exact .head ho (ih o ha)
  exact hwithin _ x ha

theorem Standard.of_after (hs : s.Linked) (h : Standard s x) (ha : After s.owner x a) : Standard s a := by
  induction ha with
  | single ho => exact h.of_owner hs ho
  | tail _ ho ih => exact ih.of_owner hs ho

/-- Whether an entity is held by a document itself. -/
def InDocument (s : Store) (a : EntityId) : Prop := ∃ o, s.owner a = some o ∧ s.isDocument o = true

theorem hostScope_eq_some (ha : s.hostScope x = some a) : a ∈ s.ancestors x ∧ (s.schemaOf a).hostScope = true :=
  ⟨List.mem_of_find?_eq_some ha, List.find?_some (p := fun a => (s.schemaOf a).hostScope) ha⟩

theorem documentHost_eq_some (ha : s.documentHost x = some a) : a ∈ s.ancestors x ∧ InDocument s a := by
  refine ⟨List.mem_of_find?_eq_some ha, ?_⟩
  have hd := List.find?_some ha
  cases ho : s.owner a with
  | none => simp [ho] at hd
  | some o => exact ⟨o, ho, by simpa [ho] using hd⟩

theorem stampingHost_eq_some (ha : s.stampingHost x = some a) : s.documentHost x = some a ∨ s.hostScope x = some a := by
  unfold stampingHost at ha
  cases hd : s.documentHost x with
  | none => exact .inr (by rwa [hd] at ha)
  | some o => exact .inl (by rwa [hd] at ha)

theorem get_name_of_hostScope (hs : s.Linked) (h : Standard s x) (ha : s.hostScope x = some a) :
    ∃ v, s.get a hostNameField = .ok v := by
  obtain ⟨hmem, hscope⟩ := hostScope_eq_some ha
  have hstandard := h.of_after hs (after_of_mem_ancestors hmem)
  exact hstandard.get_of_hasPlain hs ((hosts_table _ hstandard.mem).2 hscope)

theorem get_name_of_documentHost (hs : s.Linked) (h : Standard s x) (ha : s.documentHost x = some a) :
    ∃ v, s.get a hostNameField = .ok v := by
  obtain ⟨hmem, o, ho, hdocument⟩ := documentHost_eq_some ha
  obtain ⟨c, hp, rfl⟩ := owner_eq_some.mp ho
  have hstandard := h.of_after hs (after_of_mem_ancestors hmem)
  have howner := hstandard.of_parent hs hp
  obtain ⟨_, f, hholds⟩ := howner.holds hs (hs.mem_iff.mpr hp)
  exact hstandard.get_of_hasPlain hs
    (documents_table _ howner.mem hdocument f (List.mem_of_getElem? hholds.place) _ hstandard.mem_zipIdx hholds.admits)

/-- An identity can always be completed by the host of a standard entity. -/
theorem withHost_ok {host : Option EntityId} (h : ∀ a, host = some a → ∃ v, s.get a hostNameField = .ok v)
    (identity : Identity) : ∃ identity', s.withHost identity host = .ok identity' := by
  cases host with
  | none => exact ⟨_, rfl⟩
  | some a =>
      obtain ⟨v, hv⟩ := h a rfl
      cases v with
      | none => exact ⟨identity, by rw [withHost, hv]; rfl⟩
      | some name => exact ⟨identity.insert "host" name, by rw [withHost, hv]; rfl⟩

theorem get_name_of_stampingHost (hs : s.Linked) (h : Standard s x) (ha : s.stampingHost x = some a) :
    ∃ v, s.get a hostNameField = .ok v := by
  rcases stampingHost_eq_some ha with ha | ha
  · exact get_name_of_documentHost hs h ha
  · exact get_name_of_hostScope hs h ha

end MonitorExport.Catalogue
