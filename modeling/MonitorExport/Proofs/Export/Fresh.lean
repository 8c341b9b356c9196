import MonitorExport.Proofs.Export.Failures
import MonitorExport.Proofs.Schema.Building
import MonitorExport.Proofs.Schema.Subtyping
import MonitorExport.Proofs.Store.Reading

/-!
# New entities

A new entity holds defaults and nothing else. Resolving declarations checks the names of models, and that the
names in an elastic field are fields of its model. It does not check what these fields are, nor that counting rows
comes to an end, nor the names in an arrangement at all. So whether a new entity can be compiled is a property of
its model beside having been resolved, and it is given here.
-/

namespace MonitorExport

/-! ## Models that can be read -/

namespace ModelSchema

variable {m : ModelSchema} {index j c : Nat} {field : FieldSchema} {size items : String} {l : List Nat}

/-- Whether the field at a place holds members. -/
def HoldsMembers (m : ModelSchema) (index : Nat) : Prop :=
  ∃ field, m.fields[index]? = some field ∧ ∃ model allowEmpty tag, field.kind = .set model allowEmpty tag

/-- Whether a new entity gives a value, or none, for the field at a place: the rows of an elastic field are given by
its default or counted from members and from a size that can be read itself. -/
inductive Reads (m : ModelSchema) : Nat → Prop
  | plain {index : Nat} {field : FieldSchema} (h : m.fields[index]? = some field) (hs : field.kind.isScalar = true)
      (hk : ∀ size items, field.kind ≠ .elastic size items) : Reads m index
  | given {index : Nat} {field : FieldSchema} {size items : String} (h : m.fields[index]? = some field)
      (hk : field.kind = .elastic size items) (hd : Store.isSize field.default? = true) : Reads m index
  | counted {index c j : Nat} {field : FieldSchema} {size items : String} (h : m.fields[index]? = some field)
      (hk : field.kind = .elastic size items) (hc : m.fieldIndex? items = some c) (hm : m.HoldsMembers c)
      (hj : m.fieldIndex? size = some j) (hr : Reads m j) : Reads m index

/-- Whether all that compiling a new entity asks for can be read. -/
structure Legible (m : ModelSchema) : Prop where
  values : ∀ (i : Nat) field, m.fields[i]? = some field → field.kind.isScalar = true →
    Mapping.arrangedIndex? m ≠ some i → m.Reads i
  unbound : ∀ (i : Nat) field, m.fields[i]? = some field → (∃ model appendHost, field.kind = .reference model appendHost) →
    Mapping.arrangedIndex? m = some i
  columns : ∀ items columns x y c, m.arrangement = some (.grid items columns x y) → m.fieldIndex? items = some c →
    m.HoldsMembers c → ∃ j, m.fieldIndex? columns = some j ∧ m.Reads j

/-- The field that gives the size from which the rows of a field are counted in a new entity. -/
def countedFrom? (m : ModelSchema) (index : Nat) : Option Nat :=
  m.fields[index]?.bind fun field =>
    match field.kind with
    | .elastic size _ => if Store.isSize field.default? then none else m.fieldIndex? size
    | _ => none

theorem countedFrom?_lt (h : m.countedFrom? index = some j) : j < m.fields.length := by
  obtain ⟨field, _, h⟩ := Option.bind_eq_some_iff.mp h
  split at h
  · split at h
    · cases h
    · exact fieldIndex?_lt h
  · cases h

theorem countedFrom?_plain (h : m.fields[index]? = some field) (hk : ∀ size items, field.kind ≠ .elastic size items) :
    m.countedFrom? index = none := by
  rw [countedFrom?, h, Option.bind_some]
  split
  · next hs => exact absurd hs (hk _ _)
  · rfl

theorem countedFrom?_elastic (h : m.fields[index]? = some field) (hk : field.kind = .elastic size items) :
    m.countedFrom? index = if Store.isSize field.default? then none else m.fieldIndex? size := by
  rw [countedFrom?, h, Option.bind_some, hk]

/-- Counting rows comes to an end where it can be done. -/
theorem Reads.finishes (h : m.Reads index) : Finishes m.countedFrom? index := by
  induction h with
  | plain h _ hk => exact .last (countedFrom?_plain h hk)
  | given h hk hd => exact .last (by rw [countedFrom?_elastic h hk, if_pos hd])
  | @counted _ _ _ field _ _ h hk _ _ hj _ ih =>
      by_cases hd : Store.isSize field.default? = true
      · exact .last (by rw [countedFrom?_elastic h hk, if_pos hd])
      · exact .step (by rw [countedFrom?_elastic h hk, if_neg hd, hj]) ih

end ModelSchema

/-! ## Reading a new entity -/

/-- Whether each field of a model holds values, or entities of a model that is there. -/
def ModelSchema.Targeted (m : ModelSchema) : Prop :=
  ∀ field ∈ m.fields, field.kind.isScalar = true ∨ ∃ k, field.target = some k

namespace Store

variable {s : Store} {e : EntityId} {m : ModelSchema} {index fuel : Nat} {field : FieldSchema} {items : String}

/-- Whether an entity holds the defaults of a model and nothing else. -/
structure IsNew (s : Store) (m : ModelSchema) (e : EntityId) : Prop where
  schema : s.schemaOf e = m
  slots : (s.entity e).slots = m.fields.map freshSlot

theorem freshSlot_scalar (h : field.kind.isScalar = true) : freshSlot field = .scalar field.default? := by
  unfold freshSlot
  split
  · next hk _ => simp [hk, FieldKind.isScalar] at h
  · next hk _ => simp [hk, FieldKind.isScalar] at h
  · rfl

namespace IsNew

theorem slot (h : s.IsNew m e) (hf : m.fields[index]? = some field) : s.slot e index = freshSlot field := by
  rw [Store.slot, List.getD_eq_getElem?_getD, h.slots, List.getElem?_map, hf]
  rfl

theorem kind (h : s.IsNew m e) (hf : m.fields[index]? = some field) : s.kind e index = field.kind :=
  kind_eq (by rw [field?, h.schema, hf])

theorem fieldIndex (h : s.IsNew m e) (name : String) {i : Nat} :
    s.fieldIndex e name = .ok i ↔ m.fieldIndex? name = some i := by
  rw [fieldIndex_ok_iff, h.schema]

/-- The slot of a field holds a value, members or a binding, as its kind says. -/
theorem slot_cases (h : s.IsNew m e) (hm : m.Targeted) (hf : m.fields[index]? = some field) :
    (field.kind.isScalar = true ∧ s.slot e index = .scalar field.default?) ∨
      ((∃ model allowEmpty tag, field.kind = .set model allowEmpty tag) ∧ s.slot e index = .members []) ∨
      ((∃ model appendHost, field.kind = .reference model appendHost) ∧ s.slot e index = .binding .unbound) := by
  rw [h.slot hf]
  by_cases hs : field.kind.isScalar = true
  · exact .inl ⟨hs, freshSlot_scalar hs⟩
  · obtain ⟨k, ht⟩ := (hm field (List.mem_of_getElem? hf)).resolve_left hs
    cases hk : field.kind with
    | set => exact .inr (.inl ⟨⟨_, _, _, rfl⟩, by simp [freshSlot, hk, ht]⟩)
    | reference => exact .inr (.inr ⟨⟨_, _, rfl⟩, by simp [freshSlot, hk, ht]⟩)
    | _ => simp [hk, FieldKind.isScalar] at hs

theorem members_iff (h : s.IsNew m e) (hm : m.Targeted) : (∃ es, s.slot e index = .members es) ↔ m.HoldsMembers index := by
  cases hf : m.fields[index]? with
  | none =>
      have hslot : s.slot e index = .scalar none := by
        rw [Store.slot, List.getD_eq_getElem?_getD, h.slots, List.getElem?_map, hf]
        rfl
      simp [hslot, ModelSchema.HoldsMembers, hf]
  | some field =>
      rcases h.slot_cases hm hf with ⟨hs, hslot⟩ | ⟨hset, hslot⟩ | ⟨⟨_, _, hr⟩, hslot⟩
      · have hne : ∀ model allowEmpty tag, field.kind ≠ .set model allowEmpty tag := fun _ _ _ hk => by
          simp [hk, FieldKind.isScalar] at hs
        simp [hslot, ModelSchema.HoldsMembers, hf, hne]
      · exact ⟨fun _ => ⟨field, hf, hset⟩, fun _ => ⟨_, hslot⟩⟩
      · simp [hslot, ModelSchema.HoldsMembers, hf, hr]

theorem collection (h : s.IsNew m e) (hm : m.Targeted) : (∃ c, s.collection e items = .ok c) ↔
    ∃ i, m.fieldIndex? items = some i ∧ m.HoldsMembers i := by
  rw [Store.collection, exists_bind_ok]
  refine exists_congr fun i => ?_
  rw [h.fieldIndex, ← h.members_iff hm]
  refine and_congr_right fun _ => ?_
  cases s.slot e i <;> simp [throw, throwThe, MonadExceptOf.throw, pure, Except.pure]

theorem reads_of_readWithin (h : s.IsNew m e) (hm : m.Targeted) (hf : m.fields[index]? = some field) {v : Option Value}
    (hv : s.readWithin e fuel index = .ok v) : m.Reads index := by
  -- on the steps that are left, of which a size is read with one less
  induction fuel using Nat.strongRecOn generalizing index field v with
  | ind fuel ih =>
      obtain ⟨stored, hstored⟩ := slot_of_readWithin hv
      rcases h.slot_cases hm hf with ⟨hs, hslot⟩ | ⟨_, hslot⟩ | ⟨_, hslot⟩
      · by_cases hk : ∃ size items, field.kind = .elastic size items
        · obtain ⟨size, items, hk⟩ := hk
          by_cases hd : isSize field.default? = true
          · exact .given hf hk hd
          · obtain ⟨hc, j, hj, n, rfl, w, hw⟩ := (readWithin_counted hslot ((h.kind hf).trans hk) hd).mp ⟨v, hv⟩
            obtain ⟨c, hc, hmembers⟩ := (h.collection hm).mp hc
            have hj := (h.fieldIndex size).mp hj
            have hsize := List.getElem?_eq_getElem (ModelSchema.fieldIndex?_lt hj)
            exact .counted hf hk hc hmembers hj (ih n (Nat.lt_succ_self n) hsize hw)
        · exact .plain hf hs fun size items hn => hk ⟨size, items, hn⟩
      · simp [hslot] at hstored
      · simp [hslot] at hstored

theorem readWithin_of_reads (h : s.IsNew m e) (hm : m.Targeted) (hr : m.Reads index) {l : List Nat}
    (hl : Chain m.countedFrom? index l) (hle : l.length ≤ fuel) : ∃ v, s.readWithin e fuel index = .ok v := by
  -- each field that rows are counted from takes one step and one element off the chain
  induction hr generalizing fuel l with
  | plain hf hs hk =>
      have hslot := (h.slot hf).trans (freshSlot_scalar hs)
      exact ⟨_, readWithin_plain hslot fun size items => by rw [h.kind hf]; exact hk size items⟩
  | given hf hk hd =>
      have hslot := (h.slot hf).trans (freshSlot_scalar (by rw [hk]; rfl))
      exact ⟨_, readWithin_given hslot ((h.kind hf).trans hk) hd⟩
  | @counted index c j field size items hf hk hc hmembers hj _ ih =>
      have hslot := (h.slot hf).trans (freshSlot_scalar (by rw [hk]; rfl))
      by_cases hd : isSize field.default? = true
      · exact ⟨_, readWithin_given hslot ((h.kind hf).trans hk) hd⟩
      · have hnext : m.countedFrom? index = some j := by
          rw [ModelSchema.countedFrom?_elastic hf hk, if_neg hd, hj]
        rw [readWithin_counted hslot ((h.kind hf).trans hk) hd, h.collection hm]
        cases hl with
        | last hn => simp [hn] at hnext
        | step hn hl =>
            cases hn.symm.trans hnext
            cases fuel with
            | zero => cases hle
            | succ fuel => exact ⟨⟨c, hc, hmembers⟩, j, (h.fieldIndex size).mpr hj, fuel, rfl, ih hl (by simpa using hle)⟩

/-- What a new entity gives is what its model says. -/
theorem read_ok_iff (h : s.IsNew m e) (hm : m.Targeted) (hf : m.fields[index]? = some field) :
    (∃ v, s.read e index = .ok v) ↔ m.Reads index := by
  constructor
  · rintro ⟨v, hv⟩
    exact h.reads_of_readWithin hm hf hv
  · intro hr
    obtain ⟨l, hl⟩ := hr.finishes.chain
    refine h.readWithin_of_reads hm hr hl ?_
    rw [h.schema]
    exact length_le_of_nodup Function.injective_id hl.nodup (hl.forall_mem fun _ _ => ModelSchema.countedFrom?_lt)

theorem get_ok_iff (h : s.IsNew m e) (hm : m.Targeted) {name : String} :
    (∃ v, s.get e name = .ok v) ↔ ∃ j, m.fieldIndex? name = some j ∧ m.Reads j := by
  rw [get, exists_bind_ok]
  refine exists_congr fun j => ?_
  rw [h.fieldIndex]
  refine and_congr_right fun hj => ?_
  exact h.read_ok_iff hm (List.getElem?_eq_getElem (ModelSchema.fieldIndex?_lt hj))

end IsNew

end Store

/-! ## Compiling what holds nothing -/

namespace Mapping

variable {s : Store} {e : EntityId} {index : Nat}

theorem failureOf_readDrawing (palette : Palette) : failureOf (s.readDrawing e index palette) = failureOf (s.read e index) := by
  unfold Store.readDrawing
  split
  · next hk hslot =>
    have hread : s.read e index = .ok none := Store.readWithin_plain hslot fun _ _ => by rw [hk]; nofun
    rw [hread]
    rfl
  · exact failureOf_map _ _

/-- The failure of the field at a place of an entity that has no members. -/
def fieldFailure (s : Store) (e : EntityId) (index : Nat) : Option ConfigError :=
  match s.slot e index with
  | .scalar _ => failureOf (s.read e index)
  | .binding _ => failureOf (s.resolve e index)
  | .members _ => none

/-- The failure of the arrangement of an entity. -/
def widthFailure (s : Store) (e : EntityId) : Option ConfigError :=
  match arrangedIndex? (s.schemaOf e), (s.schemaOf e).arrangement with
  | some index, some arrangement =>
    match s.slot e index with
    | .members _ => failureOf (arrangementWidth s e arrangement)
    | _ => none
  | _, _ => none

theorem slotNodes_failsAs_empty (tag : Option String) (overrides : Nat → Overrides) :
    FailsAs (fieldFailure s e index) (slotNodes s e index [] (memberNodes s tag overrides 0 [])) := by
  unfold slotNodes fieldFailure
  cases s.slot e index with
  | scalar =>
      have hread : FailsAs (failureOf (s.read e index)) fun palette => s.readDrawing e index palette :=
        failureOf_readDrawing
      rw [← Option.or_none (o := failureOf _)]
      exact hread.bind fun _ => FailsAs.pure _
  | members => exact (FailsAs.pure _).map _
  | binding =>
      have hone : failureOf (referenceNode s e index) = failureOf (s.resolve e index) := failureOf_map _ _
      exact hone ▸ (FailsAs.lift _).map _

/-- The failure of the first field from a place on that fails, without the arranged one. -/
def firstFieldFailure (s : Store) (e : EntityId) (arranged : Option Nat) (index count : Nat) : Option ConfigError :=
  ((List.range' index count).filter fun i => arranged ≠ some i).findSome? (fieldFailure s e)

theorem fieldNodes_failsAs_empty (arranged : Option Nat) (index count : Nat) :
    FailsAs (firstFieldFailure s e arranged index count)
      (fieldNodes s e [] arranged index (List.replicate count [])) := by
  induction count generalizing index with
  | zero => exact FailsAs.pure _
  | succ count ih =>
      rw [List.replicate_succ, fieldNodes]
      have hsplit : firstFieldFailure s e arranged index (count + 1) =
          (if arranged = some index then none else fieldFailure s e index).or
            (firstFieldFailure s e arranged (index + 1) count) := by
        rw [firstFieldFailure, List.range'_succ, List.filter_cons]
        by_cases ha : arranged = some index
        · simp [ha, firstFieldFailure]
        · simp only [ha, ne_eq, not_false_eq_true, decide_true, if_true, if_false, List.findSome?_cons]
          cases fieldFailure s e index <;> rfl
      rw [hsplit, ← Option.or_none (o := firstFieldFailure ..)]
      split
      · exact FailsAs.bind (FailsAs.pure _) fun _ => (ih (index + 1)).bind fun _ => FailsAs.pure _
      · exact (slotNodes_failsAs_empty _ _).bind fun _ => (ih (index + 1)).bind fun _ => FailsAs.pure _

theorem branchNodes_failsAs_empty (tag : Option String) (overrides : Nat → Overrides) (index count : Nat) :
    FailsAs none (branchNodes s tag overrides index (List.replicate count [])) := by
  induction count generalizing index with
  | zero => cases index <;> exact FailsAs.pure _
  | succ count ih =>
      rw [List.replicate_succ]
      cases index with
      | zero => exact FailsAs.pure _
      | succ index => exact ih index

theorem entityNodes_failsAs_empty (count : Nat) :
    FailsAs ((firstFieldFailure s e (arrangedIndex? (s.schemaOf e)) 0 count).or (widthFailure s e))
      (entityNodes s [] (.node e (List.replicate count []))) := by
  unfold entityNodes widthFailure
  refine (fieldNodes_failsAs_empty _ 0 count).bind fun nodes => ?_
  cases arrangedIndex? (s.schemaOf e) with
  | none => exact FailsAs.pure _
  | some index =>
      cases (s.schemaOf e).arrangement with
      | none => exact FailsAs.pure _
      | some arrangement =>
          dsimp only
          cases s.slot e index with
          | scalar => exact FailsAs.pure _
          | binding => exact FailsAs.pure _
          | members =>
              have hbranch := branchNodes_failsAs_empty (s := s) (memberTag? s e index)
              dsimp only
              rw [← Option.or_none (o := failureOf _), ← Option.or_none (o := none)]
              exact (FailsAs.lift _).bind fun width => (hbranch _ index count).bind fun members => FailsAs.pure _

theorem widthFailure_eq_none : widthFailure s e = none ↔ ∀ a, (s.schemaOf e).arrangement = some a →
    ∀ i, (s.schemaOf e).fieldIndex? a.items = some i → (∃ es, s.slot e i = .members es) →
      ∃ w, arrangementWidth s e a = .ok w := by
  unfold widthFailure arrangedIndex?
  cases ha : (s.schemaOf e).arrangement with
  | none => simp
  | some a =>
      cases hi : (s.schemaOf e).fieldIndex? a.items with
      | none => simp [hi]
      | some i => cases hslot : s.slot e i <;> simp [hi, hslot, exists_ok_iff]

end Mapping

theorem Compiler.failureOf_compile {s : Store} {e : EntityId} {o : Option ConfigError} (c : Compiler)
    (h : FailsAs o (Mapping.entityNodes s [] (s.subtree e))) : failureOf (c.compile s e) = o := by
  rw [← h c.palette.reset, compile, failureOf_map, mapRoot, StateT.run]
  cases Mapping.entityNodes s [] (s.subtree e) c.palette.reset with
  | error => rfl
  | ok p =>
      show failureOf (if _ then _ else _) = _
      split <;> rfl

namespace Store.IsNew

variable {s : Store} {e : EntityId} {m : ModelSchema}

theorem subtree_eq (h : s.IsNew m e) : s.subtree e = .node e (List.replicate m.fields.length []) := by
  rw [subtree, ← List.map_const']
  cases s.entities.size with
  | zero =>
      rw [subtreeWithin, h.slots, List.map_map]
      rfl
  | succ n =>
      rw [subtreeWithin, h.slots, List.map_map]
      refine congrArg _ (List.map_congr_left fun field _ => ?_)
      rw [Function.comp_apply, slotMembers_freshSlot]
      rfl

theorem fieldFailure_eq_none (h : s.IsNew m e) (hm : m.Targeted) {index : Nat} {field : FieldSchema}
    (hf : m.fields[index]? = some field) : Mapping.fieldFailure s e index = none ↔
      (field.kind.isScalar = true → m.Reads index) ∧ ¬ ∃ model appendHost, field.kind = .reference model appendHost := by
  unfold Mapping.fieldFailure
  rcases h.slot_cases hm hf with ⟨hs, hslot⟩ | ⟨⟨_, _, _, hk⟩, hslot⟩ | ⟨⟨_, _, hk⟩, hslot⟩
  · have hnot : ¬ ∃ model appendHost, field.kind = .reference model appendHost := by
      rintro ⟨_, _, hk⟩
      simp [hk, FieldKind.isScalar] at hs
    simp only [hslot]
    rw [← exists_ok_iff, h.read_ok_iff hm hf]
    exact ⟨fun hr => ⟨fun _ => hr, hnot⟩, fun hr => hr.1 hs⟩
  · simp [hslot, hk, FieldKind.isScalar]
  · -- what a new reference is bound to cannot be resolved
    have hdangling : ∃ err, s.resolve e index = .error err := by
      have hb : s.binding e index = .unbound := by rw [binding, hslot]
      rw [resolve, hb]
      exact ⟨_, rfl⟩
    obtain ⟨err, herr⟩ := hdangling
    simp [hslot, hk, herr, failureOf]

theorem width_ok_iff (h : s.IsNew m e) (hm : m.Targeted) {a : Arrangement} :
    (∃ w, Mapping.arrangementWidth s e a = .ok w) ↔
      ∀ items columns x y, a = .grid items columns x y → ∃ j, m.fieldIndex? columns = some j ∧ m.Reads j := by
  cases a with
  | sequence => exact ⟨fun _ => nofun, fun _ => ⟨1, rfl⟩⟩
  | grid items columns x y =>
      rw [exists_ok_iff, Mapping.arrangementWidth, failureOf_map, ← exists_ok_iff, h.get_ok_iff hm]
      constructor
      · rintro hj _ _ _ _ ⟨⟩
        exact hj
      · exact fun hj => hj items columns x y rfl

/-- A new entity can be compiled exactly if all that this asks for can be read. -/
theorem compile_ok_iff (h : s.IsNew m e) (hm : m.Targeted) (c : Compiler) :
    (∃ tree, c.compile s e = .ok tree) ↔ m.Legible := by
  have hfails := c.failureOf_compile (h.subtree_eq ▸ Mapping.entityNodes_failsAs_empty _)
  rw [exists_ok_iff, hfails, Option.or_eq_none_iff, Mapping.firstFieldFailure, List.findSome?_eq_none_iff,
    Mapping.widthFailure_eq_none, h.schema]
  have hmem (i : Nat) : i ∈ (List.range' 0 m.fields.length).filter (fun i => Mapping.arrangedIndex? m ≠ some i) ↔
      (∃ field, m.fields[i]? = some field) ∧ Mapping.arrangedIndex? m ≠ some i := by
    simp [List.mem_range', List.getElem?_eq_some_iff]
  constructor
  · rintro ⟨hfields, hwidth⟩
    have hnone : ∀ {i field}, m.fields[i]? = some field → Mapping.arrangedIndex? m ≠ some i → _ := fun hf hi =>
      (h.fieldFailure_eq_none hm hf).mp (hfields _ ((hmem _).mpr ⟨⟨_, hf⟩, hi⟩))
    refine ⟨fun i field hf hs hi => (hnone hf hi).1 hs, fun i field hf hr => ?_, fun items columns x y c ha hc hset => ?_⟩
    · by_contra hi
      exact (hnone hf hi).2 hr
    · exact (h.width_ok_iff hm).mp (hwidth _ ha c hc ((h.members_iff hm).mpr hset)) items columns x y rfl
  · intro hl
    refine ⟨fun i hi => ?_, fun a ha c hc hset => (h.width_ok_iff hm).mpr ?_⟩
    · obtain ⟨⟨field, hf⟩, hi⟩ := (hmem i).mp hi
      exact (h.fieldFailure_eq_none hm hf).mpr
        ⟨fun hs => hl.values i field hf hs hi, fun hr => hi (hl.unbound i field hf hr)⟩
    · rintro items columns x y rfl
      exact hl.columns items columns x y c ha hc ((h.members_iff hm).mp hset)

end Store.IsNew

/-! ## Resolved models -/

namespace Registry

variable {decls : List ModelDecl} {r : Registry} {m : ModelSchema} {i k : Nat}

theorem resolveTarget_of_not_scalar {model name : String} {siblings : List String} {kind : FieldKind} {target : Option Nat}
    (h : resolveTarget decls model siblings name kind = .ok target) (hs : ¬ kind.isScalar = true) : ∃ k, target = some k := by
  cases kind with
  | set =>
      rw [resolveTarget] at h
      split at h
      · cases h; exact ⟨_, rfl⟩
      · cases h
  | reference =>
      rw [resolveTarget] at h
      split at h
      · cases h; exact ⟨_, rfl⟩
      · cases h
  | _ => exact absurd rfl hs

theorem targeted (h : ofDecls decls = .ok r) (hm : m ∈ r.models) : m.Targeted := by
  intro schema hschema
  obtain ⟨d, line, hresolved⟩ := mem_ofDecls h m hm
  obtain ⟨entry, _, hf⟩ := mapM_ok_mem (resolveModel_eq hresolved).2 schema hschema
  obtain ⟨target, _, ht, _, rfl⟩ := resolveField_eq hf
  by_cases hs : entry.2.kind.isScalar = true
  · exact .inl hs
  · exact .inr (resolveTarget_of_not_scalar ht hs)

/-- The names in an elastic field are those of fields of its model. -/
theorem siblings_declared (h : ofDecls decls = .ok r) (hi : r.models[i]? = some m) : ∀ field ∈ m.fields, ∀ size items,
    field.kind = .elastic size items → (∃ j, m.fieldIndex? size = some j) ∧ ∃ c, m.fieldIndex? items = some c := by
  intro field hfield size items hk
  obtain ⟨d, _, _, _, _, hm⟩ := model_ascends h hi
  obtain ⟨entry, _, hf⟩ := mapM_ok_mem (resolveModel_eq hm).2 field hfield
  obtain ⟨target, _, ht, _, rfl⟩ := resolveField_eq hf
  have hindex : ∀ {name}, (∃ f, mergedField? (along decls m.lineage).reverse name = some f) →
      ∃ j, m.fieldIndex? name = some j := fun hname => ModelSchema.exists_fieldIndex? (by
    rw [names_eq h hi]
    exact mem_names.mpr (exists_mergedField?.mp hname))
  obtain ⟨hsize, hitems⟩ := (resolveTarget_ok_iff.mp ⟨target, ht⟩).2.2 size items hk
  exact ⟨hindex hsize, hindex hitems⟩

end Registry

namespace Store

variable {s : Store} {m : ModelSchema} {k i : Nat}

theorem isNew_create (hi : (s.registry k).models[i]? = some m) : (s.create ⟨k, i⟩).1.IsNew m (s.create ⟨k, i⟩).2 := by
  have hschema := schema_eq hi
  have hentity : (s.create ⟨k, i⟩).1.entity (s.create ⟨k, i⟩).2 = ⟨⟨k, i⟩, m.fields.map freshSlot, none⟩ := by
    rw [create_eq, entity_push, if_pos rfl, hschema]
  refine ⟨?_, by rw [hentity]⟩
  rw [schemaOf, model, hentity]
  exact hschema

/-- In a registry that was resolved, the names in elastic fields are there. Of a new entity, a field can be read, in
however many steps, exactly if its model says so, and the entity can be compiled exactly if its model is legible. -/
theorem compile_new {decls : List ModelDecl} (hr : Registry.ofDecls decls = .ok (s.registry k))
    (hi : (s.registry k).models[i]? = some m) :
    (∀ field ∈ m.fields, ∀ size items, field.kind = .elastic size items →
      (∃ j, m.fieldIndex? size = some j) ∧ ∃ c, m.fieldIndex? items = some c) ∧
    (∀ (index : Nat) field, m.fields[index]? = some field →
      ((∃ fuel v, (s.create ⟨k, i⟩).1.readWithin (s.create ⟨k, i⟩).2 fuel index = .ok v) ↔ m.Reads index)) ∧
    ∀ c : Compiler, (∃ tree, c.compile (s.create ⟨k, i⟩).1 (s.create ⟨k, i⟩).2 = .ok tree) ↔ m.Legible := by
  have hnew := isNew_create hi
  have hm := Registry.targeted hr (List.mem_of_getElem? hi)
  refine ⟨Registry.siblings_declared hr hi, fun index field hf => ?_, fun c => hnew.compile_ok_iff hm c⟩
  constructor
  · rintro ⟨fuel, v, hv⟩
    exact hnew.reads_of_readWithin hm hf hv
  · intro hreads
    exact ⟨_, (hnew.read_ok_iff hm hf).mpr hreads⟩

def boardDecls : List ModelDecl := ModelDecl.number [
  { name := "Board"
    fields := [("columns", .fixedSize 2), ("rows", .elastic "columns" "cells"), ("cells", .set "Cell")]
    arrangement := some (.grid "cells" "columns" "x" "y") },
  { name := "Cell", fields := [("x", .plain), ("y", .plain)] }]

def boardRegistry : Registry := ⟨(Registry.resolveInOrder boardDecls 0 boardDecls).toOption.getD []⟩

theorem boardRegistry_eq : Registry.ofDecls boardDecls = .ok boardRegistry :=
  Registry.ofDecls_eq (by decide) (by decide) (by decide)

theorem board_legible : Registry.ofDecls boardDecls = .ok boardRegistry ∧
    ∃ m, boardRegistry.models[0]? = some m ∧ m.Reads 1 ∧ m.Legible := by
  refine ⟨boardRegistry_eq, _, rfl, ?_⟩
  obtain ⟨_, hreads, hcompile⟩ := compile_new (s := .ofRegistries [boardRegistry]) (k := 0) (i := 0) boardRegistry_eq rfl
  have hok : failureOf ((Compiler.standard ⟨2024, 1, 1, 0, 0, 0, 0⟩).compile
    ((Store.ofRegistries [boardRegistry]).create ⟨0, 0⟩).1 ⟨0⟩) = none := rfl
  exact ⟨(hreads 1 _ rfl).mp ⟨1, some (.int 1), rfl⟩, (hcompile _).mp (exists_ok_iff.mpr hok)⟩

/-- A panel of panels, arranged in as many columns as a field says that is not there. -/
def panelDecls : List ModelDecl := ModelDecl.number [
  { name := "Panel"
    fields := [("cells", .set "Panel")]
    arrangement := some (.grid "cells" "columns" "x" "y") }]

def panelRegistry : Registry := ⟨(Registry.resolveInOrder panelDecls 0 panelDecls).toOption.getD []⟩

def panel : Store × EntityId := (Store.ofRegistries [panelRegistry]).create ⟨0, 0⟩

/-- Declarations can resolve although no new entity can be compiled. -/
theorem panel_unknown : Registry.ofDecls panelDecls = .ok panelRegistry ∧
    (∀ m ∈ panelRegistry.models, ∀ field ∈ m.fields, ∀ model appendHost, field.kind ≠ .reference model appendHost) ∧
    ∀ c : Compiler, c.compile panel.1 panel.2 = .error (.unknownField "Panel" "columns") := by
  refine ⟨Registry.ofDecls_eq (by decide) (by decide) (by decide), ?_, fun c => rfl⟩
  have hmodels : panelRegistry.models.flatMap (·.fields.map (·.kind)) = [.set "Panel" false none] := by decide
  intro m hm field hf model appendHost
  have hk : field.kind ∈ panelRegistry.models.flatMap (·.fields.map (·.kind)) :=
    List.mem_flatMap.mpr ⟨m, hm, List.mem_map_of_mem hf⟩
  rw [hmodels, List.mem_singleton] at hk
  rw [hk]
  nofun

end Store

end MonitorExport
