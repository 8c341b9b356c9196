import MonitorExport.Proofs.Export.Mapping
import MonitorExport.Proofs.Store.Reading
import MonitorExport.Proofs.Store.Walks

/-!
# Sizes that settle

The rows of an elastic field are counted from the width that another field gives, and that one may be
elastic too. If no model has a circle of such fields, then reading a field comes to an end, and so does
compiling: neither tells of circular sizes.
-/

namespace MonitorExport

/-- The field by which the rows of a field are counted. -/
def ModelSchema.sizeField? (m : ModelSchema) (index : Nat) : Option Nat :=
  match m.fields[index]? with
  | some field =>
    match field.kind with
    | .elastic size _ => m.fieldIndex? size
    | _ => none
  | none => none

/-- Whether no model has a circle of fields by which rows are counted. -/
def Store.SizesFinish (s : Store) : Prop := ∀ m index, Finishes (s.schema m).sizeField? index

/-- Whether a failure does not tell of circular sizes. -/
def ConfigError.IsSettled (err : ConfigError) : Prop := ∀ model field, err ≠ .circularSize model field

/-- Whether a result does not tell of circular sizes. -/
abbrev Settled {α : Type} : Except ConfigError α → Prop := Yields (fun _ => True) ConfigError.IsSettled

namespace Settled

variable {α β : Type}

theorem ok (a : α) : Settled (.ok a : Except ConfigError α) := trivial

theorem error {err : ConfigError} (h : err.IsSettled) : Settled (.error err : Except ConfigError α) := h

theorem bind {r : Except ConfigError α} {f : α → Except ConfigError β} (h : Settled r) (hf : ∀ a, Settled (f a)) :
    Settled (r >>= f) :=
  Yields.bind h fun a _ => hf a

theorem map {r : Except ConfigError α} {f : α → β} (h : Settled r) : Settled (r.map f) :=
  Yields.map h fun _ _ => trivial

theorem ne_circular {r : Except ConfigError α} (h : Settled r) (model field : String) :
    r ≠ .error (.circularSize model field) := by
  rintro rfl
  exact h model field rfl

end Settled

namespace Store

variable {s : Store} {e : EntityId} {index fuel : Nat} {l : List Nat}

/-! ## Reading -/

theorem settled_fieldIndex (field : String) : Settled (s.fieldIndex e field) := by
  unfold fieldIndex
  split
  · exact .ok _
  · exact .error nofun

theorem settled_stored : Settled (s.stored e index) := by
  unfold stored
  split
  · exact .ok _
  · exact .error nofun

theorem settled_collection (field : String) : Settled (s.collection e field) := by
  unfold collection
  refine (settled_fieldIndex field).bind fun i => ?_
  cases s.slot e i with
  | members _ => exact .ok _
  | scalar _ => exact .error nofun
  | binding _ => exact .error nofun

theorem sizeField?_of_kind {size items : String} (h : s.kind e index = .elastic size items) :
    (s.schemaOf e).sizeField? index = (s.schemaOf e).fieldIndex? size := by
  unfold kind field? at h
  unfold ModelSchema.sizeField?
  cases hf : (s.schemaOf e).fields[index]? with
  | none => simp [hf] at h
  | some field =>
      rw [hf, Option.map_some, Option.getD_some] at h
      simp only [h]

/-- Reading settles if there is a step for each field of the chain of sizes. -/
theorem readWithin_settled (h : Chain (s.schemaOf e).sizeField? index l) (hf : l.length ≤ fuel) :
    Settled (s.readWithin e fuel index) := by
  induction h generalizing fuel with
  | @last i h =>
      unfold readWithin
      refine settled_stored.bind fun stored => ?_
      split
      · next size items hk =>
        rw [sizeField?_of_kind hk] at h
        have hi : s.fieldIndex e size = .error (.unknownField (s.schemaOf e).name size) := by rw [fieldIndex, h]
        split
        · exact .ok _
        · refine (settled_collection items).bind fun c => ?_
          have hsize : Settled (s.fieldIndex e size) := settled_fieldIndex size
          rw [hi] at hsize ⊢
          exact hsize
      · exact .ok _
  | @step i j l h _ ih =>
      unfold readWithin
      refine settled_stored.bind fun stored => ?_
      split
      · split
        · exact .ok _
        · next size items hk _ =>
          rw [sizeField?_of_kind hk] at h
          have hi : s.fieldIndex e size = .ok j := by rw [fieldIndex, h]
          refine (settled_collection items).bind fun c => ?_
          rw [hi]
          cases fuel with
          | zero => simp at hf
          | succ fuel => exact (ih (by simpa using hf)).bind fun width => .ok _
      · exact .ok _

theorem sizeField?_lt {m : ModelSchema} {j : Nat} (h : m.sizeField? index = some j) : j < m.fields.length := by
  unfold ModelSchema.sizeField? at h
  split at h
  · split at h
    · exact ModelSchema.fieldIndex?_lt h
    · cases h
  · cases h

theorem read_settled (hz : s.SizesFinish) : Settled (s.read e index) := by
  obtain ⟨l, hl⟩ := (hz (s.model e) index).chain
  have hlt := hl.forall_mem fun _ _ => sizeField?_lt
  exact readWithin_settled hl (length_le_of_nodup Function.injective_id hl.nodup hlt)

theorem get_settled (hz : s.SizesFinish) (field : String) : Settled (s.get e field) :=
  (settled_fieldIndex field).bind fun _ => read_settled hz

/-! ## References -/

theorem withHost_settled (hz : s.SizesFinish) (identity : Identity) (host : Option EntityId) :
    Settled (s.withHost identity host) := by
  cases host with
  | none => exact .ok _
  | some host =>
      refine (get_settled hz hostNameField).bind fun v => ?_
      split <;> exact .ok _

theorem identity_settled (hz : s.SizesFinish) : Settled (s.identity e) := by
  unfold identity
  dsimp only
  split
  · exact .error nofun
  · refine (get_settled hz _).bind fun v => ?_
    split
    · exact .error nofun
    · exact withHost_settled hz _ _

theorem resolve_settled (hz : s.SizesFinish) : Settled (s.resolve e index) := by
  have hdone : ∀ identity : Identity, Settled (if s.appendsHost e index && !identity.contains "host" then
      s.withHost identity (s.stampingHost e) else .ok identity) := fun identity => by
    split
    · exact withHost_settled hz _ _
    · exact .ok _
  unfold resolve
  split
  · exact (identity_settled hz).bind hdone
  · exact hdone _
  · exact .error nofun

theorem readDrawing_settled (hz : s.SizesFinish) (palette : Palette) :
    Settled (s.readDrawing e index palette) := by
  unfold readDrawing
  split
  · exact .ok _
  · exact (read_settled hz).map

end Store

/-! ## Compiling -/

theorem Mapping.law_settled {s : Store} (hz : s.SizesFinish) : Law s (fun _ => True) ConfigError.IsSettled where
  scalar e index overrides := by
    unfold scalarNodes
    dsimp only
    split
    · exact .pure fun _ _ => trivial
    · have hread : YieldsDrawing (fun _ => True) ConfigError.IsSettled fun palette => s.readDrawing e index palette :=
        fun palette => Store.readDrawing_settled hz palette
      exact hread.bind fun _ _ => .pure fun _ _ => trivial
  reference e index := (Store.resolve_settled hz).map
  width e a := by
    cases a with
    | sequence => trivial
    | grid => exact (Store.get_settled hz _).map
  element _ _ _ := trivial

namespace Compiler

variable {s : Store}

theorem compile_settled (hz : s.SizesFinish) (c : Compiler) (e : EntityId) : Settled (c.compile s e) := by
  have hnodes := Mapping.entityNodes_yields (Mapping.law_settled hz) [] (s.subtree e) c.palette.reset
  have hroot : Settled (c.mapRoot s e) := by
    refine hnodes.bind fun nodes _ => ?_
    dsimp only
    split <;> trivial
  exact hroot.map

end Compiler

namespace Store

variable {s : Store}

/-! ## Programs that do not graft -/

/-- In every store that a program reaches which never gives another owner to what it works on, nor to an entity above
that: following owners ends, so that no entity owns itself; the walks outwards and inwards meet all owners and
all that is owned; and where no sizes are circular, reading and compiling come to an end. -/
theorem reachable_forest {h : Handles} (hr : ReachesBy (fun s h op => ¬ op.Grafts s (op.stepHolding h s).2) s h) :
    s.Forest ∧ (∀ e, ¬ After s.owner e e) ∧
      (∀ e, ∃ l, Chain s.owner e l ∧ s.ancestors e = (l.takeWhile fun o => !s.isDocument o) ∧
        s.documentHost e = (l.takeWhile fun o => !s.isDocument o).find? fun a =>
          ((s.owner a).map s.isDocument).getD false) ∧
      (∀ e, (s.subtree e).Whole s ∧ ∀ x, x ∈ (s.subtree e).preorder ↔ s.AtOrAbove x e) ∧
      (s.SizesFinish → ∀ e model field, (∀ name, s.get e name ≠ .error (.circularSize model field)) ∧
        ∀ c : Compiler, c.compile s e ≠ .error (.circularSize model field)) := by
  have hs := hr.linked
  have hf := forest_of_reaches hr
  refine ⟨hf, fun e => (hf e).not_after, fun e => ?_, fun e => ⟨subtree_whole hs hf e, mem_preorder hs hf e⟩, ?_⟩
  · obtain ⟨l, hl⟩ := (hf e).chain
    have hancestors := ancestors_eq hs hl
    exact ⟨l, hl, hancestors, by rw [documentHost, hancestors]⟩
  · exact fun hz e model field => ⟨fun name => (get_settled hz name).ne_circular model field,
      fun c => (c.compile_settled hz e).ne_circular model field⟩

def pair : Store := ((addNode 0 1).step twoNodes).2

theorem addNode_twoNodes_not_grafts : ¬ (addNode 0 1).Grafts twoNodes pair := by
  have hgrafts := Operation.not_grafts (h := .all) twoNodes_reachable.linked twoNodes_reachable.namesGiven
    (addNode_valid (n := 0) (m := 1) rfl (by decide)) fun t r ht hup hn => by
      cases ht
      cases hn
      -- the first node has no owner, so nothing else is above it
      rcases hup.cases_head with h | ⟨o, ho, _⟩
      · cases h
      · cases ho
  rwa [Operation.stepHolding_all] at hgrafts

theorem pair_reaches : ReachesBy (fun s h op => ¬ op.Grafts s (op.stepHolding h s).2) pair .all :=
  reaches_of_ungrafted (.step (.step (.step (.start nodeRegistry_namesGiven) makeNode_valid
    (Operation.not_grafts_of_subject? rfl)) makeNode_valid (Operation.not_grafts_of_subject? rfl))
    (addNode_valid rfl (by decide)) addNode_twoNodes_not_grafts)

theorem pair_forest : pair.Forest ∧ (pair.subtree ⟨0⟩).Whole pair ∧ ¬ After pair.owner ⟨1⟩ ⟨1⟩ := by
  obtain ⟨hf, hafter, _, htree, _⟩ := reachable_forest pair_reaches
  exact ⟨hf, (htree ⟨0⟩).1, hafter ⟨1⟩⟩

/-- A store with two nodes, each of which holds the other. -/
def ring : Store := ((addNode 1 0).step pair).2

theorem ring_reachable : Reachable ring :=
  .step (.step twoNodes_reachable (addNode_valid rfl (by decide)) trivial) (addNode_valid rfl (by decide)) trivial

theorem ring_not_forest : ¬ ring.Forest := fun hf =>
  (hf ⟨0⟩).not_after (.tail (b := ⟨1⟩) (.single rfl) rfl)

/-- A registry of one model with a field whose rows are counted in rows of that field itself. -/
def sheetRegistry : Registry where
  models := [{ ModelSchema.blank with
    name := "Sheet"
    fields := [⟨"Rows", 0, .elastic "Rows" "Cells", none, none, [], none, []⟩,
      ⟨"Cells", 1, .set "Sheet" false none, some 0, none, [], none, []⟩]
    lineage := [0] }]

def oneSheet : Store := (makeNode.step (.ofRegistries [sheetRegistry])).2

theorem oneSheet_reaches : ReachesBy (fun s h op => ¬ op.Grafts s (op.stepHolding h s).2) oneSheet .all :=
  reaches_of_ungrafted (.step (.start (by simp [sheetRegistry, Registry.NamesGiven, ModelSchema.blank])) makeNode_valid
    (Operation.not_grafts_of_subject? rfl))

theorem readWithin_oneSheet (fuel : Nat) : oneSheet.readWithin ⟨0⟩ fuel 0 = .error (.circularSize "Sheet" "Rows") := by
  induction fuel with
  | zero => rfl
  | succ fuel ih =>
      unfold readWithin
      -- the size of the field is the field itself, read with less fuel
      show (oneSheet.readWithin ⟨0⟩ fuel 0 >>= _) = _
      rw [ih]
      rfl

/-- A program can make owners circular, and where they are not, sizes can still be. -/
theorem not_forest_of_reachable :
    (¬ ∀ s h, Reaches s h → s.Forest) ∧ ∃ s h e index, Reaches s h ∧ s.Forest ∧
      ∀ fuel, ∃ model field, s.readWithin e fuel index = .error (.circularSize model field) := by
  refine ⟨fun hall => ?_, oneSheet, .all, ⟨0⟩, 0, ?_, ?_, fun fuel => ?_⟩
  · exact ring_not_forest (hall ring .all (ring_reachable.reaches fun _ _ _ => trivial))
  · exact oneSheet_reaches.mono fun _ _ _ _ => trivial
  · exact forest_of_reaches oneSheet_reaches
  · exact ⟨"Sheet", "Rows", readWithin_oneSheet fuel⟩

end Store

end MonitorExport
