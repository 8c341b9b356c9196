import MonitorExport.Proofs.Store.Effects

/-!
# Operations and reachable stores

All operations of a program on entities, collections and references as one type, so that a run of a
program is any sequence of them, each with what it may be given at that point. They may fail: the run goes
on from the store that the failure leaves.
-/

namespace MonitorExport

/-- An operation with what it is given. -/
inductive Operation
  | instantiate (registry : Nat) (model : String)
  | build (m : ModelId) (positional : Input) (fields : Fields)
  | assign (e : EntityId) (field : String) (input : Input)
  | update (e : EntityId) (fields : Fields)
  | add (c : CollectionId) (input : Input)
  | addNew (c : CollectionId) (positional : Input) (fields : Fields)
  | extend (c : CollectionId) (inputs : List Input)
  | discard (c : CollectionId) (input : Input)
  | clear (c : CollectionId)
  | duplicate (e : EntityId)
  | bind (e : EntityId) (index : Nat) (input : Input)

namespace Operation

open Edit

/-- What an operation does to a store, and the entities that it returns. -/
def step : Operation → Edit (List EntityId)
  | .instantiate registry model => do return [← Store.instantiate registry model]
  | .build m positional fields => do return [← Store.build m positional fields]
  | .assign e field input => do
    Store.assign e field input
    return []
  | .update e fields => do
    Store.update e fields
    return []
  | .add c input => do return [← Store.add c input]
  | .addNew c positional fields => do return [← Store.addNew c positional fields]
  | .extend c inputs => Store.extend c inputs
  | .discard c input => do
    let _ ← Store.discard c input
    return []
  | .clear c => do
    Edit.apply fun s => s.clear c
    return []
  | .duplicate e => do return [← Edit.ofChange fun s => s.duplicate e]
  | .bind e index input => do
    Store.bind e index input
    return []

/-- Whether the inputs of an operation name an entity. -/
def Names (x : EntityId) : Operation → Prop
  | .build _ positional fields | .addNew _ positional fields => positional.Names x ∨ NamedIn fields x
  | .assign _ _ input | .add _ input | .discard _ input | .bind _ _ input => input.Names x
  | .update _ fields => NamedIn fields x
  | .extend _ inputs => ∃ i ∈ inputs, i.Names x
  | .instantiate .. | .clear _ | .duplicate _ => False

/-- The entity that an operation works on: its own fields, collections or references are changed. -/
def subject? : Operation → Option EntityId
  | .assign e _ _ | .update e _ | .bind e _ _ => some e
  | .add c _ | .addNew c _ _ | .extend c _ | .discard c _ | .clear c => some c.owner
  | .instantiate .. | .build .. | .duplicate _ => none

/-- The collection to which an operation adds the entities that it returns. -/
def adds? : Operation → Option CollectionId
  | .add c _ | .addNew c _ _ | .extend c _ => some c
  | _ => none

/-- The slots that an operation is for. -/
def Targets (s : Store) (d : CollectionId) : Operation → Prop
  | .assign e field _ => d.owner = e ∧ s.fieldIndex e field = .ok d.field
  | .update e fields => d.owner = e ∧ ∃ key ∈ fields.keys, s.fieldIndex e key = .ok d.field
  | .add c _ | .addNew c _ _ | .extend c _ | .discard c _ | .clear c => d = c
  | .bind e index _ => d = ⟨e, index⟩
  | .instantiate .. | .build .. | .duplicate _ => False

/-- Whether the entity, collection or reference that an operation works on is there. -/
def Handle (s : Store) : Operation → Prop
  | .assign e _ _ | .update e _ | .duplicate e => s.Has e
  | .add c _ | .addNew c _ _ | .extend c _ | .discard c _ | .clear c => s.IsCollection c
  | .bind e index _ => (s.slot e index).emptied = .binding .unbound
  | .instantiate .. | .build .. => True

/-- Whether a program can ask for an operation: all that it is given is there. -/
structure Valid (s : Store) (op : Operation) : Prop where
  handle : op.Handle s
  names : ∀ x, op.Names x → s.Has x

/-- An entity can be built anywhere if all that its fields name is there. -/
theorem build_valid {s : Store} {m : ModelId} {fields : Fields} (h : ∀ x, NamedIn fields x → s.Has x) :
    (Operation.build m .null fields).Valid s :=
  ⟨trivial, fun x hx => hx.elim nofun (h x)⟩

/-- The scope of an operation: new entities, the slots that it is for, and the entities that it is given. -/
def scope (op : Operation) (s : Store) : Store.Scope where
  writes c := s.entities.size ≤ c.owner.index ∨ op.Targets s c
  moves e := s.entities.size ≤ e.index ∨ op.Names e
  outer c := op.Targets s c

variable {s t : Store} {op : Operation} {c : CollectionId} {e : EntityId} {i : Nat}

theorem scope_hosts (hv : ∀ x, op.Names x → s.Has x) : (op.scope s).Hosts s fun x => op.Names x :=
  ⟨fun _ => .inl, fun _ => .inl, fun x hx => ⟨hv x hx, .inr hx⟩⟩

theorem scope_opens (h : op.Targets s ⟨e, i⟩) : (op.scope s).Opens s e i := ⟨.inr h, .inl h⟩

theorem scope_takes (h : op.Targets s c) (hc : s.IsCollection c) : Store.Takes (op.scope s) s c :=
  ⟨.inr h, hc, .inl h⟩

theorem subject?_of_targets (h : op.Targets s c) : op.subject? = some c.owner := by
  cases op <;> simp_all [Targets, subject?]

/-- An operation stays in its scope, and what it returns of a collection is there; one that fails leaves
all as it was. -/
theorem step_ends (hs : s.Linked) (hr : s.NamesGiven) (hv : op.Valid s) :
    Ends op.step
      (fun ms t => Store.Run (op.scope s) s t ∧ ∀ c, op.adds? = some c → ∀ m ∈ ms, m ∈ t.members c)
      (Store.Undone (fun x => op.Names x) s) s := by
  have hσ := scope_hosts hv.names
  cases op with
  | instantiate registry model =>
      exact ends_bind (Store.instantiate_ends hσ registry model) fun _ _ _ h => ends_pure ⟨h, nofun⟩
  | build m positional fields =>
      refine ends_bind (Store.build_ends hs hr hv.names fun _ => id) fun _ _ _ h => ends_pure ⟨?_, nofun⟩
      exact h.1.mono hσ.within
  | assign e field input =>
      refine ends_bind (Store.assign_ends hs hr hσ (fun _ => id) hv.handle fun i hi => ?_)
        fun _ _ _ h => ends_pure ⟨h, nofun⟩
      exact scope_opens ⟨rfl, hi⟩
  | update e fields =>
      refine ends_bind (Store.updateTo_ends hs hr hσ (fun _ => id) hv.handle fun key hkey i hi => ?_)
        fun _ _ _ h => ends_pure ⟨h, nofun⟩
      exact scope_opens ⟨rfl, key, hkey, hi⟩
  | add c input =>
      refine ends_bind (Store.addTo_ends hs hr hσ (fun _ => id) (scope_takes rfl hv.handle))
        fun m t _ h => ends_pure ⟨h.1, fun d hd => ?_⟩
      cases hd
      simpa using h.2
  | addNew c positional fields =>
      refine ends_bind (Store.addNew_ends hs hr hσ (fun _ => id) (scope_takes rfl hv.handle))
        fun m t _ h => ends_pure ⟨h.1, fun d hd => ?_⟩
      cases hd
      simpa using h.2
  | extend c inputs =>
      refine (Store.extendTo_ends hs hr hσ (fun i hi x hx => ⟨i, hi, hx⟩) (scope_takes rfl hv.handle)).mono
        (fun ms t h => ⟨h.1, fun d hd => ?_⟩) fun _ h => h
      cases hd
      exact h.2
  | discard c input =>
      exact ends_bind (Store.discard_ends hs hr hσ (fun _ => id) (.inr rfl)) fun _ _ _ h => ends_pure ⟨h, nofun⟩
  | clear c =>
      have hclear : Store.Run (Operation.scope (.clear c) s) s (s.clear c) :=
        Store.clear_run (.inr rfl) hv.handle
      exact ends_bind_apply (ends_pure ⟨hclear, nofun⟩)
  | duplicate e =>
      refine ends_bind_change (ends_pure ⟨?_, nofun⟩)
      exact (Store.duplicate_run hs hv.handle).1.mono
        ⟨fun _ => .inl, fun _ h => .inl (Nat.le_of_lt (Or.resolve_right h id)), fun _ => False.elim⟩
  | bind e index input =>
      have hw : (Operation.scope (.bind e index input) s).writes ⟨e, index⟩ := .inr rfl
      exact ends_bind (Store.bind_ends hv.names hw rfl hv.handle) fun _ _ _ h => ends_pure ⟨h, nofun⟩

/-- Whatever an operation ends with, it stayed in its scope. -/
theorem run_after (hs : s.Linked) (hr : s.NamesGiven) (hv : op.Valid s) :
    Store.Run (op.scope s) s (op.step s).2 := by
  have h : Ends op.step (fun _ => Store.Run (op.scope s) s) (Store.Run (op.scope s) s) s :=
    (step_ends hs hr hv).mono (fun _ _ h => h.1) fun _ h => h.run.mono (scope_hosts hv.names).within
  exact h.after

end Operation

namespace Store

variable {s : Store} {allowed : Store → Operation → Prop}

/-- The stores that a program reaches which asks only for operations that are allowed. -/
inductive ReachableBy (allowed : Store → Operation → Prop) : Store → Prop
  | start {registries : List Registry} (h : ∀ r ∈ registries, r.NamesGiven) :
      ReachableBy allowed (.ofRegistries registries)
  | step {s : Store} {op : Operation} (h : ReachableBy allowed s) (hv : op.Valid s) (ha : allowed s op) :
      ReachableBy allowed (op.step s).2

/-- The stores that a program reaches. -/
abbrev Reachable : Store → Prop := ReachableBy fun _ _ => True

namespace ReachableBy

theorem linked_namesGiven (h : ReachableBy allowed s) : s.Linked ∧ s.NamesGiven := by
  induction h with
  | start h => exact ⟨.ofRegistries _, h⟩
  | step _ hv _ ih =>
      have hrun := Operation.run_after ih.1 ih.2 hv
      exact ⟨hrun.linked ih.1, ih.2.run hrun⟩

theorem mono {more : Store → Operation → Prop} (h : ReachableBy allowed s)
    (hm : ∀ s op, allowed s op → more s op) : ReachableBy more s := by
  induction h with
  | start h => exact .start h
  | step _ hv ha ih => exact .step ih hv (hm _ _ ha)

theorem linked (h : ReachableBy allowed s) : s.Linked := h.linked_namesGiven.1

theorem namesGiven (h : ReachableBy allowed s) : s.NamesGiven := h.linked_namesGiven.2

/-- No operation changes the registries. -/
theorem registries_step (h : ReachableBy allowed s) {op : Operation} (hv : op.Valid s) :
    (op.step s).2.registries = s.registries :=
  (op.run_after h.linked h.namesGiven hv).registries

end ReachableBy

end Store

end MonitorExport
