import MonitorExport.Export.Compiler
import MonitorExport.Proofs.Store.Recasting

/-!
# Mapping an entity of another model

An entity that stands apart maps to the same elements when its model is replaced by one that works alike, or both
mappings fail, with failures that differ at most in the name of the model. The two models must agree on whether they are
documents: references are completed by what stands between their owners and a document.
-/

namespace MonitorExport

open ConfigError (unnamed)

namespace Store

variable {w s : Store} {m₀ m : ModelId} {x : EntityId}

/-! ## Reading fields -/

section Reading

variable (hk : (w.schema m₀).Akin (w.schema m)) (h : Apart w m₀ x s)

include hk h

theorem wrongKind_retype (e : EntityId) (i : Nat) (wanted : String) :
    unnamed ((s.retype x m).wrongKind e i wanted) = unnamed (s.wrongKind e i wanted) := by
  unfold wrongKind
  dsimp only
  rw [fieldName_retype hk h, kind_retype hk h]
  exact told_invalidValue (fun _ => rfl) _ _

theorem stored_retype (e : EntityId) (i : Nat) :
    ((s.retype x m).stored e i).mapError unnamed = (s.stored e i).mapError unnamed := by
  unfold stored
  rw [slot_retype]
  cases s.slot e i with
  | scalar v => rfl
  | members es => exact congrArg Except.error (wrongKind_retype hk h e i _)
  | binding b => exact congrArg Except.error (wrongKind_retype hk h e i _)

theorem collection_retype (e : EntityId) (field : String) :
    ((s.retype x m).collection e field).mapError unnamed = (s.collection e field).mapError unnamed := by
  unfold collection
  refine Except.mapError_bind_congr (fieldIndex_retype hk h (fun _ => rfl) field) fun i => ?_
  rw [slot_retype]
  cases s.slot e i with
  | members es => rfl
  | scalar v => exact congrArg Except.error (wrongKind_retype hk h e i _)
  | binding b => exact congrArg Except.error (wrongKind_retype hk h e i _)

theorem readWithin_retype (e : EntityId) (fuel i : Nat) :
    ((s.retype x m).readWithin e fuel i).mapError unnamed = (s.readWithin e fuel i).mapError unnamed := by
  induction fuel generalizing i with
  | zero =>
      unfold readWithin
      refine Except.mapError_bind_congr (stored_retype hk h e i) fun stored => ?_
      rw [kind_retype hk h, fieldName_retype hk h]
      split
      · split
        · rfl
        · exact Except.mapError_bind_congr (collection_retype hk h e _) fun c =>
            Except.mapError_bind_congr (fieldIndex_retype hk h (fun _ => rfl) _) fun _ => rfl
      · rfl
  | succ fuel ih =>
      unfold readWithin
      refine Except.mapError_bind_congr (stored_retype hk h e i) fun stored => ?_
      rw [kind_retype hk h]
      split
      · split
        · rfl
        · refine Except.mapError_bind_congr (collection_retype hk h e _) fun c =>
            Except.mapError_bind_congr (fieldIndex_retype hk h (fun _ => rfl) _) fun size =>
              Except.mapError_bind_congr (ih size) fun width => ?_
          rw [members_retype]
      · rfl

theorem read_retype (e : EntityId) (i : Nat) :
    ((s.retype x m).read e i).mapError unnamed = (s.read e i).mapError unnamed := by
  rw [read, (schemaOf_retype_akin hk h e).fields]
  exact readWithin_retype hk h e _ i

theorem get_retype (e : EntityId) (field : String) :
    ((s.retype x m).get e field).mapError unnamed = (s.get e field).mapError unnamed :=
  Except.mapError_bind_congr (fieldIndex_retype hk h (fun _ => rfl) field) (read_retype hk h e)

theorem readDrawing_retype (e : EntityId) (i : Nat) (palette : Palette) :
    ((s.retype x m).readDrawing e i palette).mapError unnamed = (s.readDrawing e i palette).mapError unnamed := by
  unfold readDrawing
  rw [kind_retype hk h, slot_retype]
  split
  · rfl
  · exact Except.mapError_map_congr (read_retype hk h e i) _

/-! ## Resolving references -/

variable (hdoc : (w.schema m).document = (w.schema m₀).document)

include hdoc

omit hk in
theorem isDocument_retype (e : EntityId) : (s.retype x m).isDocument e = s.isDocument e := by
  by_cases he : e = x
  · subst he
    rw [isDocument, isDocument, h.schemaOf, h.schemaOf_retype, hdoc]
  · exact (resembles_retype he).isDocument rfl

omit hk in
theorem ancestors_retype (e : EntityId) : (s.retype x m).ancestors e = s.ancestors e := by
  have hwithin : ∀ fuel e, (s.retype x m).ancestorsWithin fuel e = s.ancestorsWithin fuel e := fun fuel => by
    induction fuel with
    | zero => exact fun _ => rfl
    | succ fuel ih => simp only [ancestorsWithin, owner_retype, isDocument_retype h hdoc, ih, implies_true]
  rw [ancestors, size_retype, hwithin, ancestors]

theorem hostScope_retype (e : EntityId) : (s.retype x m).hostScope e = s.hostScope e := by
  unfold hostScope
  simp only [ancestors_retype h hdoc, (schemaOf_retype_akin hk h _).hostScope]

theorem stampingHost_retype (e : EntityId) : (s.retype x m).stampingHost e = s.stampingHost e := by
  have hdocument : (s.retype x m).documentHost e = s.documentHost e := by
    unfold documentHost
    simp only [ancestors_retype h hdoc, owner_retype, funext (isDocument_retype h hdoc)]
  rw [stampingHost, hdocument, hostScope_retype hk h hdoc, stampingHost]

omit hdoc in
theorem withHost_retype (identity : Identity) (host : Option EntityId) :
    ((s.retype x m).withHost identity host).mapError unnamed = (s.withHost identity host).mapError unnamed := by
  cases host with
  | none => rfl
  | some host => exact Except.mapError_bind_congr (get_retype hk h host _) fun _ => rfl

theorem identity_retype (e : EntityId) :
    ((s.retype x m).identity e).mapError unnamed = (s.identity e).mapError unnamed := by
  unfold identity
  dsimp only
  rw [(schemaOf_retype_akin hk h e).reference, hostScope_retype hk h hdoc]
  cases (s.schemaOf e).reference with
  | none => rfl
  | some shape =>
      refine Except.mapError_bind_congr (get_retype hk h e _) fun v => ?_
      cases v with
      | none => rfl
      | some v => exact withHost_retype hk h _ _

theorem resolve_retype (e : EntityId) (i : Nat) :
    ((s.retype x m).resolve e i).mapError unnamed = (s.resolve e i).mapError unnamed := by
  have happends : (s.retype x m).appendsHost e i = s.appendsHost e i := by
    rw [appendsHost, kind_retype hk h, appendsHost]
  unfold resolve
  rw [binding_retype, happends, stampingHost_retype hk h hdoc, fieldName_retype hk h]
  have hstamped : ∀ identity : Identity, (if (s.appendsHost e i && !identity.contains "host") = true then
      (s.retype x m).withHost identity (s.stampingHost e) else pure identity).mapError unnamed =
        (if (s.appendsHost e i && !identity.contains "host") = true then s.withHost identity (s.stampingHost e)
          else pure identity).mapError unnamed := fun identity => by
    split
    · exact withHost_retype hk h _ _
    · rfl
  cases s.binding e i with
  | entity target => exact Except.mapError_bind_congr (identity_retype hk h hdoc target) hstamped
  | literal identity => exact Except.mapError_bind_congr rfl hstamped
  | unbound => rfl

end Reading

end Store

namespace Mapping

open Store Subtree

variable {α β : Type} {d d' : Drawing α} {w s : Store} {m₀ m : ModelId} {x : EntityId}

/-- Whether two steps of a mapping give the same, or fail alike but for the names of models. -/
def TellsAlike (d' d : Drawing α) : Prop := ∀ palette, (d' palette).mapError unnamed = (d palette).mapError unnamed

namespace TellsAlike

theorem refl (d : Drawing α) : TellsAlike d d := fun _ => rfl

theorem bind {k k' : α → Drawing β} (h : TellsAlike d' d) (hk : ∀ a, TellsAlike (k' a) (k a)) :
    TellsAlike (d' >>= k') (d >>= k) := fun palette =>
  Except.mapError_bind_congr (h palette) fun p => hk p.1 p.2

theorem map (h : TellsAlike d' d) (f : α → β) : TellsAlike (f <$> d') (f <$> d) := by
  rw [map_eq_pure_bind, map_eq_pure_bind]
  exact h.bind fun _ => .refl _

theorem lift {r r' : Except ConfigError α} (h : r'.mapError unnamed = r.mapError unnamed) :
    TellsAlike (liftM r' : Drawing α) (liftM r) := fun _ =>
  Except.mapError_bind_congr h fun _ => rfl

end TellsAlike

section Akin

variable (hk : (w.schema m₀).Akin (w.schema m)) (h : Apart w m₀ x s)

include hk h

theorem memberTag?_retype (e : EntityId) (i : Nat) : memberTag? (s.retype x m) e i = memberTag? s e i := by
  rw [memberTag?, kind_retype hk h, memberTag?]

theorem collectionNodes_retype (e : EntityId) (i : Nat) :
    collectionNodes (s.retype x m) e i = collectionNodes s e i := funext fun ms => by
  rw [collectionNodes, allowsEmpty, kind_retype hk h, fieldName_retype hk h, collectionNodes, allowsEmpty]

theorem arrangementWidth_retype (e : EntityId) (a : Arrangement) :
    (arrangementWidth (s.retype x m) e a).mapError unnamed = (arrangementWidth s e a).mapError unnamed := by
  cases a with
  | sequence items position => rfl
  | grid items columns px py => exact Except.mapError_map_congr (get_retype hk h e columns) _

theorem arrangedIndex?_retype (e : EntityId) :
    arrangedIndex? ((s.retype x m).schemaOf e) = arrangedIndex? (s.schemaOf e) := by
  have hakin := schemaOf_retype_akin hk h e
  simp only [arrangedIndex?, ModelSchema.fieldIndex?, hakin.arrangement, hakin.fields]

theorem scalarNodes_retype (e : EntityId) (i : Nat) (overrides : Overrides) :
    TellsAlike (scalarNodes (s.retype x m) e i overrides) (scalarNodes s e i overrides) := by
  unfold scalarNodes
  dsimp only
  rw [fieldName_retype hk h]
  split
  · exact .refl _
  · exact TellsAlike.bind (fun palette => readDrawing_retype hk h e i palette) fun _ => .refl _

variable (hdoc : (w.schema m).document = (w.schema m₀).document)

include hdoc

theorem slotNodes_retype (e : EntityId) (i : Nat) (overrides : Overrides) {ms ms' : Drawing (List Node)}
    (hms : TellsAlike ms' ms) : TellsAlike (slotNodes (s.retype x m) e i overrides ms') (slotNodes s e i overrides ms) := by
  unfold slotNodes
  rw [slot_retype, collectionNodes_retype hk h]
  cases s.slot e i with
  | scalar v => exact scalarNodes_retype hk h e i overrides
  | members es => exact hms.map _
  | binding b =>
      refine TellsAlike.map (.lift ?_) _
      unfold referenceNode
      rw [fieldName_retype hk h]
      exact Except.mapError_map_congr (resolve_retype hk h hdoc e i) _

end Akin

mutual

/-- A tree is mapped alike, whichever of two models that work alike an entity has that stands apart. -/
theorem entityNodes_retype (hk : (w.schema m₀).Akin (w.schema m)) (h : Apart w m₀ x s)
    (hdoc : (w.schema m).document = (w.schema m₀).document) (overrides : Overrides) : (T : Subtree) →
    TellsAlike (entityNodes (s.retype x m) overrides T) (entityNodes s overrides T)
  | .node e bs => by
      have hfields := fieldNodes_retype hk h hdoc e overrides (arrangedIndex? (s.schemaOf e)) 0 bs
      unfold entityNodes
      dsimp only
      rw [arrangedIndex?_retype hk h, (schemaOf_retype_akin hk h e).arrangement]
      refine hfields.bind fun nodes => ?_
      split
      · next index a _ _ =>
        -- a width that cannot be read may be told of the entity itself, so the names of models are left out
        rw [slot_retype, memberTag?_retype hk h, collectionNodes_retype hk h]
        split
        · exact (TellsAlike.lift (arrangementWidth_retype hk h e a)).bind fun width =>
            (branchNodes_retype hk h hdoc _ _ index bs).bind fun _ => .refl _
        · exact .refl _
      · exact .refl _
termination_by structural T => T

theorem fieldNodes_retype (hk : (w.schema m₀).Akin (w.schema m)) (h : Apart w m₀ x s)
    (hdoc : (w.schema m).document = (w.schema m₀).document) (e : EntityId) (overrides : Overrides)
    (arranged : Option Nat) (index : Nat) : (bs : List (List Subtree)) →
    TellsAlike (fieldNodes (s.retype x m) e overrides arranged index bs) (fieldNodes s e overrides arranged index bs)
  | [] => .refl _
  | ts :: bs => by
      have hmembers := memberNodes_retype hk h hdoc (memberTag? s e index) (fun _ => []) 0 ts
      have hrest := fieldNodes_retype hk h hdoc e overrides arranged (index + 1) bs
      unfold fieldNodes
      rw [memberTag?_retype hk h]
      split
      · exact (TellsAlike.refl _).bind fun here => hrest.bind fun _ => .refl _
      · exact (slotNodes_retype hk h hdoc e index overrides hmembers).bind fun here => hrest.bind fun _ => .refl _
termination_by structural bs => bs

theorem branchNodes_retype (hk : (w.schema m₀).Akin (w.schema m)) (h : Apart w m₀ x s)
    (hdoc : (w.schema m).document = (w.schema m₀).document) (tag : Option String) (overrides : Nat → Overrides) :
    (index : Nat) → (bs : List (List Subtree)) →
    TellsAlike (branchNodes (s.retype x m) tag overrides index bs) (branchNodes s tag overrides index bs)
  | 0, [] => .refl _
  | _ + 1, [] => .refl _
  | 0, ts :: _ => memberNodes_retype hk h hdoc tag overrides 0 ts
  | index + 1, _ :: bs => branchNodes_retype hk h hdoc tag overrides index bs
termination_by structural _ bs => bs

theorem memberNodes_retype (hk : (w.schema m₀).Akin (w.schema m)) (h : Apart w m₀ x s)
    (hdoc : (w.schema m).document = (w.schema m₀).document) (tag : Option String) (overrides : Nat → Overrides)
    (k : Nat) : (ts : List Subtree) →
    TellsAlike (memberNodes (s.retype x m) tag overrides k ts) (memberNodes s tag overrides k ts)
  | [] => .refl _
  | T :: ts => by
      have hrest := memberNodes_retype hk h hdoc tag overrides (k + 1) ts
      unfold memberNodes
      rw [(schemaOf_retype_akin hk h _).tag]
      exact (entityNodes_retype hk h hdoc (overrides k) T).bind fun _ => hrest.bind fun _ => .refl _
termination_by structural ts => ts

end

end Mapping

/-- An entity that stands apart compiles alike if its model is replaced by one that works alike, and that is a document
if the other one is. -/
theorem Compiler.compile_retype {w s : Store} {m₀ m : ModelId} {x : EntityId} (hk : (w.schema m₀).Akin (w.schema m))
    (h : Store.Apart w m₀ x s) (hdoc : (w.schema m).document = (w.schema m₀).document) (c : Compiler) (e : EntityId) :
    (c.compile (s.retype x m) e).mapError unnamed = (c.compile s e).mapError unnamed := by
  have hmap : (c.mapRoot (s.retype x m) e).mapError unnamed = (c.mapRoot s e).mapError unnamed := by
    unfold mapRoot
    rw [Store.subtree_retype, Store.isDocument_retype h hdoc, (Store.schemaOf_retype_akin hk h e).tag]
    exact Except.mapError_bind_congr (Mapping.entityNodes_retype hk h hdoc [] _ c.palette.reset) fun _ => rfl
  unfold compile
  rw [Store.isDocument_retype h hdoc]
  exact Except.mapError_map_congr hmap _

end MonitorExport
