import MonitorExport.Proofs.Store.Forest
import MonitorExport.Store.Identity

/-!
# Entities that read alike

Two entities, of two stores with the same registries, resemble each other if they are of one model and hold the same
scalars and collections of the same sizes. Whatever is read of one is read of the other. They are twins if they are
also bound to the same.
-/

namespace MonitorExport

/-- A slot without the names of its members. -/
def Slot.outline : Slot → Slot
  | .members es => .members (es.map fun _ => default)
  | slot => slot

/-- A slot without the names of its members and without what it is bound to. -/
def Slot.shape : Slot → Slot
  | .members es => .members (es.map fun _ => default)
  | .binding _ => .binding .unbound
  | slot => slot

namespace Slot

theorem shape_outline (slot : Slot) : slot.outline.shape = slot.shape := by
  cases slot with
  | members es => exact congrArg members (List.map_map ..)
  | scalar => rfl
  | binding => rfl

theorem shape_eq_members {slot : Slot} {es : List EntityId} (h : slot.shape = (Slot.members es).shape) :
    ∃ es', slot = .members es' ∧ es'.length = es.length := by
  cases slot with
  | scalar => cases h
  | binding => cases h
  | members es' =>
      have hlength := congrArg List.length (Slot.members.inj h)
      simp only [List.length_map] at hlength
      exact ⟨es', rfl, hlength⟩

theorem outline_members {es es' : List EntityId} (h : es'.length = es.length) :
    (Slot.members es').outline = (Slot.members es).outline := by
  simp only [outline, List.map_const', h]

end Slot

namespace Store

/-- Whether an entity of a store and one of another are of one model and hold the same, up to the names of
their members and to what they are bound to. -/
structure Resembles (s t : Store) (x y : EntityId) : Prop where
  model : t.model y = s.model x
  slot : ∀ i, (t.slot y i).shape = (s.slot x i).shape

/-- Whether an entity of a store and one of another are of one model and hold the same, up to the names of
their members. -/
structure Twin (s t : Store) (x y : EntityId) : Prop where
  model : t.model y = s.model x
  slot : ∀ i, (t.slot y i).outline = (s.slot x i).outline

/-- Whether an entity holds in a later store what it held. -/
structure Same (s t : Store) (x : EntityId) : Prop where
  model : t.model x = s.model x
  slot : ∀ i, t.slot x i = s.slot x i

variable {s t u : Store} {x y x' y' : EntityId} {i : Nat} {field : String}

theorem Run.same {σ : Scope} (h : Run σ s t) (hx : s.Has x) (hw : ∀ i, ¬ σ.writes ⟨x, i⟩) : Same s t x :=
  ⟨h.model hx, fun i => h.slot hx (hw i)⟩

theorem Run.same_copying (h : Run (.copying s.entities.size) s t) (hx : s.Has x) : Same s t x :=
  h.same hx fun _ hw => Nat.not_le.mpr hx hw

namespace Same

theorem refl (s : Store) (x : EntityId) : Same s s x := ⟨rfl, fun _ => rfl⟩

theorem trans (h : Same s t x) (h' : Same t u x) : Same s u x :=
  ⟨h'.model.trans h.model, fun i => (h'.slot i).trans (h.slot i)⟩

theorem twin (h : Same s t x) : Twin s t x x := ⟨h.model, fun i => congrArg Slot.outline (h.slot i)⟩

theorem members (h : Same s t x) (i : Nat) : t.members ⟨x, i⟩ = s.members ⟨x, i⟩ := by
  rw [members_eq, members_eq, h.slot]

end Same

namespace Resembles

variable (h : Resembles s t x y)

include h

theorem scalar_iff {stored : Option Value} : t.slot y i = .scalar stored ↔ s.slot x i = .scalar stored := by
  have hs := h.slot i
  cases hy : t.slot y i <;> cases hx : s.slot x i <;> simp_all [Slot.shape]

theorem exists_binding {bound : Binding} (hx : s.slot x i = .binding bound) : ∃ bound', t.slot y i = .binding bound' := by
  have hs := h.slot i
  rw [hx] at hs
  cases hy : t.slot y i with
  | binding bound' => exact ⟨bound', rfl⟩
  | scalar v => rw [hy] at hs; cases hs
  | members es => rw [hy] at hs; cases hs

theorem exists_members {es : List EntityId} (hx : s.slot x i = .members es) :
    ∃ es', t.slot y i = .members es' ∧ es'.length = es.length :=
  Slot.shape_eq_members (hx ▸ h.slot i)

theorem length_members (i : Nat) : (t.members ⟨y, i⟩).length = (s.members ⟨x, i⟩).length := by
  rw [members_eq, members_eq]
  cases hx : s.slot x i with
  | scalar v => rw [h.scalar_iff.mpr hx]
  | binding b =>
      obtain ⟨b', hy⟩ := h.exists_binding hx
      rw [hy]
      rfl
  | members es =>
      obtain ⟨es', hy, hlength⟩ := h.exists_members hx
      rw [hy]
      exact hlength

variable (hr : t.registries = s.registries)

include hr

theorem schemaOf : t.schemaOf y = s.schemaOf x := by
  rw [Store.schemaOf, h.model, schema_congr hr]
  rfl

theorem isDocument : t.isDocument y = s.isDocument x := by rw [Store.isDocument, h.schemaOf hr]; rfl

theorem field? (i : Nat) : t.field? y i = s.field? x i := by rw [Store.field?, h.schemaOf hr]; rfl

theorem kind (i : Nat) : t.kind y i = s.kind x i := by rw [Store.kind, h.field? hr]; rfl

theorem fieldName (i : Nat) : t.fieldName y i = s.fieldName x i := by rw [Store.fieldName, h.field? hr]; rfl

theorem fieldIndex (field : String) : t.fieldIndex y field = s.fieldIndex x field := by
  rw [Store.fieldIndex, h.schemaOf hr]
  rfl

theorem wrongKind (i : Nat) (wanted : String) : t.wrongKind y i wanted = s.wrongKind x i wanted := by
  rw [Store.wrongKind, h.schemaOf hr, h.fieldName hr, h.kind hr]
  rfl

theorem stored (i : Nat) : t.stored y i = s.stored x i := by
  unfold Store.stored
  cases hx : s.slot x i with
  | scalar v => rw [h.scalar_iff.mpr hx]
  | binding b =>
      obtain ⟨b', hy⟩ := h.exists_binding hx
      rw [hy]
      simp only [h.wrongKind hr]
  | members es =>
      obtain ⟨es', hy, _⟩ := h.exists_members hx
      rw [hy]
      simp only [h.wrongKind hr]

omit h hr in
theorem owner_of_collection {c : CollectionId} (hc : s.collection x field = .ok c) : c = ⟨x, c.field⟩ := by
  unfold Store.collection at hc
  obtain ⟨i, _, hc⟩ := bind_eq_ok hc
  split at hc
  · cases hc
    rfl
  · cases hc

/-- A collection of an entity has its counterpart in the same place of the twin. -/
theorem collection (field : String) :
    t.collection y field = (s.collection x field).map fun c => (⟨y, c.field⟩ : CollectionId) := by
  unfold Store.collection
  rw [h.fieldIndex hr]
  cases s.fieldIndex x field with
  | error err => rfl
  | ok i =>
      simp only [ok_bind]
      cases hx : s.slot x i with
      | scalar v =>
          rw [h.scalar_iff.mpr hx]
          simp only [h.wrongKind hr]
          rfl
      | binding b =>
          obtain ⟨b', hy⟩ := h.exists_binding hx
          rw [hy]
          simp only [h.wrongKind hr]
          rfl
      | members es =>
          obtain ⟨es', hy, _⟩ := h.exists_members hx
          rw [hy]
          rfl

theorem readWithin (fuel i : Nat) : t.readWithin y fuel i = s.readWithin x fuel i := by
  induction fuel generalizing i with
  | zero =>
      unfold Store.readWithin
      rw [h.stored hr, h.kind hr]
      refine congrArg (s.stored x i >>= ·) (funext fun stored => ?_)
      split
      · next size items _ =>
        rw [h.collection hr, h.fieldIndex hr, h.schemaOf hr, h.fieldName hr]
        cases s.collection x items <;> rfl
      · rfl
  | succ fuel ih =>
      unfold Store.readWithin
      rw [h.stored hr, h.kind hr]
      refine congrArg (s.stored x i >>= ·) (funext fun stored => ?_)
      split
      · next size items _ =>
        rw [h.collection hr, h.fieldIndex hr]
        cases hc : s.collection x items with
        | error err => rfl
        | ok c =>
            have hsame : (t.members ⟨y, c.field⟩).length = (s.members c).length := by
              rw [h.length_members, ← owner_of_collection hc]
            simp only [Except.map, ok_bind, hsame, ih]
      · rfl

theorem read (i : Nat) : t.read y i = s.read x i := by
  rw [Store.read, h.readWithin hr, h.schemaOf hr]
  rfl

theorem get (field : String) : t.get y field = s.get x field := by
  unfold Store.get
  rw [h.fieldIndex hr]
  exact congrArg (s.fieldIndex x field >>= ·) (funext fun i => h.read hr i)

theorem describe : t.describe y = s.describe x := by
  have htext : t.text? y = s.text? x := funext fun field => by
    unfold Store.text?
    rw [h.get hr]
  unfold Store.describe Store.label?
  rw [h.schemaOf hr, htext]

theorem readDrawing (i : Nat) (palette : Palette) : t.readDrawing y i palette = s.readDrawing x i palette := by
  unfold Store.readDrawing
  rw [h.kind hr, h.read hr]
  cases hx : s.slot x i with
  | scalar v => rw [h.scalar_iff.mpr hx]
  | binding b =>
      obtain ⟨b', hy⟩ := h.exists_binding hx
      rw [hy]
      cases s.kind x i <;> rfl
  | members es =>
      obtain ⟨es', hy, _⟩ := h.exists_members hx
      rw [hy]
      cases s.kind x i <;> rfl

theorem agree (h' : Resembles s t x' y') (field : String) : t.agree y y' field = s.agree x x' field := by
  unfold Store.agree
  rw [h.get hr, h'.get hr]

/-- Entities that resemble two unequal ones are unequal if they are two. -/
theorem sameIdentity_eq_false (h' : Resembles s t x' y') (hne : y ≠ y') (hs : s.sameIdentity x x' = false) :
    t.sameIdentity y y' = false := by
  have hagree : t.agree y y' = s.agree x x' := funext fun field => h.agree hr h' field
  unfold sameIdentity at hs ⊢
  rw [h.schemaOf hr, h'.schemaOf hr, h.model, h'.model, hagree, isA_congr hr]
  exact (Bool.or_eq_false_iff.mpr ⟨decide_eq_false hne, (Bool.or_eq_false_iff.mp hs).2⟩)

end Resembles

namespace Twin

theorem later (h : Twin s t x y) (h' : Same t u y) : Twin s u x y :=
  ⟨h'.model.trans h.model, fun i => (congrArg Slot.outline (h'.slot i)).trans (h.slot i)⟩

variable (h : Twin s t x y)

include h

theorem resembles : Resembles s t x y :=
  ⟨h.model, fun i => by rw [← Slot.shape_outline, h.slot, Slot.shape_outline]⟩

theorem binding_iff {bound : Binding} : t.slot y i = .binding bound ↔ s.slot x i = .binding bound := by
  have hs := h.slot i
  cases hy : t.slot y i <;> cases hx : s.slot x i <;> simp_all [Slot.outline]

theorem binding (i : Nat) : t.binding y i = s.binding x i := by
  unfold Store.binding
  cases hx : s.slot x i with
  | scalar v => rw [h.resembles.scalar_iff.mpr hx]
  | binding b => rw [h.binding_iff.mpr hx]
  | members es =>
      obtain ⟨es', hy, _⟩ := h.resembles.exists_members hx
      rw [hy]

end Twin

end Store

end MonitorExport
