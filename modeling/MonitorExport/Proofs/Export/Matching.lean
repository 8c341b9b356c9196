import MonitorExport.Export.Compiler
import MonitorExport.Proofs.Store.Duplicating

/-!
# Mapping matched trees

Trees of entities that resemble each other, and whose references stand for the same identities, are mapped to the same
elements: the mapping reads nothing else.
-/

namespace MonitorExport

namespace Mapping

open Store Subtree

variable {s t : Store} {x y : EntityId} {i : Nat} {R : EntityId → EntityId → Prop}

section Resembles

variable (h : Resembles s t x y) (hr : t.registries = s.registries)

include h hr

theorem memberTag?_congr : memberTag? t y i = memberTag? s x i := by
  rw [memberTag?, h.kind hr]
  rfl

theorem collectionNodes_congr (ms : List Node) : collectionNodes t y i ms = collectionNodes s x i ms := by
  have hempty : allowsEmpty t y i = allowsEmpty s x i := by
    rw [allowsEmpty, h.kind hr]
    rfl
  rw [collectionNodes, hempty, h.fieldName hr]
  rfl

theorem arrangementWidth_congr (a : Arrangement) : arrangementWidth t y a = arrangementWidth s x a := by
  cases a with
  | sequence => rfl
  | grid items columns px py => rw [arrangementWidth, h.get hr]; rfl

theorem slotNodes_congr (hres : t.resolve y i = s.resolve x i) (overrides : Overrides) (ms : Drawing (List Node)) :
    slotNodes t y i overrides ms = slotNodes s x i overrides ms := by
  unfold slotNodes
  cases hx : s.slot x i with
  | scalar v =>
      rw [h.scalar_iff.mpr hx]
      simp only [scalarNodes, h.fieldName hr, h.readDrawing hr]
  | binding b =>
      obtain ⟨b', hy⟩ := h.exists_binding hx
      rw [hy]
      simp only [referenceNode, hres, h.fieldName hr]
  | members es =>
      obtain ⟨es', hy, _⟩ := h.exists_members hx
      rw [hy]
      exact congrArg (· <$> ms) (funext (collectionNodes_congr h hr))

end Resembles

/-- Whether related entities of two stores read alike, and their references stand for the same identities. -/
structure Alike (s t : Store) (R : EntityId → EntityId → Prop) : Prop where
  registries : t.registries = s.registries
  resembles : ∀ {x y : EntityId}, R x y → Resembles s t x y
  resolve : ∀ {x y : EntityId}, R x y → ∀ i, t.resolve y i = s.resolve x i

mutual

/-- Matched trees are mapped to the same elements, or their mappings fail alike. -/
theorem entityNodes_matched (ha : Alike s t R) (overrides : Overrides) : (T : Subtree) → {T' : Subtree} →
    T.Matched R T' → entityNodes t overrides T' = entityNodes s overrides T
  | .node x bs, .node y bs', .node h hb => by
      have hr := ha.registries
      have hxy := ha.resembles h
      have hfields := fieldNodes_matched ha overrides (arrangedIndex? (s.schemaOf x)) 0 bs h hb
      unfold entityNodes
      dsimp only
      rw [hxy.schemaOf hr, hfields]
      refine congrArg (fieldNodes s x overrides _ 0 bs >>= ·) (funext fun nodes => ?_)
      split
      · next index a _ _ =>
        have hmembers : ∀ width, branchNodes t (memberTag? t y index) (placeMember width · a) index bs' =
            branchNodes s (memberTag? s x index) (placeMember width · a) index bs := fun width => by
          rw [memberTag?_congr hxy hr]
          exact branchNodes_matched ha _ _ index bs hb
        simp only [arrangementWidth_congr hxy hr, hmembers, collectionNodes_congr hxy hr]
        -- such entities differ in the names of members and in bindings, which the mapping does not look at
        cases hx : s.slot x index with
        | scalar v => rw [hxy.scalar_iff.mpr hx]
        | binding b =>
            obtain ⟨b', hy⟩ := hxy.exists_binding hx
            rw [hy]
        | members es =>
            obtain ⟨es', hy, _⟩ := hxy.exists_members hx
            rw [hy]
      · rfl
termination_by structural T => T

theorem fieldNodes_matched (ha : Alike s t R) (overrides : Overrides) (arranged : Option Nat) (index : Nat) :
    (bs : List (List Subtree)) → {bs' : List (List Subtree)} → {x y : EntityId} → R x y →
    List.Forall₂ (List.Forall₂ (Matched R)) bs bs' →
    fieldNodes t y overrides arranged index bs' = fieldNodes s x overrides arranged index bs
  | [], _, _, _, _, .nil => rfl
  | ts :: bs, _, x, y, h, .cons hts hbs => by
      have hr := ha.registries
      have hrest := fieldNodes_matched ha overrides arranged (index + 1) bs h hbs
      have hmembers := memberNodes_matched ha (memberTag? s x index) (fun _ => []) 0 ts hts
      unfold fieldNodes
      rw [hrest, memberTag?_congr (ha.resembles h) hr, hmembers, slotNodes_congr (ha.resembles h) hr (ha.resolve h index)]
termination_by structural bs => bs

theorem branchNodes_matched (ha : Alike s t R) (tag : Option String) (overrides : Nat → Overrides) : (index : Nat) →
    (bs : List (List Subtree)) → {bs' : List (List Subtree)} → List.Forall₂ (List.Forall₂ (Matched R)) bs bs' →
    branchNodes t tag overrides index bs' = branchNodes s tag overrides index bs
  | 0, [], _, .nil => rfl
  | _ + 1, [], _, .nil => rfl
  | 0, ts :: _, _, .cons hts _ => memberNodes_matched ha tag overrides 0 ts hts
  | index + 1, _ :: bs, _, .cons _ hbs => branchNodes_matched ha tag overrides index bs hbs
termination_by structural _ bs => bs

theorem memberNodes_matched (ha : Alike s t R) (tag : Option String) (overrides : Nat → Overrides) (k : Nat) :
    (ts : List Subtree) → {ts' : List Subtree} → List.Forall₂ (Matched R) ts ts' →
    memberNodes t tag overrides k ts' = memberNodes s tag overrides k ts
  | [], _, .nil => rfl
  | T :: ts, _, .cons hT hts => by
      have hhead := entityNodes_matched ha (overrides k) T hT
      have hrest := memberNodes_matched ha tag overrides (k + 1) ts hts
      unfold memberNodes
      rw [hhead, (ha.resembles hT.root).schemaOf ha.registries, hrest]
termination_by structural ts => ts

end

end Mapping

/-- Entities with matched trees compile to the same tree, or fail alike. -/
theorem Compiler.compile_matched {s t : Store} {e e' : EntityId} {R : EntityId → EntityId → Prop} (ha : Mapping.Alike s t R)
    (hm : (s.subtree e).Matched R (t.subtree e')) (c : Compiler) : c.compile t e' = c.compile s e := by
  have hr := ha.registries
  have hroot := ha.resembles hm.root
  rw [Subtree.root_subtree, Subtree.root_subtree] at hroot
  have hmap : c.mapRoot t e' = c.mapRoot s e := by
    unfold mapRoot
    rw [Mapping.entityNodes_matched ha [] _ hm, hroot.isDocument hr, hroot.schemaOf hr]
  unfold compile
  rw [hmap, hroot.isDocument hr]

end MonitorExport
