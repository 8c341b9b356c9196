import MonitorExport.Proofs.Store.Twins
import MonitorExport.Proofs.Store.Walks

/-!
# Counterparts

Twins whose owners are twins too, from the nearest to the outermost. They have the hosts of one another, up to
being counterparts again; so they are named alike as the targets of references, and their references stand for
the same identities.
-/

namespace MonitorExport

section Related

variable {α β : Type} {R : α → β → Prop} {l : List α} {l' : List β} {p : α → Bool} {q : β → Bool}

theorem takeWhile_rel (h : List.Forall₂ R l l') (hpq : ∀ a b, R a b → p a = q b) :
    List.Forall₂ R (l.takeWhile p) (l'.takeWhile q) := by
  induction h with
  | nil => exact .nil
  | @cons a b l l' hr _ ih =>
      rw [List.takeWhile_cons, List.takeWhile_cons, hpq a b hr]
      cases q b with
      | true => exact .cons hr ih
      | false => exact .nil

theorem find?_rel (h : List.Forall₂ R l l') (hpq : ∀ a b, R a b → p a = q b) :
    Option.Rel R (l.find? p) (l'.find? q) := by
  induction h with
  | nil => exact .none
  | @cons a b l l' hr _ ih =>
      rw [List.find?_cons, List.find?_cons, hpq a b hr]
      cases q b with
      | true => exact .some hr
      | false => exact ih

end Related

namespace Store

/-- Whether two entities are twins, and so are their owners, up to the outermost. -/
inductive Counterpart (s t : Store) : EntityId → EntityId → Prop
  | outermost {x y : EntityId} (h : Twin s t x y) (hx : s.owner x = none) (hy : t.owner y = none) :
      Counterpart s t x y
  | owned {x y o p : EntityId} (h : Twin s t x y) (hx : s.owner x = some o) (hy : t.owner y = some p)
      (ho : Counterpart s t o p) : Counterpart s t x y

namespace Counterpart

variable {s t : Store} {x y : EntityId} {i : Nat}

theorem twin (h : Counterpart s t x y) : Twin s t x y := by
  cases h with
  | outermost h _ _ => exact h
  | owned h _ _ _ => exact h

theorem chains (h : Counterpart s t x y) :
    ∃ l l', Chain s.owner x l ∧ Chain t.owner y l' ∧ List.Forall₂ (Counterpart s t) l l' := by
  induction h with
  | outermost _ hx hy => exact ⟨[], [], .last hx, .last hy, .nil⟩
  | owned _ hx hy ho ih =>
      obtain ⟨l, l', hl, hl', hrel⟩ := ih
      exact ⟨_, _, .step hx hl, .step hy hl', .cons ho hrel⟩

/-- An entity that is left as it is, with all its owners, is its own counterpart. -/
theorem refl (hs : s.Linked) (hsame : ∀ a, s.Has a → Same s t a ∧ t.parent a = s.parent a) (hf : Finishes s.owner x)
    (hx : s.Has x) : Counterpart s t x x := by
  have howner : ∀ a, s.Has a → t.owner a = s.owner a := fun a ha => by rw [owner, (hsame a ha).2, ← owner]
  induction hf with
  | last h => exact .outermost (hsame _ hx).1.twin h ((howner _ hx).trans h)
  | step h _ ih => exact .owned (hsame _ hx).1.twin h ((howner _ hx).trans h) (ih (hs.has_owner h))

/-- Members that are twins are counterparts if those that hold them are. -/
theorem member (hs : s.Linked) (ht : t.Linked) (h : Counterpart s t x y) {u v : EntityId} {j : Nat}
    (hu : u ∈ s.members ⟨x, i⟩) (hv : v ∈ t.members ⟨y, j⟩) (htwin : Twin s t u v) : Counterpart s t u v :=
  .owned htwin (owner_of_parent (hs.mem_iff.mp hu)) (owner_of_parent (ht.mem_iff.mp hv)) h

variable (hr : t.registries = s.registries)

include hr

theorem ownerIsDocument (h : Counterpart s t x y) :
    ((s.owner x).map s.isDocument).getD false = ((t.owner y).map t.isDocument).getD false := by
  cases h with
  | outermost _ hx hy => rw [hx, hy]; rfl
  | owned _ hx hy ho => simp only [hx, hy, Option.map_some, Option.getD_some, ho.twin.resembles.isDocument hr]

variable (hs : s.Linked) (ht : t.Linked)

include hs ht

theorem ancestors (h : Counterpart s t x y) : List.Forall₂ (Counterpart s t) (s.ancestors x) (t.ancestors y) := by
  obtain ⟨l, l', hl, hl', hrel⟩ := h.chains
  rw [ancestors_eq hs hl, ancestors_eq ht hl']
  exact takeWhile_rel hrel fun a b hab => by rw [hab.twin.resembles.isDocument hr]

theorem documentHost (h : Counterpart s t x y) :
    Option.Rel (Counterpart s t) (s.documentHost x) (t.documentHost y) :=
  find?_rel (h.ancestors hr hs ht) fun _ _ hab => hab.ownerIsDocument hr

theorem hostScope (h : Counterpart s t x y) : Option.Rel (Counterpart s t) (s.hostScope x) (t.hostScope y) :=
  find?_rel (h.ancestors hr hs ht) fun _ _ hab => by rw [hab.twin.resembles.schemaOf hr]

theorem stampingHost (h : Counterpart s t x y) :
    Option.Rel (Counterpart s t) (s.stampingHost x) (t.stampingHost y) := by
  have hhost := h.documentHost hr hs ht
  unfold Store.stampingHost
  cases hx : s.documentHost x with
  | none =>
      rw [hx] at hhost
      cases hy : t.documentHost y with
      | none => exact h.hostScope hr hs ht
      | some b => rw [hy] at hhost; cases hhost
  | some a =>
      rw [hx] at hhost
      cases hy : t.documentHost y with
      | none => rw [hy] at hhost; cases hhost
      | some b => rw [hy] at hhost; exact hhost

omit hs ht in
theorem withHost {host host' : Option EntityId} (h : Option.Rel (Counterpart s t) host host') (identity : Identity) :
    t.withHost identity host' = s.withHost identity host := by
  cases h with
  | none => rfl
  | some hab => rw [Store.withHost, hab.twin.resembles.get hr]; rfl

theorem identity (h : Counterpart s t x y) : t.identity y = s.identity x := by
  have hhost := withHost hr (h.hostScope hr hs ht)
  simp only [Store.identity, h.twin.resembles.schemaOf hr, h.twin.resembles.get hr, hhost]

/-- References of counterparts stand for the same identity if their targets are counterparts. -/
theorem resolve (h : Counterpart s t x y) (htargets : ∀ a, s.binding x i = .entity a → Counterpart s t a a) :
    t.resolve y i = s.resolve x i := by
  have happends : t.appendsHost y i = s.appendsHost x i := by
    rw [appendsHost, h.twin.resembles.kind hr]
    rfl
  unfold Store.resolve
  rw [h.twin.binding, h.twin.resembles.schemaOf hr, h.twin.resembles.fieldName hr, happends]
  simp only [withHost hr (h.stampingHost hr hs ht)]
  cases hb : s.binding x i with
  | unbound => rfl
  | literal identity => rfl
  | entity a => simp only [(htargets a hb).identity hr hs ht]

end Counterpart

end Store

end MonitorExport
