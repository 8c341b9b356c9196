import Mathlib.Data.List.Nodup
import Mathlib.Data.List.Perm.Subperm
import Mathlib.Logic.Relation

/-!
# Chains

Following a partial function from an element onwards. A chain that ends has no element twice; so it is no
longer than there are elements, and a walk bounded by their number follows it to its end.
-/

namespace MonitorExport

variable {α : Type} {next : α → Option α} {a b : α} {l : List α}

/-- Following a partial function from an element comes to an end. -/
inductive Finishes (next : α → Option α) : α → Prop
  | last {a : α} (h : next a = none) : Finishes next a
  | step {a b : α} (h : next a = some b) (hb : Finishes next b) : Finishes next a

/-- The elements that come after an element, up to the end. -/
inductive Chain (next : α → Option α) : α → List α → Prop
  | last {a : α} (h : next a = none) : Chain next a []
  | step {a b : α} {l : List α} (h : next a = some b) (hb : Chain next b l) : Chain next a (b :: l)

/-- Whether an element comes after another. -/
abbrev After (next : α → Option α) : α → α → Prop := Relation.TransGen fun a b => next a = some b

theorem Finishes.chain (h : Finishes next a) : ∃ l, Chain next a l := by
  induction h with
  | last h => exact ⟨[], .last h⟩
  | step h _ ih =>
      obtain ⟨l, hl⟩ := ih
      exact ⟨_, .step h hl⟩

namespace Chain

theorem unique {l' : List α} (h : Chain next a l) (h' : Chain next a l') : l = l' := by
  induction h generalizing l' with
  | last h =>
      cases h' with
      | last => rfl
      | step hn => simp [h] at hn
  | step h _ ih =>
      cases h' with
      | last hn => simp [h] at hn
      | step hn hb =>
          rw [h, Option.some.injEq] at hn
          subst hn
          rw [ih hb]

theorem forall_mem {good : α → Prop} (h : Chain next a l) (hnext : ∀ a b, next a = some b → good b) : ∀ b ∈ l, good b := by
  induction h with
  | last => simp
  | step h _ ih => exact List.forall_mem_cons.mpr ⟨hnext _ _ h, ih⟩

/-- What comes after an element of a chain is the rest of the chain. -/
theorem of_mem (h : Chain next a l) (hb : b ∈ l) : ∃ l', Chain next b l' ∧ b :: l' <:+ l := by
  induction h with
  | last => cases hb
  | step _ hc ih =>
      rcases List.mem_cons.mp hb with rfl | hb
      · exact ⟨_, hc, List.suffix_rfl⟩
      · obtain ⟨l', hl', hs⟩ := ih hb
        exact ⟨l', hl', hs.trans (List.suffix_cons _ _)⟩

theorem not_mem (h : Chain next a l) : a ∉ l := by
  intro ha
  obtain ⟨l', hl', hs⟩ := h.of_mem ha
  have hle := hs.length_le
  rw [h.unique hl', List.length_cons] at hle
  omega

theorem nodup (h : Chain next a l) : l.Nodup := by
  induction h with
  | last => exact .nil
  | step _ hc ih => exact List.nodup_cons.mpr ⟨hc.not_mem, ih⟩

theorem mem_of_after (h : Chain next a l) (hb : After next a b) : b ∈ l := by
  induction hb with
  | single hn =>
      cases h with
      | last hl => simp [hl] at hn
      | step hl =>
          rw [hl, Option.some.injEq] at hn
          simp [hn]
  | tail _ hn ih =>
      obtain ⟨l', hl', hs⟩ := h.of_mem ih
      cases hl' with
      | last hl => simp [hl] at hn
      | step hl =>
          rw [hl, Option.some.injEq] at hn
          exact hs.subset (by simp [hn])

end Chain

/-- No element comes after itself if following from it ends. -/
theorem Finishes.not_after (h : Finishes next a) : ¬ After next a a := by
  obtain ⟨l, hl⟩ := h.chain
  exact fun ha => hl.not_mem (hl.mem_of_after ha)

/-- An element that comes after itself is followed by one that does too. -/
theorem after_self_of_next (h : next a = some b) (ha : After next a a) : After next b b := by
  obtain ⟨c, hc, hca⟩ := Relation.TransGen.head'_iff.mp ha
  cases hc.symm.trans h
  exact .tail' hca h

/-- Distinct elements with numbers below `n` are at most `n`. -/
theorem length_le_of_nodup {f : α → Nat} {n : Nat} (hf : Function.Injective f) (hl : l.Nodup)
    (h : ∀ a ∈ l, f a < n) : l.length ≤ n := by
  have hsub : l.map f ⊆ List.range n := by
    intro k hk
    obtain ⟨a, ha, rfl⟩ := List.mem_map.mp hk
    exact List.mem_range.mpr (h a ha)
  simpa using (List.subperm_of_subset (hl.map hf) hsub).length_le

end MonitorExport
