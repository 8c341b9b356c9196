import MonitorExport.Proofs.Store.Distinctness
import MonitorExport.Proofs.Store.Preorder

/-!
# Extracting entities of a model

What is extracted from an entity is a part of the tree of what it owns, in the order of the tree: all that are of the
model and equal to none that was extracted before them. So each that is left out is equal to one that is not.
-/

namespace MonitorExport.Store

open Subtree

variable {s : Store} {m : ModelId} {e x y : EntityId} {l found before after : List EntityId}

/-! ## Leaving out equal entities -/

theorem mem_addDistinct :
    y ∈ s.addDistinct found x ↔ y ∈ found ∨ y = x ∧ ∀ z ∈ found, s.sameIdentity z x = false := by
  unfold addDistinct
  split
  · next h =>
    obtain ⟨z, hz, hsame⟩ := List.any_eq_true.mp h
    exact ⟨.inl, fun hy => hy.resolve_right fun hnone => by simp [hnone.2 z hz] at hsame⟩
  · next h =>
    have hnone : ∀ z ∈ found, s.sameIdentity z x = false := by simpa using h
    rw [List.mem_append, List.mem_singleton, and_iff_left hnone]

/-- Entities are listed behind those that were, in their own order. -/
theorem foldl_addDistinct_eq (l found : List EntityId) :
    ∃ more, l.foldl s.addDistinct found = found ++ more ∧ more.Sublist l := by
  induction l generalizing found with
  | nil => exact ⟨[], by simp⟩
  | cons x l ih =>
      obtain ⟨more, heq, hsub⟩ := ih (s.addDistinct found x)
      rw [List.foldl_cons, heq, addDistinct]
      split
      · exact ⟨more, rfl, hsub.cons x⟩
      · exact ⟨x :: more, by simp, hsub.cons_cons x⟩

theorem sublist_distinct : (l.foldl s.addDistinct []).Sublist l := by
  obtain ⟨more, heq, hsub⟩ := foldl_addDistinct_eq (s := s) l []
  rwa [heq, List.nil_append]

theorem pairwise_distinct (l : List EntityId) (hfound : found.Pairwise fun a b => s.sameIdentity a b = false) :
    (l.foldl s.addDistinct found).Pairwise fun a b => s.sameIdentity a b = false := by
  induction l generalizing found with
  | nil => exact hfound
  | cons x l ih =>
      refine ih ?_
      unfold addDistinct
      split
      · exact hfound
      · next h =>
        have hnone : ∀ y ∈ found, s.sameIdentity y x = false := by simpa using h
        exact List.pairwise_append.mpr ⟨hfound, List.pairwise_singleton _ _,
          fun y hy z hz => List.mem_singleton.mp hz ▸ hnone y hy⟩

/-- An entity is listed exactly if no entity that is listed before it is equal to it. -/
theorem mem_distinct_iff (hl : (before ++ x :: after).Nodup)
    (hfound : found = (before ++ x :: after).foldl s.addDistinct []) :
    x ∈ found ↔ ∀ y ∈ found, y ∈ before → s.sameIdentity y x = false := by
  obtain ⟨_, hrest, hapart⟩ := List.nodup_append.mp hl
  have hxbefore : x ∉ before := fun hx => hapart x hx x (by simp) rfl
  have hxafter : x ∉ after := (List.nodup_cons.mp hrest).1
  -- what is listed of `before` decides on `x`; all that is listed later comes from `after`
  obtain ⟨more, heq, hmore⟩ := foldl_addDistinct_eq (s := s) after (s.addDistinct (before.foldl s.addDistinct []) x)
  have hfirst : (before.foldl s.addDistinct []).Sublist before := sublist_distinct
  have hsplit : found = s.addDistinct (before.foldl s.addDistinct []) x ++ more := by
    rw [hfound, List.foldl_append, List.foldl_cons, heq]
  have hlisted : ∀ y, y ∈ found ∧ y ∈ before ↔ y ∈ before.foldl s.addDistinct [] := fun y => by
    rw [hsplit, List.mem_append, mem_addDistinct]
    constructor
    · rintro ⟨(hy | ⟨rfl, _⟩) | hy, hb⟩
      · exact hy
      · exact absurd hb hxbefore
      · exact absurd rfl (hapart y hb y (List.mem_cons_of_mem _ (hmore.subset hy)))
    · exact fun hy => ⟨.inl (.inl hy), hfirst.subset hy⟩
  have hmem : x ∈ found ↔ ∀ z ∈ before.foldl s.addDistinct [], s.sameIdentity z x = false := by
    rw [hsplit, List.mem_append, mem_addDistinct, or_iff_left fun hx => hxafter (hmore.subset hx),
      or_iff_right fun hx => hxbefore (hfirst.subset hx), and_iff_right rfl]
  rw [hmem]
  exact ⟨fun h y hy hb => h y ((hlisted y).mp ⟨hy, hb⟩),
    fun h y hy => h y ((hlisted y).mpr hy).1 ((hlisted y).mpr hy).2⟩

/-! ## What is extracted -/

/-- Whether entities are those of a model among others, in their order, but for those that are equal to one that is
listed before them. -/
structure Lists (s : Store) (m : ModelId) (order found : List EntityId) : Prop where
  sublist : found.Sublist order
  isA : ∀ x ∈ found, s.isA (s.model x) m = true
  unequal : ∀ x ∈ found, ∀ y ∈ found, x ≠ y → s.sameIdentity x y = false
  mem_iff : ∀ before x after, order = before ++ x :: after → s.isA (s.model x) m = true →
    (x ∈ found ↔ ∀ y ∈ found, y ∈ before → s.sameIdentity y x = false)
  represented : ∀ x ∈ order, s.isA (s.model x) m = true → ∃ y ∈ found, s.sameIdentity y x = true

theorem lists_of_nodup {order : List EntityId} (h : order.Nodup)
    (hfound : found = (order.filter fun x => s.isA (s.model x) m).foldl s.addDistinct []) : Lists s m order found := by
  have hsub : found.Sublist (order.filter fun x => s.isA (s.model x) m) := hfound ▸ sublist_distinct
  have hisA : ∀ x ∈ found, s.isA (s.model x) m = true := fun x hx => (List.mem_filter.mp (hsub.subset hx)).2
  have hmem : ∀ before x after, order = before ++ x :: after → s.isA (s.model x) m = true →
      (x ∈ found ↔ ∀ y ∈ found, y ∈ before → s.sameIdentity y x = false) := fun before x after heq hx => by
    have hfilter : order.filter (fun x => s.isA (s.model x) m) =
        before.filter (fun x => s.isA (s.model x) m) ++ x :: after.filter fun x => s.isA (s.model x) m := by
      rw [heq, List.filter_append, List.filter_cons_of_pos (by simpa using hx)]
    rw [hfilter] at hfound
    rw [mem_distinct_iff (hfilter ▸ h.filter _) hfound]
    refine forall₂_congr fun y hy => imp_congr_left ?_
    rw [List.mem_filter]
    exact and_iff_left (hisA y hy)
  refine ⟨hsub.trans List.filter_sublist, hisA, fun x hx y hy hne => ?_, hmem, fun x hx hm => ?_⟩
  · have hsymm : Std.Symm fun a b => s.sameIdentity a b = false := ⟨fun a b hab =>
      Bool.eq_false_iff.mpr fun hba => Bool.eq_false_iff.mp hab (sameIdentity_symm hba)⟩
    exact (hfound ▸ pairwise_distinct _ .nil : found.Pairwise _).forall hx hy hne
  · obtain ⟨before, after, heq⟩ := List.append_of_mem hx
    by_contra hnone
    push Not at hnone
    have hlisted := (hmem before x after heq hm).mpr fun y hy _ => by simpa using hnone y hy
    exact hnone x hlisted (sameIdentity_self s x)

/-- What is extracted from an entity that is not above itself are the entities of the model at or below it, each in
its place, but for those that are equal to one extracted before. -/
theorem extract_lists (h : Reachable s) (hn : ¬ After s.owner e e) (m : ModelId) :
    ∃ T : Subtree, T.root = e ∧ T.Whole s ∧ T.preorder.Nodup ∧ (∀ x, x ∈ T.preorder ↔ s.AtOrAbove x e) ∧
      Lists s m T.preorder (s.extract e m) := by
  have hwhole := subtree_whole_of_not_after h.linked hn
  have hnodup : (s.subtree e).preorder.Nodup := nodup_preorder h.linked hwhole (by rwa [root_subtree])
  refine ⟨s.subtree e, root_subtree .., hwhole, hnodup, fun x => ?_, lists_of_nodup hnodup (extract_eq s e m)⟩
  rw [mem_preorder_of_whole h.linked hwhole, root_subtree]

/-- A cup without a label that holds a blue cup, and before it a red cup with a red cup in it. -/
def redCups : Store :=
  ((addLabelled ⟨⟨0⟩, 1⟩ "blue").step ((addLabelled ⟨⟨1⟩, 1⟩ "red").step nestedCups).2).2

theorem redCups_reachable : ReachableUnrenamed redCups :=
  addLabelled_step (addLabelled_step nestedCups_reachable (by decide) _) (by decide) _

theorem redCups_lists : Reachable redCups ∧ ¬ After redCups.owner ⟨0⟩ ⟨0⟩ ∧
    redCups.extract ⟨0⟩ ⟨0, 2⟩ = [⟨0⟩, ⟨1⟩, ⟨3⟩] ∧
    ∃ T : Subtree, T.root = ⟨0⟩ ∧ T.Whole redCups ∧ T.preorder.Nodup ∧
      (∀ x, x ∈ T.preorder ↔ redCups.AtOrAbove x ⟨0⟩) ∧
      Lists redCups ⟨0, 2⟩ T.preorder (redCups.extract ⟨0⟩ ⟨0, 2⟩) := by
  have hreachable : Reachable redCups := redCups_reachable.mono fun _ _ _ => trivial
  have hn : ¬ After redCups.owner ⟨0⟩ ⟨0⟩ := (Finishes.last (by decide)).not_after
  exact ⟨hreachable, hn, by decide, extract_lists hreachable hn ⟨0, 2⟩⟩

end MonitorExport.Store
