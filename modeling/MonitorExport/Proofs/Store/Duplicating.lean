import MonitorExport.Proofs.Store.Copying
import MonitorExport.Proofs.Store.Distinctness
import MonitorExport.Proofs.Store.Preorder

/-!
# Copies have the form of what they copy

The tree of what a copy owns is matched, entity by entity, by the tree of what was copied. All that is in it is new,
and nothing that was there before is changed.
-/

namespace MonitorExport

namespace Subtree

open Store

/-- Whether two trees are of one form, and their entities are related one by one. -/
inductive Matched (R : EntityId → EntityId → Prop) : Subtree → Subtree → Prop
  | node {x y : EntityId} {bs bs' : List (List Subtree)} (h : R x y)
      (hb : List.Forall₂ (List.Forall₂ (Matched R)) bs bs') : Matched R (.node x bs) (.node y bs')

variable {s t : Store} {n : Nat} {y : EntityId} {T T' : Subtree} {R S : EntityId → EntityId → Prop}

theorem Matched.root (h : T.Matched R T') : R T.root T'.root := by
  cases h with
  | node h _ => exact h

theorem Matched.refl (hR : ∀ x, R x x) (T : Subtree) : T.Matched R T := by
  induction T using Subtree.induct with
  | h x bs ih => exact .node (hR x) (List.forall₂_same.mpr fun ts hts => List.forall₂_same.mpr (ih ts hts))

theorem Matched.imp (hRS : ∀ x y, R x y → S x y) (h : T.Matched R T') : T.Matched S T' := by
  induction T using Subtree.induct generalizing T' with
  | h x bs ih =>
      cases h with
      | node h hb =>
          refine .node (hRS _ _ h) (forall₂_imp_mem hb fun ts hts _ _ hm => ?_)
          exact forall₂_imp_mem hm fun T hT _ _ hT' => ih ts hts T hT hT'

theorem Mirrored.made (h : T.Mirrored s t n y) : n ≤ y.index ∧ t.Has y := by
  cases h with
  | node hn hy _ _ => exact ⟨hn, hy⟩

/-- A tree is matched by that of a copy that mirrors it, if twins among the members of related entities are related. -/
theorem Mirrored.matched (hr : t.registries = s.registries) (hs : s.Linked) (ht : t.Linked)
    (hstep : ∀ {x y u v : EntityId} {i : Nat}, R x y → u ∈ s.members ⟨x, i⟩ → v ∈ t.members ⟨y, i⟩ →
      n ≤ v.index ∧ t.Has v → Twin s t u v → R u v)
    (h : T.Mirrored s t n T'.root) (hT : T.Whole s) (hT' : T'.Whole t) (hx : s.Has T.root) (hroot : R T.root T'.root) :
    T.Matched R T' := by
  induction T using Subtree.induct generalizing T' with
  | h x bs ih =>
      cases T' with
      | node y bs' =>
          cases h with
          | node _ hy htwin hb =>
              have hlength : bs.length = bs'.length := by
                rw [hT.length_fields hs hx, hT'.length_fields ht hy]
                exact congrArg (·.fields.length) (htwin.resembles.schemaOf hr).symm
              refine .node hroot (List.forall₂_iff_get.mpr ⟨hlength, fun i hi hi' => ?_⟩)
              have hts : bs[i]? = some bs[i] := List.getElem?_eq_getElem hi
              have hts' : bs'[i]? = some bs'[i] := List.getElem?_eq_getElem hi'
              have hroots := roots_of_whole hT hts
              have hroots' := roots_of_whole hT' hts'
              have hmirror := hb i _ hts
              simp only [root] at hmirror
              rw [← hroots', List.forall₂_map_right_iff] at hmirror
              refine forall₂_imp_mem hmirror fun U hU U' hU' hm => ?_
              have hmem : U.root ∈ s.members ⟨x, i⟩ := hroots ▸ List.mem_map_of_mem hU
              have hmem' : U'.root ∈ t.members ⟨y, i⟩ := hroots' ▸ List.mem_map_of_mem hU'
              exact ih _ (List.getElem_mem hi) U hU hm (hT.member (List.getElem_mem hi) hU)
                (hT'.member (List.getElem_mem hi') hU') (hs.typed.admits_of_mem hmem).1
                (hstep hroot hmem hmem' hm.made hm.twin)

end Subtree

namespace Store

open Subtree

variable {s t : Store} {e x y : EntityId}

/-- Whether an entity is new in a later store, and is a twin of one that was there. -/
structure Copied (s t : Store) (x y : EntityId) : Prop where
  fresh : ¬ s.Has y
  has : t.Has y
  twin : Twin s t x y

/-- Whether an entity of a later store is a copy of one that was there: it belongs to nothing, the tree of what it owns
is of the form of that of the original, with new twins of its entities, and all that was there is as it was. -/
structure Duplicated (s t : Store) (e copy : EntityId) : Prop where
  unowned : t.parent copy = none
  matched : ∃ T T' : Subtree, T.root = e ∧ T.Whole s ∧ T'.root = copy ∧ T'.Whole t ∧ T.Matched (Copied s t) T' ∧
    T'.preorder.Nodup ∧ ∀ y ∈ T'.preorder, y ≠ copy → ∃ o ∈ T'.preorder, t.owner y = some o
  registries : t.registries = s.registries
  kept : ∀ x, s.Has x → t.Has x ∧ t.entity x = s.entity x

/-- All of the tree of what an entity owns, but the entity itself, belongs to something in it. -/
theorem owner_mem_preorder (hs : s.Linked) {T : Subtree} (hT : T.Whole s) (hx : x ∈ T.preorder) (hne : x ≠ T.root) :
    ∃ o ∈ T.preorder, s.owner x = some o := by
  have hup : s.AtOrAbove x T.root := (mem_preorder_of_whole hs hT x).mp hx
  obtain ⟨o, ho, hup⟩ := hup.cases_head.resolve_left hne
  exact ⟨o, (mem_preorder_of_whole hs hT o).mpr hup, ho⟩

/-- The copy of an entity that is not above itself is faithful, if no collection at or below the entity has two equal
members. -/
theorem duplicate_faithful (h : Reachable s) (he : s.Has e) (hn : ¬ After s.owner e e)
    (hd : ∀ c : CollectionId, s.AtOrAbove c.owner e → s.Distinct c) :
    Duplicated s (s.duplicate e).1 e (s.duplicate e).2 := by
  have hs := h.linked
  obtain ⟨hrun, hcopy, hhas, hunowned, _⟩ := duplicate_run hs he
  have ht := hrun.linked hs
  have hwhole : (s.subtree e).Whole s := subtree_whole_of_not_after hs hn
  have hends : Finishes (s.duplicate e).1.owner (s.duplicate e).2 := .last (owner_eq_none.mpr hunowned)
  have hwhole' := subtree_whole_of_finishes ht hends
  have hd' : ∀ c : CollectionId, c.owner ∈ (s.subtree e).preorder → s.Distinct c := fun c hc => by
    rw [mem_preorder_of_whole hs hwhole, root_subtree] at hc
    exact hd c hc
  have hmirror := duplicate_mirrored hs he hn hd'
  have htwin := hmirror.twin
  rw [root_subtree] at htwin
  have hcopied : ∀ {x y}, s.entities.size ≤ y.index ∧ (s.duplicate e).1.Has y → Twin s (s.duplicate e).1 x y →
      Copied s (s.duplicate e).1 x y := fun hnew htwin => ⟨Nat.not_lt.mpr hnew.1, hnew.2, htwin⟩
  have hmatched : (s.subtree e).Matched (Copied s (s.duplicate e).1) ((s.duplicate e).1.subtree (s.duplicate e).2) := by
    refine Mirrored.matched hrun.registries hs ht (fun _ _ _ => hcopied) ?_ hwhole hwhole' ?_ ?_
    · rwa [root_subtree]
    · rwa [root_subtree]
    · rw [root_subtree, root_subtree]
      exact hcopied hmirror.made htwin
  refine ⟨hunowned, ⟨_, _, root_subtree .., hwhole, root_subtree .., hwhole', hmatched, ?_, fun y hy hne => ?_⟩,
    hrun.registries, fun x hx => ⟨hrun.has hx, entity_duplicate hs he hx⟩⟩
  · exact nodup_preorder ht hwhole' (by rw [root_subtree]; exact hends.not_after)
  · exact owner_mem_preorder ht hwhole' hy (by rwa [root_subtree])

/-! ## The copy of a rack -/

theorem slot_mem_or (s : Store) (e : EntityId) (i : Nat) :
    s.slot e i ∈ (s.entity e).slots ∨ s.slot e i = .scalar none := by
  rw [slot, List.getD_eq_getElem?_getD]
  cases hi : (s.entity e).slots[i]? with
  | none => exact .inr rfl
  | some slot => exact .inl (List.mem_of_getElem? hi)

theorem distinct_of_slots (h : ∀ x ∈ (s.subtree e).preorder, ∀ slot ∈ (s.entity x).slots,
    (slotMembers slot).Pairwise fun a b => s.sameIdentity a b = false) (c : CollectionId)
    (hc : c.owner ∈ (s.subtree e).preorder) : s.Distinct c := by
  rw [Distinct, members_eq]
  rcases slot_mem_or s c.owner c.field with hslot | hslot
  · exact h _ hc _ hslot
  · rw [hslot]
    exact .nil

theorem twoTrays_faithful : Reachable twoTrays ∧ (twoTrays.subtree ⟨0⟩).preorder = [⟨0⟩, ⟨1⟩, ⟨2⟩, ⟨3⟩, ⟨4⟩] ∧
    ¬ After twoTrays.owner ⟨0⟩ ⟨0⟩ ∧ (∀ c : CollectionId, twoTrays.AtOrAbove c.owner ⟨0⟩ → twoTrays.Distinct c) ∧
    Duplicated twoTrays (twoTrays.duplicate ⟨0⟩).1 ⟨0⟩ (twoTrays.duplicate ⟨0⟩).2 := by
  have hreachable : Reachable twoTrays := twoTrays_reachable.mono fun _ _ _ => trivial
  have horder : (twoTrays.subtree ⟨0⟩).preorder = [⟨0⟩, ⟨1⟩, ⟨2⟩, ⟨3⟩, ⟨4⟩] := by decide
  have hn : ¬ After twoTrays.owner ⟨0⟩ ⟨0⟩ := (Finishes.last (by decide)).not_after
  have hd : ∀ c : CollectionId, twoTrays.AtOrAbove c.owner ⟨0⟩ → twoTrays.Distinct c := fun c hc => by
    refine distinct_of_slots (e := ⟨0⟩) (by decide) c ?_
    rwa [mem_preorder_of_whole hreachable.linked (subtree_whole_of_not_after hreachable.linked hn), root_subtree]
  exact ⟨hreachable, horder, hn, hd, duplicate_faithful hreachable (by decide) hn hd⟩

end Store

end MonitorExport
