import Mathlib.Data.List.Forall2
import MonitorExport.Json.Numbers
import MonitorExport.Proofs.Text.Digits

/-!
# Numbers restored

A document is told by its shape, that is its arrays and its objects with their keys, and by the leaves that stand in it.
Restoring numbers keeps the shape, and of the leaves it replaces the strings of digits that write a number of 64 bits.
-/

namespace MonitorExport

/-- Elements are told apart by what `f` and `g` say of them. So are lists, if `f` says how much `g` has to say. -/
theorem eq_of_map_of_flatMap {α β γ : Type} {f : α → β} {g : α → List γ} {xs ys : List α}
    (hlength : ∀ x y, f x = f y → (g x).length = (g y).length)
    (htell : ∀ x ∈ xs, ∀ y, f x = f y → g x = g y → x = y) (hf : xs.map f = ys.map f)
    (hg : xs.flatMap g = ys.flatMap g) : xs = ys := by
  induction xs generalizing ys with
  | nil => exact (List.map_eq_nil_iff.mp hf.symm).symm
  | cons x xs ih =>
      cases ys with
      | nil => cases hf
      | cons y ys =>
          obtain ⟨hfx, hfxs⟩ := List.cons.inj hf
          -- what `g` says of the two lists is cut at the same place, as `f` tells the lengths
          obtain ⟨hgx, hgxs⟩ := List.append_inj hg (hlength x y hfx)
          rw [htell x List.mem_cons_self y hfx hgx, ih (fun z hz => htell z (List.mem_cons_of_mem _ hz)) hfxs hgxs]

namespace Json

variable {j k : Json} {s : String}

/-! ## Shapes and leaves -/

def IsLeaf : Json → Prop
  | .arr _ | .obj _ => False
  | _ => True

mutual

/-- The leaves of a document, in order: all in it that is neither an array nor an object. -/
def leaves : Json → List Json
  | .arr items => leavesOfItems items
  | .obj members => leavesOfMembers members
  | j => [j]

def leavesOfItems : List Json → List Json
  | [] => []
  | j :: rest => j.leaves ++ leavesOfItems rest

def leavesOfMembers : List (String × Json) → List Json
  | [] => []
  | (_, j) :: rest => j.leaves ++ leavesOfMembers rest

end

mutual

/-- The document with all its leaves left blank. -/
def shape : Json → Json
  | .arr items => .arr (shapeOfItems items)
  | .obj members => .obj (shapeOfMembers members)
  | _ => .null

def shapeOfItems : List Json → List Json
  | [] => []
  | j :: rest => j.shape :: shapeOfItems rest

def shapeOfMembers : List (String × Json) → List (String × Json)
  | [] => []
  | (key, j) :: rest => (key, j.shape) :: shapeOfMembers rest

end

theorem induct {motive : Json → Prop} (leaf : ∀ j, j.IsLeaf → motive j)
    (arr : ∀ items, (∀ j ∈ items, motive j) → motive (.arr items))
    (obj : ∀ members : List (String × Json), (∀ m ∈ members, motive m.2) → motive (.obj members)) : ∀ j, motive j
  | .arr items => arr items fun j hj =>
      have : sizeOf j < 1 + sizeOf items := Nat.lt_of_lt_of_le (List.sizeOf_lt_of_mem hj) (Nat.le_add_left _ _)
      induct leaf arr obj j
  | .obj members => obj members fun m hm =>
      have : sizeOf m.2 < 1 + sizeOf members := by
        have hmem := List.sizeOf_lt_of_mem hm
        cases m
        simp only [Prod.mk.sizeOf_spec] at hmem ⊢
        omega
      induct leaf arr obj m.2
  | .null | .bool _ | .int _ | .float _ | .str _ => leaf _ trivial
termination_by j => sizeOf j

theorem leaves_of_isLeaf (h : j.IsLeaf) : j.leaves = [j] := by
  cases j <;> first | rfl | cases h

theorem shape_of_isLeaf (h : j.IsLeaf) : j.shape = .null := by
  cases j <;> first | rfl | cases h

theorem leaves_arr (items : List Json) : (arr items).leaves = items.flatMap leaves := by
  rw [leaves]
  induction items with
  | nil => rfl
  | cons j rest ih => rw [leavesOfItems, ih, List.flatMap_cons]

theorem leaves_obj (members : List (String × Json)) : (obj members).leaves = members.flatMap fun m => m.2.leaves := by
  rw [leaves]
  induction members with
  | nil => rfl
  | cons m rest ih => rw [leavesOfMembers, ih, List.flatMap_cons]

theorem shape_arr (items : List Json) : (arr items).shape = .arr (items.map shape) := by
  rw [shape]
  induction items with
  | nil => rfl
  | cons j rest ih => rw [shapeOfItems, List.map_cons, ← arr.inj ih]

theorem shape_obj (members : List (String × Json)) :
    (obj members).shape = .obj (members.map fun m => (m.1, m.2.shape)) := by
  rw [shape]
  induction members with
  | nil => rfl
  | cons m rest ih => rw [shapeOfMembers, List.map_cons, ← obj.inj ih]

theorem isLeaf_of_mem_leaves (h : k ∈ j.leaves) : k.IsLeaf := by
  induction j using induct with
  | leaf j hj =>
      rw [leaves_of_isLeaf hj] at h
      exact List.mem_singleton.mp h ▸ hj
  | arr items ih =>
      rw [leaves_arr] at h
      obtain ⟨i, hi, hk⟩ := List.mem_flatMap.mp h
      exact ih i hi hk
  | obj members ih =>
      rw [leaves_obj] at h
      obtain ⟨m, hm, hk⟩ := List.mem_flatMap.mp h
      exact ih m hm hk

theorem length_leaves_shape (j : Json) : j.shape.leaves.length = j.leaves.length := by
  induction j using induct with
  | leaf j hj => rw [shape_of_isLeaf hj, leaves_of_isLeaf hj]; rfl
  | arr items ih =>
      rw [shape_arr, leaves_arr, leaves_arr, List.length_flatMap, List.length_flatMap, List.map_map]
      exact congrArg List.sum (List.map_congr_left ih)
  | obj members ih =>
      rw [shape_obj, leaves_obj, leaves_obj, List.length_flatMap, List.length_flatMap, List.map_map]
      exact congrArg List.sum (List.map_congr_left ih)

theorem length_leaves_congr (h : j.shape = k.shape) : j.leaves.length = k.leaves.length := by
  rw [← length_leaves_shape j, h, length_leaves_shape]

/-- Documents of the same shape with the same leaves are the same. -/
theorem eq_of_shape_of_leaves (hshape : j.shape = k.shape) (hleaves : j.leaves = k.leaves) : j = k := by
  induction j using induct generalizing k with
  | leaf j hj =>
      rw [shape_of_isLeaf hj] at hshape
      have hk : k.IsLeaf := by cases k <;> trivial
      rw [leaves_of_isLeaf hj, leaves_of_isLeaf hk] at hleaves
      exact List.singleton_inj.mp hleaves
  | arr items ih =>
      cases k with
      | arr items' =>
          rw [shape_arr, shape_arr] at hshape
          rw [leaves_arr, leaves_arr] at hleaves
          exact congrArg arr (eq_of_map_of_flatMap (fun _ _ => length_leaves_congr)
            (fun x hx y => ih x hx) (arr.inj hshape) hleaves)
      | _ => cases hshape
  | obj members ih =>
      cases k with
      | obj members' =>
          rw [shape_obj, shape_obj] at hshape
          rw [leaves_obj, leaves_obj] at hleaves
          refine congrArg obj (eq_of_map_of_flatMap (fun x y h => length_leaves_congr (Prod.mk.inj h).2)
            (fun x hx y h hl => ?_) (obj.inj hshape) hleaves)
          exact Prod.ext (Prod.mk.inj h).1 (ih x hx (Prod.mk.inj h).2 hl)
      | _ => cases hshape

/-! ## Numerals -/

/-- Whether a string is one or more digits that write a number of 64 bits. -/
def IsNumeral (s : String) : Prop :=
  Text.IsDigits s.toList ∧ Text.decimal s.toList ≤ 2 ^ 64 - 1

/-- What a leaf may become: a numeral becomes the number that it writes, and any other leaf stays. -/
inductive Restores : Json → Json → Prop
  | number {s : String} (h : IsNumeral s) : Restores (.str s) (.int (Text.decimal s.toList))
  | stays {j : Json} (h : ∀ s, j = .str s → ¬ IsNumeral s) : Restores j j

namespace Restores

theorem rightUnique : Relator.RightUnique Restores := by
  intro j k k' h h'
  cases h with
  | number hs =>
      cases h' with
      | number => rfl
      | stays hn => exact absurd hs (hn _ rfl)
  | stays hn =>
      cases h' with
      | number hs => exact absurd hs (hn _ rfl)
      | stays => rfl

theorem isLeaf (h : Restores j k) (hj : j.IsLeaf) : k.IsLeaf := by
  cases h with
  | number => trivial
  | stays => exact hj

theorem not_isNumeral (h : Restores j (.str s)) : ¬ IsNumeral s := by
  cases h with
  | stays hn => exact hn s rfl

theorem ofDigits (s : String) : Restores (.str s) (Json.ofDigits s) := by
  unfold Json.ofDigits
  split
  · next n hn =>
    obtain ⟨hread, hlt⟩ := Option.filter_eq_some_iff.mp hn
    obtain ⟨hdigits, rfl⟩ := Text.readDigits_eq_some_iff.mp hread
    exact .number ⟨hdigits, Nat.le_pred_of_lt (of_decide_eq_true hlt)⟩
  · next hn =>
    refine .stays fun t ht ⟨hdigits, hle⟩ => ?_
    cases ht
    have hread := Text.readDigits_eq_some_iff.mpr ⟨hdigits, rfl⟩
    refine Option.filter_eq_none_iff.mp hn _ hread (decide_eq_true ?_)
    exact Nat.lt_of_le_pred (by decide) hle

theorem withNumbers (h : j.IsLeaf) : Restores j j.withNumbers := by
  cases j with
  | str s => exact ofDigits s
  | arr _ | obj _ => cases h
  | _ => exact .stays nofun

end Restores

/-! ## Restoring -/

theorem withNumbers_arr (items : List Json) : (arr items).withNumbers = .arr (items.map withNumbers) := by
  rw [withNumbers]
  induction items with
  | nil => rfl
  | cons j rest ih => rw [itemsWithNumbers, List.map_cons, ← arr.inj ih]

theorem withNumbers_obj (members : List (String × Json)) :
    (obj members).withNumbers = .obj (members.map fun m => (m.1, m.2.withNumbers)) := by
  rw [withNumbers]
  induction members with
  | nil => rfl
  | cons m rest ih => rw [membersWithNumbers, List.map_cons, ← obj.inj ih]

theorem isLeaf_withNumbers (h : j.IsLeaf) : j.withNumbers.IsLeaf := (Restores.withNumbers h).isLeaf h

theorem shape_withNumbers (j : Json) : j.withNumbers.shape = j.shape := by
  induction j using induct with
  | leaf j hj => rw [shape_of_isLeaf (isLeaf_withNumbers hj), shape_of_isLeaf hj]
  | arr items ih =>
      rw [withNumbers_arr, shape_arr, shape_arr, List.map_map]
      exact congrArg arr (List.map_congr_left ih)
  | obj members ih =>
      rw [withNumbers_obj, shape_obj, shape_obj, List.map_map]
      exact congrArg obj (List.map_congr_left fun m hm => congrArg (m.1, ·) (ih m hm))

theorem leaves_withNumbers (j : Json) : j.withNumbers.leaves = j.leaves.map withNumbers := by
  induction j using induct with
  | leaf j hj => rw [leaves_of_isLeaf (isLeaf_withNumbers hj), leaves_of_isLeaf hj]; rfl
  | arr items ih =>
      rw [withNumbers_arr, leaves_arr, leaves_arr, List.flatMap_map, List.map_flatMap]
      exact List.flatMap_congr ih
  | obj members ih =>
      rw [withNumbers_obj, leaves_obj, leaves_obj, List.flatMap_map, List.map_flatMap]
      exact List.flatMap_congr ih

theorem restores_leaves (j : Json) : List.Forall₂ Restores j.leaves j.withNumbers.leaves := by
  rw [leaves_withNumbers, List.forall₂_map_right_iff, List.forall₂_same]
  exact fun k hk => .withNumbers (isLeaf_of_mem_leaves hk)

/-- The document with numbers restored is the only one of its shape in which each leaf is what it may become. -/
theorem eq_withNumbers (hshape : k.shape = j.shape) (hleaves : List.Forall₂ Restores j.leaves k.leaves) :
    k = j.withNumbers :=
  eq_of_shape_of_leaves (hshape.trans (shape_withNumbers j).symm)
    (List.right_unique_forall₂' Restores.rightUnique hleaves (restores_leaves j))

theorem not_isNumeral_of_mem_leaves (h : .str s ∈ j.withNumbers.leaves) : ¬ IsNumeral s := by
  rw [leaves_withNumbers] at h
  obtain ⟨k, hk, hs⟩ := List.mem_map.mp h
  exact (hs ▸ Restores.withNumbers (isLeaf_of_mem_leaves hk) : Restores k (.str s)).not_isNumeral

/-- Restoring numbers keeps the shape of a document, its keys among it, and replaces each numeral in it by the number
that it writes; nothing else is a document of which this is true. No numeral is left then, at any depth, so restoring
numbers again changes nothing. -/
theorem withNumbers_restores (j : Json) :
    j.withNumbers.shape = j.shape ∧ List.Forall₂ Restores j.leaves j.withNumbers.leaves ∧
    (∀ k : Json, k.shape = j.shape → List.Forall₂ Restores j.leaves k.leaves → k = j.withNumbers) ∧
    (∀ s, .str s ∈ j.withNumbers.leaves → ¬ IsNumeral s) ∧
    j.withNumbers.withNumbers = j.withNumbers := by
  refine ⟨shape_withNumbers j, restores_leaves j, fun k => eq_withNumbers, fun s => not_isNumeral_of_mem_leaves, ?_⟩
  -- without numerals each leaf may stay, so the document itself is the one with its numbers restored
  refine (eq_withNumbers rfl (List.forall₂_same.mpr fun k hk => ?_)).symm
  exact .stays fun s hs => not_isNumeral_of_mem_leaves (hs ▸ hk)

example : (arr [.str "007", .obj [("18446744073709551615", .str "18446744073709551616")]]).withNumbers =
    .arr [.int 7, .obj [("18446744073709551615", .str "18446744073709551616")]] := by
  cbv

end Json

end MonitorExport
