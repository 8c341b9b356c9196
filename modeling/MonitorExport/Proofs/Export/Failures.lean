import MonitorExport.Proofs.Export.Mapping
import MonitorExport.Proofs.Store.Walks

/-!
# How a mapping fails

A mapping visits the references at or below its entity in an order of its own: field by field, and what an
arranged collection holds last. Where all else can be read, the mapping fails as the first of these references
does, and if none of them fails it has a result.
-/

namespace MonitorExport

variable {α β : Type}

/-- The failure of a result, if it is one. -/
def failureOf : Except ConfigError α → Option ConfigError
  | .ok _ => none
  | .error err => some err

theorem exists_ok_iff {r : Except ConfigError α} : (∃ a, r = .ok a) ↔ failureOf r = none := by
  cases r <;> simp [failureOf]

theorem eq_error_iff {r : Except ConfigError α} {err : ConfigError} : r = .error err ↔ failureOf r = some err := by
  cases r <;> simp [failureOf]

theorem failureOf_map (f : α → β) (r : Except ConfigError α) : failureOf (r.map f) = failureOf r := by
  cases r <;> rfl

/-- Whether a step of a mapping fails in one way, or not at all, whatever the palette. -/
def FailsAs (o : Option ConfigError) (d : Drawing α) : Prop := ∀ palette, failureOf (d palette) = o

namespace FailsAs

variable {o o' : Option ConfigError} {d : Drawing α}

theorem pure (a : α) : FailsAs none (Pure.pure a : Drawing α) := fun _ => rfl

theorem bind {k : α → Drawing β} (h : FailsAs o d) (hk : ∀ a, FailsAs o' (k a)) : FailsAs (o.or o') (d >>= k) := by
  intro palette
  have hd := h palette
  show failureOf (d palette >>= fun p => k p.1 p.2) = _
  cases hr : d palette with
  | error err =>
      rw [hr] at hd
      rw [← hd]
      rfl
  | ok p =>
      rw [hr] at hd
      rw [← hd]
      exact hk p.1 p.2

theorem map (h : FailsAs o d) (f : α → β) : FailsAs o (f <$> d) := by
  rw [map_eq_pure_bind, ← Option.or_none (o := o)]
  exact h.bind fun _ => pure _

theorem lift (r : Except ConfigError α) : FailsAs (failureOf r) (liftM r : Drawing α) := fun palette => by
  cases r <;> rfl

end FailsAs

namespace Mapping

variable {s : Store} {e x : EntityId}

/-! ## References in the order of the mapping -/

/-- The places of the fields of a model in the order in which they are mapped: the arranged collection is last. -/
def fieldOrder (m : ModelSchema) (count : Nat) : List Nat :=
  match arrangedIndex? m with
  | some index => (List.range count).filter (· ≠ index) ++ [index]
  | none => List.range count

/-- The references of a field, given those at or below its members. -/
def slotReferences (s : Store) (e : EntityId) (index : Nat) (below : List (EntityId × Nat)) : List (EntityId × Nat) :=
  match s.slot e index with
  | .binding _ => [(e, index)]
  | .members _ => below
  | .scalar _ => []

mutual

/-- The references at or below the root of a tree, in the order in which they are mapped. -/
def references (s : Store) : Subtree → List (EntityId × Nat)
  | .node e branches =>
    (fieldOrder (s.schemaOf e) branches.length).flatMap fun index => (partReferences s e 0 branches).getD index []

/-- For each field from a place on, its own reference or those at or below its members. -/
def partReferences (s : Store) (e : EntityId) (index : Nat) : List (List Subtree) → List (List (EntityId × Nat))
  | [] => []
  | members :: rest =>
    slotReferences s e index (memberReferences s members) :: partReferences s e (index + 1) rest

def memberReferences (s : Store) : List Subtree → List (EntityId × Nat)
  | [] => []
  | t :: rest => references s t ++ memberReferences s rest

end

/-- The failure of the first of some references that cannot be resolved. -/
def firstFailure (s : Store) (refs : List (EntityId × Nat)) : Option ConfigError :=
  refs.findSome? fun r => failureOf (s.resolve r.1 r.2)

theorem firstFailure_append (refs more : List (EntityId × Nat)) :
    firstFailure s (refs ++ more) = (firstFailure s refs).or (firstFailure s more) :=
  List.findSome?_append

/-- The references of the fields from a place on, without those of the arranged collection. -/
def plainReferences (arranged : Option Nat) : Nat → List (List (EntityId × Nat)) → List (EntityId × Nat)
  | _, [] => []
  | index, here :: rest => (if arranged = some index then [] else here) ++ plainReferences arranged (index + 1) rest

theorem plainReferences_eq (arranged : Option Nat) (index : Nat) (parts : List (List (EntityId × Nat))) :
    plainReferences arranged index parts =
      ((List.range parts.length).filter fun i => arranged ≠ some (index + i)).flatMap fun i => parts.getD i [] := by
  induction parts generalizing index with
  | nil => rfl
  | cons here rest ih =>
      rw [plainReferences, ih, List.length_cons, List.range_succ_eq_map, List.filter_cons, List.filter_map]
      have hshift : (fun i => decide (arranged ≠ some (index + i))) ∘ Nat.succ =
          fun i => decide (arranged ≠ some (index + 1 + i)) := by
        funext i
        simp only [Function.comp, Nat.succ_eq_add_one, Nat.add_assoc, Nat.add_comm 1]
      rw [hshift]
      by_cases h : arranged = some index <;> simp [h, List.flatMap_map]

theorem length_partReferences (s : Store) (e : EntityId) (index : Nat) (bs : List (List Subtree)) :
    (partReferences s e index bs).length = bs.length := by
  induction bs generalizing index with
  | nil => rfl
  | cons members rest ih => rw [partReferences, List.length_cons, List.length_cons, ih]

theorem references_node (e : EntityId) (bs : List (List Subtree)) : references s (.node e bs) =
    plainReferences (arrangedIndex? (s.schemaOf e)) 0 (partReferences s e 0 bs) ++
      match arrangedIndex? (s.schemaOf e) with
      | some index => (partReferences s e 0 bs).getD index []
      | none => [] := by
  rw [references, fieldOrder, plainReferences_eq, length_partReferences]
  cases arrangedIndex? (s.schemaOf e) with
  | none => simp
  | some index => simp [List.flatMap_append, eq_comm (a := index)]

theorem getD_partReferences (s : Store) (e : EntityId) (start index : Nat) (bs : List (List Subtree)) :
    (partReferences s e start bs).getD index [] =
      (bs[index]?.map fun ts => slotReferences s e (start + index) (memberReferences s ts)).getD [] := by
  induction bs generalizing start index with
  | nil => rfl
  | cons members rest ih =>
      cases index with
      | zero => rfl
      | succ index =>
          rw [partReferences, List.getD_cons_succ, ih, List.getElem?_cons_succ, Nat.add_right_comm, Nat.add_assoc]

theorem memberReferences_eq (s : Store) (ts : List Subtree) : memberReferences s ts = ts.flatMap (references s) := by
  induction ts with
  | nil => rfl
  | cons t ts ih => rw [memberReferences, ih, List.flatMap_cons]

theorem mem_references_node {r : EntityId × Nat} {bs : List (List Subtree)} : r ∈ references s (.node e bs) ↔
    ∃ index ts, bs[index]? = some ts ∧ r ∈ slotReferences s e index (memberReferences s ts) := by
  have hpart (index : Nat) : r ∈ (partReferences s e 0 bs).getD index [] ↔
      ∃ ts, bs[index]? = some ts ∧ r ∈ slotReferences s e index (memberReferences s ts) := by
    rw [getD_partReferences, Nat.zero_add]
    cases bs[index]? <;> simp
  rw [references_node, plainReferences_eq, length_partReferences]
  simp only [List.mem_append, List.mem_flatMap, List.mem_filter, List.mem_range, decide_eq_true_eq, Nat.zero_add, hpart]
  constructor
  · rintro (⟨index, _, ts, hts, hr⟩ | hlast)
    · exact ⟨index, ts, hts, hr⟩
    · split at hlast
      · next index _ => exact ⟨index, (hpart index).mp hlast⟩
      · cases hlast
  · rintro ⟨index, ts, hts, hr⟩
    by_cases ha : arrangedIndex? (s.schemaOf e) = some index
    · rw [ha]
      exact .inr ((hpart index).mpr ⟨ts, hts, hr⟩)
    · exact .inl ⟨index, ⟨(List.getElem?_eq_some_iff.mp hts).1, ha⟩, ts, hts, hr⟩

/-- The references of a tree are those of its entities. -/
theorem mem_references {t : Subtree} (hw : t.Whole s) {x : EntityId} {i : Nat} :
    (x, i) ∈ references s t ↔ x ∈ t.preorder ∧ ∃ b, s.slot x i = .binding b := by
  induction hw with
  | @node e bs hroots hb ih =>
      have hw : (Subtree.node e bs).Whole s := .node hroots hb
      rw [mem_references_node, Subtree.mem_preorder]
      constructor
      · rintro ⟨index, ts, hts, hr⟩
        unfold slotReferences at hr
        split at hr
        · next b hslot =>
          cases List.mem_singleton.mp hr
          exact ⟨.inl rfl, b, hslot⟩
        · rw [memberReferences_eq, List.mem_flatMap] at hr
          obtain ⟨t, ht, hr⟩ := hr
          obtain ⟨hx, hslot⟩ := (ih ts (List.mem_of_getElem? hts) t ht).mp hr
          exact ⟨.inr ⟨ts, List.mem_of_getElem? hts, t, ht, hx⟩, hslot⟩
        · cases hr
      · rintro ⟨rfl | ⟨ts, hts, t, ht, hx⟩, b, hslot⟩
        · have hi : i < bs.length := by
            rw [hw.length_slots]
            exact Store.lt_of_slot_ne (by rw [hslot]; nofun)
          refine ⟨i, bs[i], List.getElem?_eq_getElem hi, ?_⟩
          simp [slotReferences, hslot]
        · obtain ⟨index, hindex⟩ := List.getElem?_of_mem hts
          have hmem : t.root ∈ s.members ⟨e, index⟩ := Store.roots_of_whole hw hindex ▸ List.mem_map_of_mem ht
          obtain ⟨es, hes⟩ := Slot.exists_members (Store.IsCollection.of_mem hmem)
          refine ⟨index, ts, hindex, ?_⟩
          rw [slotReferences, hes, memberReferences_eq]
          exact List.mem_flatMap.mpr ⟨t, ht, (ih ts hts t ht).mpr ⟨hx, b, hslot⟩⟩

/-! ## Failing as the first reference -/

/-- Whether an entity can be read: all its scalars, and how it arranges members. -/
structure Readable (s : Store) (e : EntityId) : Prop where
  scalar : ∀ i stored palette, s.slot e i = .scalar stored → ∃ r, s.readDrawing e i palette = .ok r
  arranged : ∀ i, arrangedIndex? (s.schemaOf e) = some i → ∃ es, s.slot e i = .members es
  width : ∀ a, (s.schemaOf e).arrangement = some a → ∃ w, arrangementWidth s e a = .ok w

theorem scalarNodes_failsAs {i : Nat} (h : ∀ palette, ∃ r, s.readDrawing e i palette = .ok r) (overrides : Overrides) :
    FailsAs none (scalarNodes s e i overrides) := by
  unfold scalarNodes
  dsimp only
  split
  · exact (FailsAs.pure _).bind fun _ => FailsAs.pure _
  · exact FailsAs.bind (fun palette => exists_ok_iff.mp (h palette)) fun _ => FailsAs.pure _

mutual

/-- The mapping of an entity fails as the first reference does, if all that it owns can be read. -/
theorem entityNodes_failsAs (overrides : Overrides) : (t : Subtree) → (∀ x ∈ t.preorder, Readable s x) →
    FailsAs (firstFailure s (references s t)) (entityNodes s overrides t)
  | .node e branches, h => by
      have he : Readable s e := h e (List.mem_cons_self ..)
      have hb : ∀ x ∈ Subtree.preorderOfBranches branches, Readable s x := fun x hx => h x (List.mem_cons_of_mem _ hx)
      have hfields := fieldNodes_failsAs e overrides (arrangedIndex? (s.schemaOf e)) 0 branches he hb
      unfold entityNodes
      rw [references_node, firstFailure_append]
      refine hfields.bind fun nodes => ?_
      cases hi : arrangedIndex? (s.schemaOf e) with
      | none => exact FailsAs.pure _
      | some index =>
          obtain ⟨a, ha, _⟩ := Option.bind_eq_some_iff.mp hi
          obtain ⟨es, hslot⟩ := he.arranged index hi
          obtain ⟨w, hw⟩ := he.width a ha
          have hlast : (partReferences s e 0 branches).getD index [] = memberReferences s (branches.getD index []) := by
            rw [getD_partReferences, Nat.zero_add, List.getD_eq_getElem?_getD]
            cases branches[index]? <;> simp [slotReferences, hslot, memberReferences]
          simp only [ha, hslot, hw]
          rw [hlast, ← Option.none_or (o := firstFailure s _), ← Option.or_none (o := firstFailure s _)]
          exact (FailsAs.lift (.ok w)).bind fun width =>
            (branchNodes_failsAs _ _ index branches hb).bind fun members => FailsAs.pure _

theorem fieldNodes_failsAs (e : EntityId) (overrides : Overrides) (arranged : Option Nat) (index : Nat) :
    (bs : List (List Subtree)) → Readable s e → (∀ x ∈ Subtree.preorderOfBranches bs, Readable s x) →
    FailsAs (firstFailure s (plainReferences arranged index (partReferences s e index bs)))
      (fieldNodes s e overrides arranged index bs)
  | [], _, _ => FailsAs.pure _
  | members :: rest, he, h => by
      have hrest := fieldNodes_failsAs e overrides arranged (index + 1) rest he fun x hx =>
        h x (List.mem_append_right _ hx)
      have hmembers := memberNodes_failsAs (memberTag? s e index) (fun _ => []) 0 members fun x hx =>
        h x (List.mem_append_left _ hx)
      unfold fieldNodes partReferences plainReferences
      dsimp only
      rw [firstFailure_append, ← Option.or_none (o := firstFailure s (plainReferences ..))]
      split
      · exact FailsAs.bind (FailsAs.pure _) fun _ => hrest.bind fun _ => FailsAs.pure _
      · refine FailsAs.bind ?_ fun _ => hrest.bind fun _ => FailsAs.pure _
        unfold slotNodes
        cases hslot : s.slot e index with
        | scalar stored =>
            simp only [slotReferences, hslot]
            exact scalarNodes_failsAs (fun palette => he.scalar index stored palette hslot) overrides
        | members es =>
            simp only [slotReferences, hslot]
            exact hmembers.map _
        | binding b =>
            have hone : firstFailure s [(e, index)] = failureOf (referenceNode s e index) := by
              rw [referenceNode, failureOf_map, firstFailure, List.findSome?_singleton]
            simp only [slotReferences, hslot]
            rw [hone]
            exact (FailsAs.lift _).map _

theorem branchNodes_failsAs (tag : Option String) (overrides : Nat → Overrides) : (index : Nat) →
    (bs : List (List Subtree)) → (∀ x ∈ Subtree.preorderOfBranches bs, Readable s x) →
    FailsAs (firstFailure s (memberReferences s (bs.getD index []))) (branchNodes s tag overrides index bs)
  | 0, [], _ => FailsAs.pure _
  | _ + 1, [], _ => FailsAs.pure _
  | 0, members :: _, h => memberNodes_failsAs tag overrides 0 members fun x hx => h x (List.mem_append_left _ hx)
  | index + 1, _ :: rest, h => branchNodes_failsAs tag overrides index rest fun x hx => h x (List.mem_append_right _ hx)

theorem memberNodes_failsAs (tag : Option String) (overrides : Nat → Overrides) (k : Nat) : (ts : List Subtree) →
    (∀ x ∈ Subtree.preorderOfMembers ts, Readable s x) →
    FailsAs (firstFailure s (memberReferences s ts)) (memberNodes s tag overrides k ts)
  | [], _ => FailsAs.pure _
  | t :: rest, h => by
      unfold memberNodes memberReferences
      rw [firstFailure_append, ← Option.or_none (o := firstFailure s (memberReferences s rest))]
      refine FailsAs.bind (entityNodes_failsAs _ t fun x hx => h x (List.mem_append_left _ hx)) fun children => ?_
      exact (memberNodes_failsAs tag overrides _ rest fun x hx => h x (List.mem_append_right _ hx)).bind
        fun _ => FailsAs.pure _

end

end Mapping

end MonitorExport
