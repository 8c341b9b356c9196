import Mathlib.Data.List.Find
import MonitorExport.Proofs.Store.Building
import MonitorExport.Proofs.Store.Twins
import MonitorExport.Proofs.Store.Walks

/-!
# An entity of another model

Changes of the store look at the models of the entities that they compare and copy. An entity that stands apart is none
of these: whatever its model, the same changes are made around it.
-/

namespace MonitorExport

/-- The candidates among which a change finds members. -/
def Change.candidates : Change → List Store.Candidate
  | .members _ candidates => candidates
  | _ => []

namespace Store

variable {s w : Store} {x y e : EntityId} {c : CollectionId} {m m₀ : ModelId} {i : Nat}

/-- The store with an entity given another model. -/
def retype (s : Store) (x : EntityId) (m : ModelId) : Store := s.modify x fun entity => { entity with model := m }

/-! ## Reading -/

@[simp] theorem registries_retype : (s.retype x m).registries = s.registries := rfl

@[simp] theorem schema_retype : (s.retype x m).schema = s.schema := rfl

@[simp] theorem isA_retype : (s.retype x m).isA = s.isA := rfl

@[simp] theorem size_retype : (s.retype x m).entities.size = s.entities.size := size_modify ..

theorem entity_retype_of_ne (h : y ≠ x) : (s.retype x m).entity y = s.entity y := by
  rw [retype, entity_modify, if_neg fun hy => h hy.1]

@[simp] theorem slots_retype : ((s.retype x m).entity y).slots = (s.entity y).slots := by
  rw [retype, entity_modify]
  split
  · next hy => rw [hy.1]
  · rfl

@[simp] theorem parent_retype : (s.retype x m).parent y = s.parent y := by
  rw [parent, parent, retype, entity_modify]
  split
  · next hy => rw [hy.1]
  · rfl

@[simp] theorem owner_retype : (s.retype x m).owner y = s.owner y := by rw [owner, owner, parent_retype]

@[simp] theorem slot_retype : (s.retype x m).slot y i = s.slot y i := by rw [slot, slot, slots_retype]

@[simp] theorem members_retype : (s.retype x m).members c = s.members c := by rw [members_eq, members_eq, slot_retype]

@[simp] theorem binding_retype : (s.retype x m).binding y i = s.binding y i := by rw [binding, binding, slot_retype]

theorem model_retype_self (h : s.Has x) : (s.retype x m).model x = m := by
  rw [model, retype, entity_modify, if_pos ⟨rfl, h⟩]

theorem resembles_retype (h : y ≠ x) : Resembles s (s.retype x m) y y :=
  ⟨congrArg Entity.model (entity_retype_of_ne h), fun _ => congrArg Slot.shape slot_retype⟩

theorem sameIdentity_retype (hy : y ≠ x) (he : e ≠ x) : (s.retype x m).sameIdentity y e = s.sameIdentity y e := by
  have hy' := resembles_retype (s := s) (m := m) hy
  have he' := resembles_retype (s := s) (m := m) he
  have hagree : (s.retype x m).agree y e = s.agree y e := funext fun field => hy'.agree rfl he' field
  unfold sameIdentity
  rw [hy'.schemaOf rfl, he'.schemaOf rfl, hy'.model, he'.model, hagree, isA_retype]

theorem subtreeWithin_retype (fuel : Nat) (above : List EntityId) (e : EntityId) :
    (s.retype x m).subtreeWithin fuel above e = s.subtreeWithin fuel above e := by
  induction fuel generalizing above e with
  | zero => rw [subtreeWithin, subtreeWithin, slots_retype]
  | succ fuel ih => simp only [subtreeWithin, slots_retype, funext (ih _)]

@[simp] theorem subtree_retype : (s.retype x m).subtree e = s.subtree e := by
  rw [subtree, size_retype, subtreeWithin_retype, subtree]

theorem isLent_retype (start : Nat) : (s.retype x m).isLent start = s.isLent start := funext fun y => by
  rw [isLent, owner_retype, isLent]

/-! ## Single changes -/

theorem modify_retype {f : Entity → Entity} (hf : ∀ entity, f { entity with model := m } = { f entity with model := m }) :
    (s.retype x m).modify y f = (s.modify y f).retype x m := by
  unfold retype modify
  refine congrArg (Store.mk s.registries) (Array.ext (by simp) fun j _ _ => ?_)
  simp only [Array.getElem_modify]
  split <;> split <;> simp [hf]

theorem setSlot_retype (slot : Slot) : (s.retype x m).setSlot e i slot = (s.setSlot e i slot).retype x m :=
  modify_retype fun _ => rfl

theorem setParent_retype (p : Option CollectionId) : (s.retype x m).setParent e p = (s.setParent e p).retype x m :=
  modify_retype fun _ => rfl

theorem push_retype (h : s.Has x) (entity : Entity) : (s.retype x m).push entity = (s.push entity).retype x m := by
  -- the new entity is not the one that is changed
  have hx : x.index ≠ s.entities.size := Nat.ne_of_lt h
  unfold push retype modify
  refine congrArg (Store.mk s.registries) (Array.ext (by simp) fun j _ _ => ?_)
  simp only [Array.getElem_modify, Array.getElem_push, Array.size_modify]
  grind

theorem link_retype : (s.retype x m).link c e = (s.link c e).retype x m := by
  rw [link, setParent_retype, setSlot_retype, members_retype, link]

theorem unlink_retype : (s.retype x m).unlink e = (s.unlink e).retype x m := by
  cases hp : s.parent e with
  | none => rw [unlink_of_parent_none (parent_retype.trans hp), unlink_of_parent_none hp]
  | some c =>
      rw [unlink_of_parent (parent_retype.trans hp), unlink_of_parent hp, members_retype, setSlot_retype, setParent_retype]

theorem foldl_retype {α : Type} {f : Store → α → Store} (hf : ∀ s a, f (s.retype x m) a = (f s a).retype x m)
    (as : List α) (s : Store) : as.foldl f (s.retype x m) = (as.foldl f s).retype x m := by
  induction as generalizing s with
  | nil => rfl
  | cons a as ih => rw [List.foldl_cons, List.foldl_cons, hf, ih]

theorem clear_retype : (s.retype x m).clear c = (s.clear c).retype x m := by
  rw [clear, members_retype, setSlot_retype, foldl_retype (fun _ _ => setParent_retype none), clear]

theorem release_retype : (s.retype x m).release e = (s.release e).retype x m := by
  rw [release, subtree_retype, isLent_retype, foldl_retype (fun _ _ => unlink_retype), release]

theorem releaseSince_retype (start : Nat) : (s.retype x m).releaseSince start = (s.releaseSince start).retype x m := by
  rw [releaseSince, isLent_retype, foldl_retype (fun _ _ => unlink_retype), releaseSince]

/-! ## Standing apart -/

/-- Whether an entity of a model belongs to no collection, in a store with the registries of another. -/
structure Apart (w : Store) (m₀ : ModelId) (x : EntityId) (s : Store) : Prop where
  registries : s.registries = w.registries
  has : s.Has x
  model : s.model x = m₀
  alone : ∀ c, x ∉ s.members c

namespace Apart

theorem schemaOf (h : Apart w m₀ x s) : s.schemaOf x = w.schema m₀ := by
  rw [Store.schemaOf, h.model, schema_congr h.registries]

theorem schemaOf_retype (h : Apart w m₀ x s) : (s.retype x m).schemaOf x = w.schema m := by
  rw [Store.schemaOf, model_retype_self h.has, schema_retype, schema_congr h.registries]

theorem ne_of_mem (h : Apart w m₀ x s) (hy : y ∈ s.members c) : y ≠ x := fun he => h.alone c (he ▸ hy)

theorem setParent (h : Apart w m₀ x s) (e : EntityId) (p : Option CollectionId) : Apart w m₀ x (s.setParent e p) :=
  ⟨h.registries, by simpa using h.has, by simpa using h.model, fun c => by simpa using h.alone c⟩

theorem setSlot (h : Apart w m₀ x s) {slot : Slot} (hslot : x ∉ slotMembers slot) (e : EntityId) (i : Nat) :
    Apart w m₀ x (s.setSlot e i slot) := by
  refine ⟨h.registries, by simpa using h.has, by simpa using h.model, fun c => ?_⟩
  rw [members_eq, slot_setSlot]
  split
  · exact hslot
  · rw [← members_eq]
    exact h.alone c

theorem push (h : Apart w m₀ x s) {entity : Entity} (hm : ∀ slot ∈ entity.slots, slotMembers slot = []) :
    Apart w m₀ x (s.push entity) :=
  ⟨h.registries, has_push h.has entity, (congrArg Entity.model (entity_push_of_has h.has entity)).trans h.model,
    fun c => by rw [members_push hm]; exact h.alone c⟩

theorem link (h : Apart w m₀ x s) (he : e ≠ x) (c : CollectionId) : Apart w m₀ x (s.link c e) :=
  (h.setParent e (some c)).setSlot (by simpa [slotMembers] using ⟨h.alone c, he.symm⟩) _ _

theorem unlink (h : Apart w m₀ x s) (e : EntityId) : Apart w m₀ x (s.unlink e) := by
  cases hp : s.parent e with
  | none => rwa [unlink_of_parent_none hp]
  | some c =>
      have hslot : x ∉ slotMembers (.members ((s.members c).erase e)) := fun hx => h.alone c (List.mem_of_mem_erase hx)
      rw [unlink_of_parent hp]
      exact (h.setSlot hslot _ _).setParent e none

theorem foldl {α : Type} {f : Store → α → Store} (hf : ∀ {s} a, Apart w m₀ x s → Apart w m₀ x (f s a)) (as : List α)
    (h : Apart w m₀ x s) : Apart w m₀ x (as.foldl f s) :=
  List.foldlRecOn (motive := Apart w m₀ x) as f h fun _ hs a _ => hf a hs

theorem clear (h : Apart w m₀ x s) (c : CollectionId) : Apart w m₀ x (s.clear c) :=
  (h.setSlot List.not_mem_nil _ _).foldl (fun e hs => hs.setParent e none) _

theorem release (h : Apart w m₀ x s) (e : EntityId) : Apart w m₀ x (s.release e) := h.foldl (fun e hs => hs.unlink e) _

/-- What an entity owns is its own members, theirs, and so on. -/
theorem not_mem_subtreeWithin (h : Apart w m₀ x s) (fuel : Nat) (above : List EntityId) (he : e ≠ x) :
    x ∉ (s.subtreeWithin fuel above e).preorder := by
  induction fuel generalizing above e with
  | zero =>
      rw [subtreeWithin, Subtree.mem_preorder]
      rintro (rfl | ⟨ts, hts, t, ht, _⟩)
      · exact he rfl
      · obtain ⟨_, _, rfl⟩ := List.mem_map.mp hts
        cases ht
  | succ fuel ih =>
      rw [subtreeWithin, Subtree.mem_preorder]
      rintro (rfl | ⟨ts, hts, t, ht, hx⟩)
      · exact he rfl
      · obtain ⟨slot, hslot, rfl⟩ := List.mem_map.mp hts
        obtain ⟨y, hy, rfl⟩ := List.mem_map.mp ht
        obtain ⟨i, hi⟩ := List.getElem?_of_mem hslot
        have hmem : y ∈ s.members ⟨e, i⟩ := by
          rw [members_eq, Store.slot, List.getD_eq_getElem?_getD, hi]
          exact (List.mem_filter.mp hy).1
        exact ih _ (h.ne_of_mem hmem) hx

theorem not_mem_subtree (h : Apart w m₀ x s) (he : e ≠ x) : x ∉ (s.subtree e).preorder := h.not_mem_subtreeWithin _ _ he

end Apart

/-! ## Copying and inserting -/

/-- Whether a change is the same whatever the model of an entity, which stands apart after it too. -/
structure Ignores {α : Type} (w : Store) (m₀ : ModelId) (x : EntityId) (m : ModelId) (change : Store → Store × α)
    (s : Store) : Prop where
  eq : change (s.retype x m) = ((change s).1.retype x m, (change s).2)
  apart : Apart w m₀ x (change s).1

theorem find?_retype (h : Apart w m₀ x s) (he : e ≠ x) :
    (s.members c).find? ((s.retype x m).sameIdentity · e) = (s.members c).find? (s.sameIdentity · e) :=
  List.find?_congr fun _ hy => sameIdentity_retype (h.ne_of_mem hy) he

theorem place_ignores (h : Apart w m₀ x s) (he : e ≠ x) (c : CollectionId) : Ignores w m₀ x m (·.place c e) s := by
  constructor <;> dsimp only [place]
  · rw [members_retype, find?_retype h he]
    cases (s.members c).find? (s.sameIdentity · e) with
    | some m => rfl
    | none => rw [link_retype]
  · cases (s.members c).find? (s.sameIdentity · e) with
    | some m => exact h
    | none => exact h.link he c

theorem copyAlone_ignores (h : Apart w m₀ x s) (he : e ≠ x) : Ignores w m₀ x m (·.copyAlone e) s := by
  constructor
  · rw [copyAlone_eq, copyAlone_eq, (resembles_retype he).model, slots_retype, push_retype h.has, size_retype]
  · rw [copyAlone_eq]
    refine h.push fun slot hslot => ?_
    obtain ⟨slot, _, rfl⟩ := List.mem_map.mp hslot
    cases slot <;> rfl

theorem copyTree_ne (h : Apart w m₀ x s) (T : Subtree) : (s.copyTree T).2 ≠ x := by
  cases T with
  | node e bs =>
      rw [copyTree]
      rintro rfl
      exact Nat.lt_irrefl _ h.has

open Subtree

mutual

/-- A tree is copied alike that an entity is not in. -/
theorem copyTree_ignores : (T : Subtree) → {s : Store} → Apart w m₀ x s → x ∉ T.preorder → Ignores w m₀ x m (·.copyTree T) s
  | .node e bs, s, h, hx => by
      rw [preorder, List.mem_cons, not_or] at hx
      obtain ⟨heq, hapart⟩ := copyAlone_ignores h (Ne.symm hx.1)
      obtain ⟨hbranches, hapart'⟩ := copyBranches_ignores bs (s.copyAlone e).2 0 hapart hx.2
      constructor <;> dsimp only [copyTree]
      · rw [heq, hbranches]
      · exact hapart'
termination_by structural T => T

theorem copyBranches_ignores : (bs : List (List Subtree)) → (copy : EntityId) → (field : Nat) → {s : Store} →
    Apart w m₀ x s → x ∉ preorderOfBranches bs → (s.retype x m).copyBranches copy field bs =
      (s.copyBranches copy field bs).retype x m ∧ Apart w m₀ x (s.copyBranches copy field bs)
  | [], _, _, _, h, _ => ⟨rfl, h⟩
  | ts :: bs, copy, field, s, h, hx => by
      rw [preorderOfBranches, List.mem_append, not_or] at hx
      obtain ⟨hmembers, hapart⟩ := copyMembers_ignores ts ⟨copy, field⟩ h hx.1
      rw [copyBranches, copyBranches, hmembers]
      exact copyBranches_ignores bs copy (field + 1) hapart hx.2
termination_by structural bs => bs

theorem copyMembers_ignores : (ts : List Subtree) → (c : CollectionId) → {s : Store} → Apart w m₀ x s →
    x ∉ preorderOfMembers ts → (s.retype x m).copyMembers c ts = (s.copyMembers c ts).retype x m ∧
      Apart w m₀ x (s.copyMembers c ts)
  | [], _, _, h, _ => ⟨rfl, h⟩
  | T :: ts, c, s, h, hx => by
      rw [preorderOfMembers, List.mem_append, not_or] at hx
      obtain ⟨htree, hapart⟩ := copyTree_ignores T h hx.1
      obtain ⟨hplace, hapart'⟩ := place_ignores (m := m) hapart (copyTree_ne h T) c
      rw [copyMembers, copyMembers, htree]
      dsimp only
      rw [hplace]
      exact copyMembers_ignores ts c hapart' hx.2
termination_by structural ts => ts

end

theorem duplicate_ignores (h : Apart w m₀ x s) (he : e ≠ x) : Ignores w m₀ x m (·.duplicate e) s := by
  obtain ⟨heq, hapart⟩ := copyTree_ignores (m := m) (s.subtree e) h (h.not_mem_subtree he)
  constructor <;> dsimp only [duplicate]
  · rw [subtree_retype, heq]
  · exact hapart

theorem insertGiven_ignores (h : Apart w m₀ x s) (he : e ≠ x) (c : CollectionId) :
    Ignores w m₀ x m (·.insertGiven c e) s := by
  obtain ⟨hplace, hplaced⟩ := place_ignores (m := m) h he c
  obtain ⟨hcopy, hcopied⟩ := duplicate_ignores (m := m) h he
  obtain ⟨hput, hputApart⟩ := place_ignores (m := m) hcopied (copyTree_ne h (s.subtree e)) c
  constructor <;> dsimp only [insertGiven]
  · rw [parent_retype]
    cases s.parent e with
    | none => exact hplace
    | some p =>
        dsimp only
        split
        · exact hplace
        · rw [hcopy]
          exact hput
  · cases s.parent e with
    | none => exact hplaced
    | some p =>
        dsimp only
        split
        · exact hplaced
        · exact hputApart

theorem placeNew_ignores (h : Apart w m₀ x s) (he : e ≠ x) (c : CollectionId) : Ignores w m₀ x m (·.placeNew c e) s := by
  constructor <;> dsimp only [placeNew]
  · rw [members_retype, find?_retype h he]
    cases (s.members c).find? (s.sameIdentity · e) with
    | some m => rw [release_retype]
    | none => rw [link_retype]
  · cases (s.members c).find? (s.sameIdentity · e) with
    | some m => exact h.release e
    | none => exact h.link he c

theorem insert_ignores (h : Apart w m₀ x s) {y : Candidate} (hy : y.entity ≠ x) (c : CollectionId) :
    Ignores w m₀ x m (·.insert c y) s := by
  unfold insert
  cases y.isNew with
  | true => exact placeNew_ignores h hy c
  | false => exact insertGiven_ignores h hy c

theorem insertAll_ignores (h : Apart w m₀ x s) {ys : List Candidate} (hys : ∀ y ∈ ys, y.entity ≠ x) (c : CollectionId) :
    Ignores w m₀ x m (·.insertAll c ys) s := by
  induction ys generalizing s with
  | nil => exact ⟨rfl, h⟩
  | cons y ys ih =>
      obtain ⟨hy, hys⟩ := List.forall_mem_cons.mp hys
      obtain ⟨hinsert, hinserted⟩ := insert_ignores (m := m) h hy c
      obtain ⟨hrest, hapart⟩ := ih hinserted hys
      constructor <;> dsimp only [insertAll]
      · rw [hinsert, hrest]
      · exact hapart

theorem commit_retype (h : Apart w m₀ x s) {change : Change} (hc : ∀ y ∈ change.candidates, y.entity ≠ x) (e : EntityId)
    (replace : Bool) : (s.retype x m).commit e replace change = (s.commit e replace change).retype x m ∧
      Apart w m₀ x (s.commit e replace change) := by
  cases change with
  | scalar index stored => exact ⟨setSlot_retype _, h.setSlot List.not_mem_nil e index⟩
  | bind index bound => exact ⟨setSlot_retype _, h.setSlot List.not_mem_nil e index⟩
  | members index ys =>
      have hall : ∀ {t : Store}, Apart w m₀ x t → ((t.retype x m).insertAll ⟨e, index⟩ ys).1 =
          (t.insertAll ⟨e, index⟩ ys).1.retype x m ∧ Apart w m₀ x (t.insertAll ⟨e, index⟩ ys).1 := fun ht => by
        obtain ⟨heq, hapart⟩ := insertAll_ignores (m := m) ht hc ⟨e, index⟩
        exact ⟨congrArg Prod.fst heq, hapart⟩
      cases replace with
      | false => exact hall h
      | true =>
          simp only [commit, if_true, clear_retype]
          exact hall (h.clear ⟨e, index⟩)

theorem commitAll_retype (h : Apart w m₀ x s) {changes : List Change}
    (hc : ∀ change ∈ changes, ∀ y ∈ change.candidates, y.entity ≠ x) (e : EntityId) :
    (s.retype x m).commitAll e changes = (s.commitAll e changes).retype x m ∧ Apart w m₀ x (s.commitAll e changes) := by
  induction changes generalizing s with
  | nil => exact ⟨rfl, h⟩
  | cons change changes ih =>
      obtain ⟨hchange, hchanges⟩ := List.forall_mem_cons.mp hc
      obtain ⟨hcommit, hapart⟩ := commit_retype (m := m) h hchange e false
      obtain ⟨hrest, hend⟩ := ih hapart hchanges
      exact ⟨by rw [commitAll, List.foldl_cons, hcommit]; exact hrest, hend⟩

end Store

end MonitorExport
