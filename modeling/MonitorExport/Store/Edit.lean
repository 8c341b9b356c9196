import MonitorExport.Store.Subtree

/-!
Changes of the store that cannot fail: attaching members to collections, detaching them, copying entities
with all they own, and giving up entities that were made and are not used. Attaching keeps members
distinct, and an entity that belongs to another collection is copied, not moved.
-/

namespace MonitorExport.Store

def link (s : Store) (c : CollectionId) (e : EntityId) : Store :=
  (s.setParent e (some c)).setSlot c.owner c.field (.members (s.members c ++ [e]))

/-- Attaches an entity that belongs to no other collection, unless an equal member is there. Returns
the member that is in the collection then. -/
def place (s : Store) (c : CollectionId) (e : EntityId) : Store × EntityId :=
  match (s.members c).find? (s.sameIdentity · e) with
  | some m => (s, m)
  | none => (s.link c e, e)

/-- The slot of a copy before its members are copied: no members, and all else as in the source. -/
def copySlot : Slot → Slot
  | .members _ => .members []
  | slot => slot

/-- A new entity with the scalars and bindings of another, and no members yet. -/
def copyAlone (s : Store) (e : EntityId) : Store × EntityId :=
  ({ s with entities := s.entities.push ⟨s.model e, (s.entity e).slots.map copySlot, none⟩ },
    ⟨s.entities.size⟩)

mutual

/-- Copies a tree of entities. Returns the copy of its root. -/
def copyTree (s : Store) : Subtree → Store × EntityId
  | .node e branches =>
    let (s, copy) := s.copyAlone e
    (copyBranches s copy 0 branches, copy)

/-- Copies the members held in the slots from `field` on. -/
def copyBranches (s : Store) (copy : EntityId) (field : Nat) : List (List Subtree) → Store
  | [] => s
  | members :: rest => copyBranches (copyMembers s ⟨copy, field⟩ members) copy (field + 1) rest

/-- Copies members into a collection. -/
def copyMembers (s : Store) (c : CollectionId) : List Subtree → Store
  | [] => s
  | t :: rest =>
    let (s, m) := copyTree s t
    copyMembers (s.place c m).1 c rest

end

/-- Copies an entity with all it owns. The copy belongs to no collection. -/
def duplicate (s : Store) (e : EntityId) : Store × EntityId :=
  s.copyTree (s.subtree e)

/-- Detaches an entity from the collection that it belongs to. -/
def unlink (s : Store) (e : EntityId) : Store :=
  match s.parent e with
  | none => s
  | some c => (s.setSlot c.owner c.field (.members ((s.members c).erase e))).setParent e none

/-- Whether an entity is older than the entities from `start` on, and belongs to one of them. -/
def isLent (s : Store) (start : Nat) (e : EntityId) : Bool :=
  e.index < start && ((s.owner e).map fun o => decide (start ≤ o.index)).getD false

/-- Gives up a new entity with all that was made for it. Entities are numbered as they are made, the
owner before its members; so what is older than the entity and belongs to it, or to a member of it, was
lent to it, and belongs to nothing again. -/
def release (s : Store) (e : EntityId) : Store :=
  ((s.subtree e).preorder.filter (s.isLent e.index)).foldl unlink s

def releaseSince (s : Store) (start : Nat) : Store :=
  (((List.range start).map EntityId.mk).filter (s.isLent start)).foldl unlink s

/-- An entity that is to become a member of a collection, and whether it was made for that alone. -/
structure Candidate where
  entity : EntityId
  isNew : Bool

/-- Attaches a new entity, or gives it up if an equal member is there. Returns the member that is in the
collection then. -/
def placeNew (s : Store) (c : CollectionId) (e : EntityId) : Store × EntityId :=
  match (s.members c).find? (s.sameIdentity · e) with
  | some m => (s.release e, m)
  | none => (s.link c e, e)

/-- Attaches an entity that is in use to a collection, or a copy of it if it belongs to another one,
unless an equal member is there. Returns the member that is in the collection then. -/
def insertGiven (s : Store) (c : CollectionId) (e : EntityId) : Store × EntityId :=
  match s.parent e with
  | none => s.place c e
  | some p =>
    if p = c then s.place c e
    else
      let (s, copy) := s.duplicate e
      s.place c copy

/-- Attaches a candidate to a collection, unless an equal member is there. Returns the member that is in
the collection then. -/
def insert (s : Store) (c : CollectionId) (x : Candidate) : Store × EntityId :=
  if x.isNew then s.placeNew c x.entity else s.insertGiven c x.entity

/-- Attaches candidates in order. Returns the members that are in the collection for them. -/
def insertAll (s : Store) (c : CollectionId) : List Candidate → Store × List EntityId
  | [] => (s, [])
  | x :: rest =>
    let (s, m) := s.insert c x
    let (s, ms) := s.insertAll c rest
    (s, m :: ms)

/-- Detaches the first member equal to an entity. Returns whether there was one. -/
def detach (s : Store) (c : CollectionId) (e : EntityId) : Store × Bool :=
  match (s.members c).find? (s.sameIdentity · e) with
  | none => (s, false)
  | some m =>
    ((s.setSlot c.owner c.field (.members ((s.members c).erase m))).setParent m none, true)

def clear (s : Store) (c : CollectionId) : Store :=
  (s.members c).foldl (fun s m => s.setParent m none) (s.setSlot c.owner c.field (.members []))

def holds (s : Store) (c : CollectionId) (e : EntityId) : Bool :=
  (s.members c).any (s.sameIdentity · e)

def rebind (s : Store) (e : EntityId) (index : Nat) (bound : Binding) : Store :=
  s.setSlot e index (.binding bound)

end MonitorExport.Store
