import MonitorExport.Store.Build

/-!
Entities that nothing keeps. A collection keeps its members and a reference the entity that it is bound to,
but a member does not keep its owner. What a program has no handle to and no entity keeps is given up, and
with it what it alone kept; so what belonged to it belongs to nothing. Entities that keep one another in a
circle are never given up.

The operations of `MonitorExport.Store.Build` are those of a program that has a handle to everything. Where
an entity can be given up in the midst of an operation, between two writes, there is another form of it here.
A program has a handle to all that it gives to an operation until that ends, and to the owner of a collection
or a reference as long as it has that in hand.
-/

namespace MonitorExport

/-- The entities to which a program has a handle. -/
abbrev Handles := EntityId → Bool

namespace Handles

def all : Handles := fun _ => true

/-- Handles to some entities more. -/
def and (h : Handles) (es : List EntityId) : Handles :=
  fun e => h e || es.contains e

end Handles

/-- The entities that a change has in hand while it waits to be written. -/
def Change.inHand : Change → List EntityId
  | .scalar _ _ => []
  | .members _ candidates => candidates.map (·.entity)
  | .bind _ (.entity e) => [e]
  | .bind _ _ => []

namespace Store

/-- The entities that a slot keeps. -/
def slotKeeps : Slot → List EntityId
  | .scalar _ => []
  | .members entities => entities
  | .binding (.entity e) => [e]
  | .binding _ => []

/-- Whether an entity keeps another as a member or as the target of a reference. -/
def keeps (s : Store) (x y : EntityId) : Bool :=
  (s.entity x).slots.any fun slot => (slotKeeps slot).contains y

def allEntities (s : Store) : List EntityId :=
  (List.range s.entities.size).map EntityId.mk

/-- The entities of a list to which there is a handle, or that another one of the list keeps. -/
def keepOnce (s : Store) (h : Handles) (left : List EntityId) : List EntityId :=
  left.filter fun y => h y || left.any fun x => s.keeps x y

/-- What is left of a list when entities have been given up a number of times. -/
def keepTimes (s : Store) (h : Handles) : Nat → List EntityId → List EntityId
  | 0, left => left
  | n + 1, left => s.keepTimes h n (s.keepOnce h left)

/-- The entities that are not given up. No more rounds are needed than there are entities. -/
def kept (s : Store) (h : Handles) : List EntityId :=
  s.keepTimes h s.entities.size s.allEntities

/-- The entities that are given up. -/
def givenUp (s : Store) (h : Handles) : List EntityId :=
  let kept := s.kept h
  s.allEntities.filter fun e => !kept.contains e

/-- The entities that belong to one that is given up. -/
def orphans (s : Store) (h : Handles) : List EntityId :=
  let givenUp := s.givenUp h
  s.allEntities.filter fun e => (s.owner e).any givenUp.contains

/-- The store after all is given up that nothing keeps: what belonged to it belongs to nothing. -/
def sweep (s : Store) (h : Handles) : Store :=
  (s.orphans h).foldl unlink s

/-- Takes out the members that a change puts others in place of. -/
def vacate (s : Store) (e : EntityId) : Change → Store
  | .members index _ => s.clear ⟨e, index⟩
  | _ => s

/-- Writes changes in order, and gives up after each of them what nothing keeps then. -/
def commitAllHolding (s : Store) (h : Handles) (e : EntityId) : List Change → Store
  | [] => s
  | change :: rest =>
    ((s.commit e false change).sweep (h.and (rest.flatMap Change.inHand))).commitAllHolding h e rest

/-- Assigns a field for a program that has handles. The members that others take the place of are given up
before these are added. -/
def assignHolding (h : Handles) (e : EntityId) (field : String) (input : Input) : Edit Unit := .orRelease do
  let change ← stageField (builderFor [input]) e field input
  Edit.apply fun s => ((s.vacate e change).sweep (h.and change.inHand)).commitAllHolding h e [change]

/-- Hydrates an entity for a program that has handles. -/
def updateHolding (h : Handles) (e : EntityId) (fields : Fields) : Edit Unit := .orRelease do
  let changes ← stageFields (builderFor [.mapping fields]) e fields
  Edit.apply fun s => s.commitAllHolding h e changes

end Store

end MonitorExport
