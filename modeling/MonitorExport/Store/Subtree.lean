import MonitorExport.Store.Identity

/-!
The tree of what an entity owns. Searching, copying and compiling an entity follow this tree.
-/

namespace MonitorExport

/-- An entity with, for each slot of its table, the trees of the members held there. -/
inductive Subtree where
  | node (entity : EntityId) (branches : List (List Subtree))

namespace Subtree

def root : Subtree → EntityId
  | .node e _ => e

mutual

/-- The entities of a tree: the root first, then the members in order, each with what it owns. -/
def preorder : Subtree → List EntityId
  | .node e branches => e :: preorderOfBranches branches

/-- The entities of branches in order. -/
def preorderOfBranches : List (List Subtree) → List EntityId
  | [] => []
  | members :: rest => preorderOfMembers members ++ preorderOfBranches rest

/-- The entities of members in order. -/
def preorderOfMembers : List Subtree → List EntityId
  | [] => []
  | t :: rest => preorder t ++ preorderOfMembers rest

end

end Subtree

namespace Store

/-- The entities of a slot. -/
def slotMembers : Slot → List EntityId
  | .members entities => entities
  | _ => []

/-- The tree of an entity below the entities `above`, at most `fuel` deep. A member that is above its
owner is left out. -/
def subtreeWithin (s : Store) : Nat → List EntityId → EntityId → Subtree
  | 0, _, e => .node e ((s.entity e).slots.map fun _ => [])
  | fuel + 1, above, e =>
    .node e ((s.entity e).slots.map fun slot =>
      ((slotMembers slot).filter fun m => m ∉ e :: above).map (s.subtreeWithin fuel (e :: above)))

/-- The tree of what an entity owns. It is no deeper than there are entities. -/
def subtree (s : Store) (e : EntityId) : Subtree :=
  s.subtreeWithin s.entities.size [] e

def addDistinct (s : Store) (found : List EntityId) (e : EntityId) : List EntityId :=
  if found.any (s.sameIdentity · e) then found else found ++ [e]

mutual

/-- The entities of a tree that are of a model or its subtypes, behind those that were found before. One that is equal to
an entity found before is left out. -/
def collect (s : Store) (m : ModelId) (found : List EntityId) : Subtree → List EntityId
  | .node e branches =>
    s.collectBranches m (if s.isA (s.model e) m then s.addDistinct found e else found) branches

/-- What is found in branches in order. -/
def collectBranches (s : Store) (m : ModelId) (found : List EntityId) : List (List Subtree) → List EntityId
  | [] => found
  | members :: rest => s.collectBranches m (s.collectMembers m found members) rest

/-- What is found in members in order. -/
def collectMembers (s : Store) (m : ModelId) (found : List EntityId) : List Subtree → List EntityId
  | [] => found
  | t :: rest => s.collectMembers m (s.collect m found t) rest

end

/-- The entities of a model and its subtypes at or below an entity, in the order of the tree, without
those equal to an earlier one. -/
def extract (s : Store) (e : EntityId) (m : ModelId) : List EntityId :=
  s.collect m [] (s.subtree e)

end Store

end MonitorExport
