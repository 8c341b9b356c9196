import MonitorExport.Proofs.Store.Holding

/-!
# Ownership

What links and members are in every store that a program reaches, and what an operation on one collection
does to all others: nothing, since an entity that belongs elsewhere is copied and not moved.
-/

namespace MonitorExport

namespace Operation

variable {s : Store} {op : Operation} {c : CollectionId} {e : EntityId}

/-- A slot that is there and is not one that an operation is for is out of its scope. -/
theorem not_writes (hc : s.Has c.owner) (ht : ¬ op.Targets s c) : ¬ (op.scope s).writes c :=
  not_or.mpr ⟨Nat.not_le.mpr hc, ht⟩

end Operation

namespace Store

variable {s : Store} {h : Handles}

theorem Linked.unique (hs : s.Linked) {e : EntityId} {c d : CollectionId} (hc : e ∈ s.members c)
    (hd : e ∈ s.members d) : c = d :=
  Option.some.inj ((hs.mem_iff.mp hc).symm.trans (hs.mem_iff.mp hd))

/-- A registry of one model, the entities of which hold entities of that model. -/
def nodeRegistry : Registry where
  models := [{ ModelSchema.blank with
    name := "Node"
    fields := [⟨"Nodes", 0, .set "Node" false none, some 0, none, [], none, []⟩]
    lineage := [0] }]

def makeNode : Operation := .build ⟨0, 0⟩ .null .empty

/-- Adds the node `m` to the members of the node `n`. -/
def addNode (n m : Nat) : Operation := .add ⟨⟨n⟩, 0⟩ (.entity ⟨m⟩)

theorem nodeRegistry_namesGiven : ∀ r ∈ [nodeRegistry], r.NamesGiven := by
  simp [nodeRegistry, Registry.NamesGiven, ModelSchema.blank]

theorem makeNode_valid : makeNode.Valid s := Operation.build_valid fun x hx => by
  obtain ⟨_, hmem, _⟩ := namedIn_iff.mp hx
  cases hmem

theorem addNode_valid {n m : Nat} (hc : s.IsCollection ⟨⟨n⟩, 0⟩) (hm : s.Has ⟨m⟩) : (addNode n m).Valid s := by
  refine ⟨hc, fun x hx => ?_⟩
  cases hx
  exact hm

/-- A store with two nodes, neither of which belongs to anything. -/
def twoNodes : Store := (makeNode.step (makeNode.step (.ofRegistries [nodeRegistry])).2).2

theorem twoNodes_reachable : Reachable twoNodes :=
  .step (.step (.start nodeRegistry_namesGiven) makeNode_valid trivial) makeNode_valid trivial

/-- A store in which a node holds a node, and that one holds another. -/
def nested : Store := ((addNode 1 2).step ((addNode 0 1).step (makeNode.step twoNodes).2).2).2

/-- Puts the innermost node in the place of the one between. -/
def promote : Operation := .assign ⟨0⟩ "Nodes" (.list [.entity ⟨2⟩])

-- with a handle to the node between, the innermost one still belongs to it and is copied; without, it belongs to
-- nothing once that node is given up
example : (promote.step nested).2.members ⟨⟨0⟩, 0⟩ = [⟨3⟩] ∧
    (promote.stepHolding (fun e => e != ⟨1⟩) nested).2.members ⟨⟨0⟩, 0⟩ = [⟨2⟩] := by
  decide

end Store

end MonitorExport
