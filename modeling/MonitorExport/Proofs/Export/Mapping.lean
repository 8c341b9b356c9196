import MonitorExport.Export.Compiler

/-!
# Mapping an entity

The elements of an entity are put together from those of its scalars and references. What holds of all
elements is shown once for the mapping as a whole, from what holds of these, and so is what can make the
mapping fail.
-/

namespace MonitorExport

variable {α β : Type} {post : α → Prop} {post' : β → Prop} {fail : ConfigError → Prop}

/-- Whether a result is as wanted, or fails as expected. -/
def Yields (post : α → Prop) (fail : ConfigError → Prop) : Except ConfigError α → Prop
  | .ok a => post a
  | .error err => fail err

namespace Yields

theorem bind {r : Except ConfigError α} {f : α → Except ConfigError β} (h : Yields post fail r)
    (hf : ∀ a, post a → Yields post' fail (f a)) : Yields post' fail (r >>= f) := by
  cases r with
  | error err => exact h
  | ok a => exact hf a h

theorem map {r : Except ConfigError α} {f : α → β} (h : Yields post fail r) (hf : ∀ a, post a → post' (f a)) :
    Yields post' fail (r.map f) := by
  cases r with
  | error err => exact h
  | ok a => exact hf a h

end Yields

/-- Whether a step of a mapping yields what is wanted from any palette. -/
def YieldsDrawing (post : α → Prop) (fail : ConfigError → Prop) (d : Drawing α) : Prop :=
  ∀ palette, Yields (fun p => post p.1) fail (d palette)

namespace YieldsDrawing

theorem pure {a : α} (h : post a) : YieldsDrawing post fail (Pure.pure a) := fun _ => h

theorem bind {d : Drawing α} {f : α → Drawing β} (h : YieldsDrawing post fail d)
    (hf : ∀ a, post a → YieldsDrawing post' fail (f a)) : YieldsDrawing post' fail (d >>= f) :=
  fun palette => (h palette).bind fun p hp => hf p.1 hp p.2

theorem map {d : Drawing α} {f : α → β} (h : YieldsDrawing post fail d) (hf : ∀ a, post a → post' (f a)) :
    YieldsDrawing post' fail (f <$> d) := by
  rw [map_eq_pure_bind]
  exact h.bind fun a ha => pure (hf a ha)

theorem lift {r : Except ConfigError α} (h : Yields post fail r) : YieldsDrawing post fail (liftM r) := fun _ =>
  h.bind fun _ ha => ha

end YieldsDrawing

abbrev All (good : Node → Prop) (nodes : List Node) : Prop := ∀ n ∈ nodes, good n

namespace Mapping

/-- What the parts of a mapping yield: their elements are good, and a good element can be made of good ones. -/
structure Law (s : Store) (good : Node → Prop) (fail : ConfigError → Prop) : Prop where
  scalar : ∀ e index overrides, YieldsDrawing (All good) fail (scalarNodes s e index overrides)
  reference : ∀ e index, Yields good fail (referenceNode s e index)
  width : ∀ e a, Yields (fun _ => True) fail (arrangementWidth s e a)
  element : ∀ tag children, All good children → good (Node.ofChildren tag children)

variable {s : Store} {good : Node → Prop}

theorem all_append {ns ms : List Node} (h : All good ns) (h' : All good ms) : All good (ns ++ ms) :=
  List.forall_mem_append.mpr ⟨h, h'⟩

theorem collectionNodes_all (h : Law s good fail) (e : EntityId) (index : Nat) {members : List Node}
    (hm : All good members) : All good (collectionNodes s e index members) := by
  unfold collectionNodes
  split
  · simp [All]
  · exact fun n hn => List.mem_singleton.mp hn ▸ h.element _ _ hm

theorem slotNodes_yields (h : Law s good fail) (e : EntityId) (index : Nat) (overrides : Overrides)
    {members : Drawing (List Node)} (hm : YieldsDrawing (All good) fail members) :
    YieldsDrawing (All good) fail (slotNodes s e index overrides members) := by
  unfold slotNodes
  split
  · exact h.scalar e index overrides
  · exact (YieldsDrawing.lift (h.reference e index)).map fun n hn => by simpa [All] using hn
  · exact hm.map fun ns hns => collectionNodes_all h e index hns

mutual

/-- The elements of an entity are good, whatever it owns. -/
theorem entityNodes_yields (h : Law s good fail) (overrides : Overrides) :
    (t : Subtree) → YieldsDrawing (All good) fail (entityNodes s overrides t)
  | .node e branches => by
      unfold entityNodes
      refine YieldsDrawing.bind (fieldNodes_yields h e overrides _ 0 branches) fun nodes hnodes => ?_
      split
      · split
        · refine YieldsDrawing.bind (.lift (h.width e _)) fun width _ => ?_
          refine YieldsDrawing.bind (branchNodes_yields h _ _ _ branches) fun members hm => .pure ?_
          exact all_append hnodes (collectionNodes_all h e _ hm)
        · exact .pure hnodes
      · exact .pure hnodes

theorem fieldNodes_yields (h : Law s good fail) (e : EntityId) (overrides : Overrides) (arranged : Option Nat)
    (index : Nat) : (bs : List (List Subtree)) →
      YieldsDrawing (All good) fail (fieldNodes s e overrides arranged index bs)
  | [] => .pure (by simp [All])
  | members :: rest => by
      have hrest : ∀ here : List Node, All good here → YieldsDrawing (All good) fail (do
          return here ++ (← fieldNodes s e overrides arranged (index + 1) rest)) := fun here hhere =>
        YieldsDrawing.bind (fieldNodes_yields h e overrides arranged _ rest) fun _ hns => .pure (all_append hhere hns)
      have hhere := slotNodes_yields h e index overrides
        (memberNodes_yields h (memberTag? s e index) (fun _ => []) 0 members)
      unfold fieldNodes
      dsimp only
      split
      · exact hrest [] (by simp [All])
      · exact hhere.bind hrest

theorem branchNodes_yields (h : Law s good fail) (tag : Option String) (overrides : Nat → Overrides) :
    (index : Nat) → (bs : List (List Subtree)) → YieldsDrawing (All good) fail (branchNodes s tag overrides index bs)
  | 0, [] => .pure (by simp [All])
  | _ + 1, [] => .pure (by simp [All])
  | 0, members :: _ => memberNodes_yields h tag overrides 0 members
  | index + 1, _ :: rest => branchNodes_yields h tag overrides index rest

theorem memberNodes_yields (h : Law s good fail) (tag : Option String) (overrides : Nat → Overrides) (k : Nat) :
    (ts : List Subtree) → YieldsDrawing (All good) fail (memberNodes s tag overrides k ts)
  | [] => .pure (by simp [All])
  | t :: rest => by
      unfold memberNodes
      refine YieldsDrawing.bind (entityNodes_yields h _ t) fun children hchildren => ?_
      refine YieldsDrawing.bind (memberNodes_yields h tag overrides _ rest) fun ns hns => .pure ?_
      exact List.forall_mem_cons.mpr ⟨h.element _ _ hchildren, hns⟩

end

end Mapping

end MonitorExport
