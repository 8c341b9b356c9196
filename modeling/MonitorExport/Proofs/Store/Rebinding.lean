import MonitorExport.Proofs.Store.Holding
import MonitorExport.Proofs.Store.Identities
import MonitorExport.Proofs.Store.Twins

/-!
# References bound anew

What is read of entities, what they own and how they are named does not depend on what references are bound to. So a
reference can be bound to the identity that it stands for: it stands for that identity as before, and all other
references stand for theirs, as long as what it pointed at is not lost with it.
-/

namespace MonitorExport

/-- A slot without what it is bound to. -/
def Slot.loosed : Slot → Slot
  | .binding _ => .binding .unbound
  | slot => slot

namespace Slot

theorem slotMembers_loosed (slot : Slot) : Store.slotMembers slot.loosed = Store.slotMembers slot := by
  cases slot <;> rfl

theorem shape_loosed (slot : Slot) : slot.loosed.shape = slot.shape := by
  cases slot <;> rfl

end Slot

namespace Store

open Edit

/-- Whether two stores differ in what their references are bound to alone. -/
structure Rebound (s t : Store) : Prop where
  registries : t.registries = s.registries
  size : t.entities.size = s.entities.size
  model : ∀ x, t.model x = s.model x
  parent : ∀ x, t.parent x = s.parent x
  slots : ∀ x, (t.entity x).slots.map Slot.loosed = (s.entity x).slots.map Slot.loosed

variable {s t u : Store} {e x : EntityId} {i : Nat}

theorem lt_of_binding {b : Binding} (hslot : s.slot x i = .binding b) : i < (s.entity x).slots.length :=
  lt_of_slot_ne (by simp [hslot])

namespace Rebound

theorem refl (s : Store) : Rebound s s := ⟨rfl, rfl, fun _ => rfl, fun _ => rfl, fun _ => rfl⟩

theorem trans (h : Rebound s t) (h' : Rebound t u) : Rebound s u where
  registries := h'.registries.trans h.registries
  size := h'.size.trans h.size
  model x := (h'.model x).trans (h.model x)
  parent x := (h'.parent x).trans (h.parent x)
  slots x := (h'.slots x).trans (h.slots x)

theorem rebind {b : Binding} (hslot : s.slot x i = .binding b) (bound : Binding) : Rebound s (s.rebind x i bound) where
  registries := registries_setSlot
  size := size_setSlot
  model _ := model_setSlot
  parent _ := parent_setSlot
  slots y := by
    rw [Store.rebind, setSlot, entity_modify]
    split
    · next hy =>
      have hlt := lt_of_binding hslot
      have hold : (s.entity x).slots[i] = .binding b := by
        rw [← hslot, Store.slot, List.getD_eq_getElem?_getD, List.getElem?_eq_getElem hlt, Option.getD_some]
      rw [hy.1]
      refine List.ext_getElem (by simp) fun j hj hj' => ?_
      simp only [List.getElem_map, List.getElem_set]
      split
      · next hij =>
        subst hij
        rw [hold]
        rfl
      · rfl
    · rfl

variable (h : Rebound s t)

include h

theorem slot (x : EntityId) (i : Nat) : (t.slot x i).loosed = (s.slot x i).loosed := by
  have hi := congrArg (fun slots : List Slot => slots[i]?) (h.slots x)
  simp only [List.getElem?_map] at hi
  simp only [Store.slot, List.getD_eq_getElem?_getD]
  cases ht : (t.entity x).slots[i]? <;> cases hs : (s.entity x).slots[i]? <;> simp_all

theorem resembles (x : EntityId) : Resembles s t x x :=
  ⟨h.model x, fun i => by rw [← Slot.shape_loosed, h.slot, Slot.shape_loosed]⟩

theorem get (x : EntityId) (field : String) : t.get x field = s.get x field :=
  (h.resembles x).get h.registries field

/-! ## Owners -/

theorem owner : t.owner = s.owner := funext fun x => congrArg (Option.map _) (h.parent x)

theorem isDocument : t.isDocument = s.isDocument := funext fun x => (h.resembles x).isDocument h.registries

theorem ancestors (x : EntityId) : t.ancestors x = s.ancestors x := by
  have hwithin (fuel : Nat) : ∀ x, t.ancestorsWithin fuel x = s.ancestorsWithin fuel x := by
    induction fuel with
    | zero => exact fun _ => rfl
    | succ fuel ih =>
        intro x
        simp only [ancestorsWithin, h.owner, h.isDocument, ih]
  rw [Store.ancestors, hwithin, h.size]
  rfl

theorem hostScope (x : EntityId) : t.hostScope x = s.hostScope x := by
  simp only [Store.hostScope, h.ancestors, (h.resembles _).schemaOf h.registries]

theorem stampingHost (x : EntityId) : t.stampingHost x = s.stampingHost x := by
  simp only [Store.stampingHost, documentHost, h.hostScope, h.ancestors, h.owner, h.isDocument]

/-! ## Identities -/

theorem withHost (identity : Identity) (host : Option EntityId) :
    t.withHost identity host = s.withHost identity host := by
  cases host with
  | none => rfl
  | some a => simp only [Store.withHost, h.get]

theorem identity (x : EntityId) : t.identity x = s.identity x := by
  simp only [Store.identity, (h.resembles x).schemaOf h.registries, h.get, h.hostScope, h.withHost]

theorem completed (x : EntityId) (i : Nat) (identity : Identity) :
    t.completed x i identity = s.completed x i identity := by
  have happends : t.appendsHost x i = s.appendsHost x i := by
    rw [appendsHost, (h.resembles x).kind h.registries]
    rfl
  simp only [Store.completed, happends, h.stampingHost, h.withHost]

/-- A reference that is bound as before stands for what it stood for. -/
theorem resolve (hb : t.binding x i = s.binding x i) : t.resolve x i = s.resolve x i := by
  cases hs : s.binding x i with
  | unbound =>
      rw [resolve_unbound hs, resolve_unbound (hb.trans hs), (h.resembles x).schemaOf h.registries,
        (h.resembles x).fieldName h.registries]
  | literal literal => rw [resolve_literal hs, resolve_literal (hb.trans hs), h.completed]
  | entity a =>
      rw [resolve_entity hs, resolve_entity (hb.trans hs), h.identity]
      exact congrArg (s.identity a >>= ·) (funext (h.completed x i))

/-! ## Members -/

theorem subtree (e : EntityId) : t.subtree e = s.subtree e := by
  have hwithin (fuel : Nat) : ∀ above e, t.subtreeWithin fuel above e = s.subtreeWithin fuel above e := by
    induction fuel with
    | zero =>
        intro above e
        have hlength := congrArg List.length (h.slots e)
        simp only [List.length_map] at hlength
        simp only [subtreeWithin, List.map_const', hlength]
    | succ fuel ih =>
        intro above e
        -- a slot is followed by its members alone, which do not change when it is loosed
        have hslots {α : Type} (f : List EntityId → α) :
            (t.entity e).slots.map (fun slot => f (slotMembers slot)) =
              (s.entity e).slots.map fun slot => f (slotMembers slot) := by
          have hmap := congrArg (List.map fun slot => f (slotMembers slot)) (h.slots e)
          simpa only [List.map_map, Function.comp_def, Slot.slotMembers_loosed] using hmap
        have hmembers : t.subtreeWithin fuel (e :: above) = s.subtreeWithin fuel (e :: above) := funext (ih _)
        simp only [subtreeWithin, hmembers]
        exact congrArg (Subtree.node e)
          (hslots fun es => (es.filter fun m => m ∉ e :: above).map (s.subtreeWithin fuel (e :: above)))
  rw [Store.subtree, hwithin, h.size]
  rfl

end Rebound

/-! ## Freezing -/

/-- Binds a reference to the identity that it stands for, given as a mapping, for a program that has handles. -/
def freeze (h : Handles) (r : EntityId × Nat) : Edit Unit := do
  let identity ← Edit.ofRead fun s => s.resolve r.1 r.2
  let _ ← (Operation.bind r.1 r.2 (.ofIdentity identity)).stepHolding h
  return ()

theorem literal_values (refused : String → ConfigError) (pairs : List (String × Value)) (start : Identity) :
    literal refused s (pairs.map fun pair => (pair.1, .value pair.2)) start =
      .ok (pairs.foldl (fun m pair => m.insert pair.1 pair.2) start) := by
  induction pairs generalizing start with
  | nil => rfl
  | cons pair pairs ih => exact ih _

theorem pairs_ofIdentity {identity : Identity} (hn : identity.keys.Nodup) :
    Input.ofIdentity identity = .mapping ⟨identity.pairs.map fun pair => (pair.1, .value pair.2)⟩ := by
  have hkeys : (⟨identity.pairs.map fun pair => (pair.1, .value pair.2)⟩ : Fields).keys.Nodup := by
    simpa [Entries.keys, Function.comp_def] using hn
  rw [Input.ofIdentity, Entries.ofList_pairs hkeys]

/-- An identity with distinct keys that is given as a mapping is taken as it is. -/
theorem coerceBinding_ofIdentity {identity : Identity} (hn : identity.keys.Nodup) :
    s.coerceBinding x i (.ofIdentity identity) = .ok (.literal identity) := by
  rw [pairs_ofIdentity hn]
  simp only [coerceBinding, literal_values]
  exact congrArg (fun m => Except.ok (Binding.literal m)) (Entries.ofList_pairs hn)

/-- A reference that is bound to the identity that it stands for stands for it, and the others stand for theirs. -/
theorem resolve_rebind {b : Binding} {identity : Identity} (hslot : s.slot x i = .binding b)
    (hr : s.resolve x i = .ok identity) (y : EntityId) (j : Nat) :
    (s.rebind x i (.literal identity)).resolve y j = s.resolve y j := by
  have hrebound := Rebound.rebind hslot (.literal identity)
  by_cases hy : y = x ∧ j = i
  · obtain ⟨rfl, rfl⟩ := hy
    have hb : (s.rebind y j (.literal identity)).binding y j = .literal identity := by
      rw [binding, Store.rebind, slot_setSlot, if_pos ⟨rfl, rfl, lt_of_binding hslot⟩]
    rw [resolve_literal hb, hrebound.completed, completed_of_resolve hr, hr]
  · refine hrebound.resolve ?_
    rw [binding, Store.rebind, slot_setSlot, if_neg fun h => hy ⟨h.1, h.2.1⟩]
    rfl

theorem freeze_ok {h : Handles} {identity : Identity} (hn : identity.keys.Nodup) (hr : s.resolve x i = .ok identity) :
    freeze h (x, i) s = (.ok (), (s.rebind x i (.literal identity)).sweep h) := by
  have hread : Edit.ofRead (fun s => s.resolve x i) s = (.ok identity, s) := by rw [Edit.ofRead, hr]
  have hcoerce : Edit.ofRead (fun s => s.coerceBinding x i (.ofIdentity identity)) s =
      (.ok (.literal identity), s) := by
    rw [Edit.ofRead, coerceBinding_ofIdentity hn]
  have hbind : bind x i (.ofIdentity identity) s = (.ok (), s.rebind x i (.literal identity)) := by
    rw [bind, bind_ok hcoerce]
    rfl
  have hperform : (Operation.bind x i (.ofIdentity identity)).perform h s =
      (.ok [], s.rebind x i (.literal identity)) := by
    show (Operation.bind x i (.ofIdentity identity)).step s = _
    rw [Operation.step, bind_ok hbind]
    rfl
  have hstep : (Operation.bind x i (.ofIdentity identity)).stepHolding h s =
      (.ok [], (s.rebind x i (.literal identity)).sweep h) := by
    rw [Operation.stepHolding, hperform]
    simp only [Operation.held, Handles.and_nil]
  rw [freeze, bind_ok hread, bind_ok hstep]
  rfl

theorem slot_of_resolve {identity : Identity} (hr : s.resolve x i = .ok identity) : ∃ b, s.slot x i = .binding b := by
  refine ⟨s.binding x i, slot_of_binding rfl fun hb => ?_⟩
  rw [resolve_unbound hb] at hr
  cases hr

/-- A store with references bound to nothing. -/
def unbind (s : Store) (refs : List (EntityId × Nat)) : Store :=
  refs.foldl (fun s r => s.rebind r.1 r.2 .unbound) s

variable {h : Handles} {refs : List (EntityId × Nat)}

theorem size_unbind : (s.unbind refs).entities.size = s.entities.size :=
  List.foldlRecOn (motive := fun t : Store => t.entities.size = s.entities.size) refs _ rfl fun _ ht _ _ =>
    size_setSlot.trans ht

theorem slot_unbind (hb : ∀ r ∈ refs, ∃ b, s.slot r.1 r.2 = .binding b) :
    (s.unbind refs).slot x i = if (x, i) ∈ refs then .binding .unbound else s.slot x i := by
  induction refs generalizing s with
  | nil => rfl
  | cons r refs ih =>
      obtain ⟨b, hslot⟩ := hb r List.mem_cons_self
      have hrebind : ∀ y j, (s.rebind r.1 r.2 .unbound).slot y j =
          if (y, j) = r then .binding .unbound else s.slot y j := fun y j => by
        rw [rebind, slot_setSlot]
        simp only [lt_of_binding hslot, and_true, Prod.ext_iff]
      have hrest : ∀ r' ∈ refs, ∃ b, (s.rebind r.1 r.2 .unbound).slot r'.1 r'.2 = .binding b := fun r' hr' => by
        rw [hrebind]
        split
        · exact ⟨_, rfl⟩
        · exact hb r' (List.mem_cons_of_mem _ hr')
      show ((s.rebind r.1 r.2 .unbound).unbind refs).slot x i = _
      simp only [ih hrest, hrebind, List.mem_cons]
      by_cases hr : (x, i) = r <;> simp [hr]

/-- Whether of two stores the later one differs in references of a list alone, which keep nothing there, and all
references stand for what they stood for. -/
structure Frozen (refs : List (EntityId × Nat)) (s t : Store) : Prop where
  rebound : Rebound s t
  resolve : ∀ x i, t.resolve x i = s.resolve x i
  slot : ∀ x i, t.slot x i = s.slot x i ∨ (x, i) ∈ refs ∧ slotKeeps (t.slot x i) = []

theorem Frozen.refl : Frozen refs s s := ⟨.refl s, fun _ _ => rfl, fun _ _ => .inl rfl⟩

/-- Nothing belongs to what is lost where references are frozen, if nothing did before and what they pointed at is not
lost without them. -/
theorem Frozen.swept (hf : Frozen refs s t) (hw : s.Swept h) (hb : ∀ r ∈ refs, ∃ b, s.slot r.1 r.2 = .binding b)
    (hk : ∀ r ∈ refs, ∀ y, s.slot r.1 r.2 = .binding (.entity y) → ¬ (s.unbind refs).Lost h y) : t.Swept h := by
  have hfewer : Abandons t h (s.unbind refs) := by
    refine ⟨Nat.le_of_eq (hf.rebound.size.trans size_unbind.symm), fun x y _ hkeeps => ?_⟩
    obtain ⟨i, hi⟩ := keeps_iff.mp hkeeps
    rw [slot_unbind hb] at hi
    split at hi
    · cases hi
    · next hnot => exact keeps_iff.mpr ⟨i, by rwa [(hf.slot x i).resolve_right fun hin => hnot hin.1]⟩
  have hlost : ∀ y, t.Lost h y → s.Lost h y := fun y hl => by
    induction hl with
    | @intro y hy hh hall ih =>
        refine .intro (by rwa [Has, hf.rebound.size] at hy) hh fun x hx => ?_
        obtain ⟨i, hi⟩ := keeps_iff.mp hx
        rcases hf.slot x i with hsame | ⟨hmem, _⟩
        · exact ih x (keeps_iff.mpr ⟨i, by rwa [hsame]⟩)
        · -- then a frozen reference pointed at the entity, which is lost without that
          obtain ⟨b, hslot⟩ := hb _ hmem
          rw [hslot] at hi
          cases b with
          | entity z =>
              cases List.mem_singleton.mp hi
              have hl : t.Lost h y := .intro hy hh hall
              exact absurd (hl.of_abandons hfewer fun _ => not_lost_of_handle) (hk _ hmem y hslot)
          | unbound => cases hi
          | literal _ => cases hi
  exact fun x c hp hl => hw x c (hf.rebound.parent x ▸ hp) (hlost _ hl)

/-- References that stand for something can all be frozen, if what they point at is not lost without them. -/
theorem freezeAll_ok (hs : s.Typed) (hw : s.Swept h) (hr : ∀ r ∈ refs, ∃ identity, s.resolve r.1 r.2 = .ok identity)
    (hk : ∀ r ∈ refs, ∀ y, s.slot r.1 r.2 = .binding (.entity y) → ¬ (s.unbind refs).Lost h y) :
    ∃ t, forM refs (freeze h) s = (.ok (), t) ∧ Frozen refs s t := by
  have hb : ∀ r ∈ refs, ∃ b, s.slot r.1 r.2 = .binding b := fun r hmem => by
    obtain ⟨_, hok⟩ := hr r hmem
    exact slot_of_resolve hok
  suffices key : ∀ rest, (∀ r ∈ rest, r ∈ refs) → ∀ t, Frozen refs s t →
      ∃ u, forM rest (freeze h) t = (.ok (), u) ∧ Frozen refs s u from key refs (fun _ => id) s .refl
  -- each reference is frozen in a store where the ones before it are frozen already
  intro rest
  induction rest with
  | nil => exact fun _ t ht => ⟨t, rfl, ht⟩
  | cons r rest ih =>
      intro hsub t ht
      obtain ⟨hmem, hrest⟩ := List.forall_mem_cons.mp hsub
      obtain ⟨identity, hok⟩ := hr r hmem
      have hok' : t.resolve r.1 r.2 = .ok identity := (ht.resolve r.1 r.2).trans hok
      obtain ⟨b, hslot⟩ := slot_of_resolve hok'
      have hnext : Frozen refs s (t.rebind r.1 r.2 (.literal identity)) := by
        refine ⟨ht.rebound.trans (.rebind hslot _), fun y j => (resolve_rebind hslot hok' y j).trans (ht.resolve y j),
          fun y j => ?_⟩
        rw [rebind, slot_setSlot]
        split
        · next hy => exact .inr ⟨by rwa [hy.1, hy.2.1], rfl⟩
        · exact ht.slot y j
      have hstep := freeze_ok (h := h) (nodup_resolve hs hok) hok'
      rw [(hnext.swept hw hb hk).sweep_eq] at hstep
      obtain ⟨u, hu, hfrozen⟩ := ih hrest _ hnext
      refine ⟨u, ?_, hfrozen⟩
      rw [List.forM_cons, bind_ok hstep]
      exact hu

end Store

end MonitorExport
