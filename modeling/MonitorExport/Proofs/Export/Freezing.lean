import MonitorExport.Proofs.Catalogue.Hosts
import MonitorExport.Proofs.Export.Duplicates
import MonitorExport.Proofs.Store.Rebinding

/-!
# Freezing references

The references at or below an entity that compiles all stand for something, but for one that its model names as the
collection to lay out, which is left out. They can be bound to what they stand for, and the entity compiles to the same
tree, as long as nothing is lost that they pointed at.
-/

namespace MonitorExport

namespace Mapping

open Store Subtree

variable {s : Store} {post : Overrides → Subtree → List Node → Prop} {e : EntityId} {overrides : Overrides}
  {arranged : Option Nat} {index i : Nat} {ts : List Subtree} {bs : List (List Subtree)} {ns : List Node}

/-! ## References that were mapped -/

theorem Parts.part (h : Parts s post e overrides arranged index bs ns) (hi : bs[i]? = some ts)
    (ha : arranged ≠ some (index + i)) : ∃ here, Part s post e overrides (index + i) ts here := by
  induction h generalizing i with
  | nil => cases hi
  | skip hskip _ ih =>
      cases i with
      | zero => exact absurd hskip ha
      | succ i =>
          rw [Nat.add_succ, ← Nat.succ_add] at ha ⊢
          exact ih hi ha
  | cons _ hp _ ih =>
      cases i with
      | zero =>
          cases hi
          exact ⟨_, hp⟩
      | succ i =>
          rw [Nat.add_succ, ← Nat.succ_add] at ha ⊢
          exact ih hi ha

theorem Rows.of_mem {tag : Option String} {ov : Nat → Overrides} {k : Nat} (h : Rows s post tag ov k ts ns)
    {t : Subtree} (ht : t ∈ ts) : ∃ k' children, post (ov k') t children := by
  induction h with
  | nil => cases ht
  | cons hpost _ ih =>
      rcases List.mem_cons.mp ht with rfl | ht
      · exact ⟨_, _, hpost⟩
      · exact ih ht

/-- Whether a reference of an entity is one that its model names as the collection to lay out. -/
def Omitted (s : Store) (x : EntityId) (i : Nat) : Prop := arrangedIndex? (s.schemaOf x) = some i

instance (s : Store) (x : EntityId) (i : Nat) : Decidable (Omitted s x i) :=
  inferInstanceAs (Decidable (_ = _))

/-- Whether the references of a tree stand for something, but for those that are left out. -/
def Standing (s : Store) (_ : Overrides) (t : Subtree) (_ : List Node) : Prop :=
  t.Whole s → ∀ x ∈ t.preorder, ∀ i b, s.slot x i = .binding b → ¬ Omitted s x i →
    ∃ identity, s.resolve x i = .ok identity

theorem referenceNode_resolve {n : Node} (h : referenceNode s e i = .ok n) :
    ∃ identity, s.resolve e i = .ok identity := by
  unfold referenceNode at h
  cases hr : s.resolve e i with
  | ok identity => exact ⟨identity, rfl⟩
  | error err =>
      rw [hr] at h
      cases h

/-- What is mapped of a member holds of all that was mapped, whether its collection is laid out or not. -/
theorem assembled_member (hw : (Subtree.node e bs).Whole s) (ha : Assembled s post overrides (.node e bs) ns)
    (hts : bs[i]? = some ts) {t : Subtree} (ht : t ∈ ts) : ∃ ov children, post ov t children := by
  have hmem : t.root ∈ s.members ⟨e, i⟩ := roots_of_whole hw hts ▸ List.mem_map_of_mem ht
  obtain ⟨es, hslot⟩ := Slot.exists_members (IsCollection.of_mem hmem)
  cases ha with
  | @node _ _ fields last hparts hlast =>
      by_cases harranged : arrangedIndex? (s.schemaOf e) = some i
      · cases hlast with
        | none hno =>
            obtain ⟨a, ha, _⟩ := Option.bind_eq_some_iff.mp harranged
            exact absurd hslot (hno i a harranged ha es)
        | members hi _ _ _ hrows =>
            cases harranged.symm.trans hi
            rw [List.getD_eq_getElem?_getD, hts] at hrows
            obtain ⟨k, children, hpost⟩ := hrows.of_mem ht
            exact ⟨_, children, hpost⟩
      · obtain ⟨here, hpart⟩ := hparts.part hts (by rwa [Nat.zero_add])
        rw [Nat.zero_add] at hpart
        cases hpart with
        | scalar hno => rw [hslot] at hno; cases hno
        | reference hno => rw [hslot] at hno; cases hno
        | members _ hrows =>
            obtain ⟨k, children, hpost⟩ := hrows.of_mem ht
            exact ⟨_, children, hpost⟩

theorem standing : Assembles s (Standing s) := by
  intro overrides t ns ha hw x hx i b hslot hn
  cases t with
  | node e bs =>
      rcases mem_preorder.mp hx with rfl | ⟨ts, hts, t, ht, hx⟩
      · have hlt : i < bs.length := by
          rw [hw.length_slots]
          exact lt_of_binding hslot
        cases ha with
        | @node _ _ fields last hparts hlast =>
            obtain ⟨here, hpart⟩ := hparts.part (List.getElem?_eq_getElem hlt) (by rwa [Nat.zero_add])
            rw [Nat.zero_add] at hpart
            cases hpart with
            | scalar hno => rw [hslot] at hno; cases hno
            | members hno => rw [hslot] at hno; cases hno
            | reference _ h => exact referenceNode_resolve h
      · obtain ⟨j, hj⟩ := List.getElem?_of_mem hts
        obtain ⟨ov, children, hpost⟩ := assembled_member hw ha hj ht
        exact hpost (hw.member hts ht) x hx i b hslot hn

end Mapping

namespace Compiler

open Store Catalogue

variable {s t : Store} {h : Handles} {e : EntityId} {c : Compiler} {root : Node}

/-! ## Compiling what is bound anew -/

theorem compile_rebound (h : Rebound s t) (hr : ∀ x i, t.resolve x i = s.resolve x i) (c : Compiler) (e : EntityId) :
    c.compile t e = c.compile s e := by
  have halike : Mapping.Alike s t Eq :=
    ⟨h.registries, fun hxy => hxy ▸ h.resembles _, fun hxy i => hxy ▸ hr _ i⟩
  refine compile_matched halike ?_ c
  rw [h.subtree]
  exact .refl (fun _ => rfl) _

/-- The references at or below an entity that compiles stand for something, but for those that are left out. -/
theorem resolves_of_compile (hs : s.Linked) (hf : Finishes s.owner e) (hc : c.compile s e = .ok root) {x : EntityId}
    {i : Nat} {b : Binding} (hx : s.AtOrAbove x e) (hslot : s.slot x i = .binding b) (hn : ¬ Mapping.Omitted s x i) :
    ∃ identity, s.resolve x i = .ok identity := by
  have hw := subtree_whole_of_finishes hs hf
  have hassembled := Mapping.entityNodes_assembled (Mapping.standing (s := s)) [] (s.subtree e) c.palette.reset
  cases hnodes : Mapping.entityNodes s [] (s.subtree e) c.palette.reset with
  | error err =>
      have hfail : c.mapRoot s e = .error err := by
        rw [mapRoot]
        exact congrArg (· >>= _) hnodes
      rw [compile, hfail] at hc
      cases hc
  | ok p =>
      rw [hnodes] at hassembled
      refine Mapping.standing _ _ _ hassembled hw x ?_ i b hslot hn
      rw [mem_preorder_of_whole hs hw, Subtree.root_subtree]
      exact hx

/-- Any references at or below an entity that compiles can be bound to what they stand for, given as a mapping, if what
they point at is not lost without them. Then all references stand for what they stood for, and the entity compiles to
the same tree, but for the date of a document if the time is not pinned. -/
theorem compile_freeze (hr : Reaches s h) (hf : Finishes s.owner e) (hc : c.compile s e = .ok root)
    {refs : List (EntityId × Nat)} (hrefs : ∀ r ∈ refs, s.AtOrAbove r.1 e ∧ (∃ b, s.slot r.1 r.2 = .binding b) ∧
      (Mapping.Omitted s r.1 r.2 → ∃ identity, s.resolve r.1 r.2 = .ok identity))
    (hk : ∀ r ∈ refs, ∀ y, s.slot r.1 r.2 = .binding (.entity y) → ¬ (s.unbind refs).Lost h y) :
    ∃ t, forM refs (freeze h) s = (.ok (), t) ∧ c.Repeats s e t e ∧ ∀ x i, t.resolve x i = s.resolve x i := by
  have hresolves : ∀ r ∈ refs, ∃ identity, s.resolve r.1 r.2 = .ok identity := fun r hmem => by
    obtain ⟨hx, ⟨b, hslot⟩, homitted⟩ := hrefs r hmem
    by_cases ho : Mapping.Omitted s r.1 r.2
    · exact homitted ho
    · exact resolves_of_compile hr.linked hf hc hx hslot ho
  obtain ⟨t, ht, hfrozen⟩ := freezeAll_ok hr.linked.typed hr.swept hresolves hk
  exact ⟨t, ht, .of_compile (fun c => compile_rebound hfrozen.rebound hfrozen.resolve c e) c, hfrozen.resolve⟩

theorem board_compiles : (newYear.compile board ⟨0⟩).toOption.isSome = true ∧ board.owner ⟨2⟩ = some ⟨1⟩ ∧
    board.owner ⟨1⟩ = some ⟨0⟩ ∧ ¬ Mapping.Omitted board ⟨2⟩ 7 := by
  rw [board, registry_eq]
  decide +kernel

theorem compile_freeze_board : ∃ root t, newYear.compile board ⟨0⟩ = .ok root ∧
    forM [(⟨2⟩, 7)] (freeze .all) board = (.ok (), t) ∧ newYear.compile t ⟨0⟩ = .ok root := by
  obtain ⟨hok, hitem, hscreen, hnot⟩ := board_compiles
  have hslot : ∃ b, board.slot ⟨2⟩ 7 = .binding b := ⟨_, slot_of_binding board_resolves.1 (by simp)⟩
  have hup : board.AtOrAbove ⟨2⟩ ⟨0⟩ := .head hitem (.single hscreen)
  have hrefs : ∀ r ∈ [((⟨2⟩ : EntityId), 7)], board.AtOrAbove r.1 ⟨0⟩ ∧ (∃ b, board.slot r.1 r.2 = .binding b) ∧
      (Mapping.Omitted board r.1 r.2 → ∃ identity, board.resolve r.1 r.2 = .ok identity) :=
    List.forall_mem_singleton.mpr ⟨hup, hslot, fun ho => absurd ho hnot⟩
  have hreaches : Reaches board .all := board_reachable.reaches fun _ _ _ => trivial
  cases hc : newYear.compile board ⟨0⟩ with
  | error err =>
      rw [hc] at hok
      cases hok
  | ok root =>
      obtain ⟨t, ht, hrepeats, _⟩ := compile_freeze hreaches (board_forest ⟨0⟩) hc hrefs fun _ _ _ _ => not_lost_all
      exact ⟨root, t, rfl, ht, (hrepeats.same newYear.clock newYear.clock (.inl rfl)).trans hc⟩

/-! ## A reference that is left out -/

/-- Queues that point at the task that is first, and name this reference as the collection to lay out. -/
def queueDecls : List ModelDecl := ModelDecl.number [
  { name := "Queue", fields := [("first", .reference "Task")], arrangement := some (.sequence "first" "place") },
  { name := "Task", fields := [("name", .plain)] }]

def queueRegistry : Registry := ⟨(Registry.resolveInOrder queueDecls 0 queueDecls).toOption.getD []⟩

theorem queueRegistry_eq : Registry.ofDecls queueDecls = .ok queueRegistry :=
  Registry.ofDecls_eq (by decide) (by decide) (by decide)

theorem queueRegistry_namesGiven : queueRegistry.NamesGiven :=
  Registry.namesGiven_of_unprepared queueRegistry_eq (by simp [queueDecls, ModelDecl.number, ModelDecl.numberFrom])

def makeQueue : Operation := .build ⟨0, 0⟩ .null .empty

def queue : Store := (makeQueue.step (.ofRegistries [queueRegistry])).2

theorem queue_valid : makeQueue.Valid (.ofRegistries [queueRegistry]) := Operation.build_valid fun x hx => by
  simp [namedIn_iff, Entries.empty] at hx

theorem queue_reachable : Reachable queue :=
  .step (.start (List.forall_mem_singleton.mpr queueRegistry_namesGiven)) queue_valid trivial

theorem eq_ok_of_toOption {result : Except ConfigError Node} (hroot : result.toOption = some root) :
    result = .ok root := by
  cases result with
  | ok _ =>
      cases hroot
      rfl
  | error _ => cases hroot

/-- Whether a slot is a reference. -/
def isReference : Slot → Bool
  | .binding _ => true
  | _ => false

theorem exists_binding {slot : Slot} (hslot : isReference slot = true) : ∃ b, slot = .binding b := by
  cases slot with
  | binding b => exact ⟨b, rfl⟩
  | scalar _ => cases hslot
  | members _ => cases hslot

theorem queue_check : ((unpruned nextDay).compile queue ⟨0⟩).toOption.isSome = true ∧ queue.owner ⟨0⟩ = none ∧
    isReference (queue.slot ⟨0⟩ 0) = true ∧ (freeze .all (⟨0⟩, 0) queue).1.toOption.isSome = false := by
  decide

/-- An entity can compile although a reference of it stands for nothing: one that its model names as the collection to
lay out is left out. -/
theorem queue_unfrozen : ∃ root, (unpruned nextDay).compile queue ⟨0⟩ = .ok root ∧
    ∀ t, forM [(⟨0⟩, 0)] (freeze .all) queue ≠ (.ok (), t) := by
  obtain ⟨hok, _, _, hfails⟩ := queue_check
  obtain ⟨root, hroot⟩ := Option.isSome_iff_exists.mp hok
  refine ⟨root, eq_ok_of_toOption hroot, fun t ht => ?_⟩
  rw [List.forM_cons] at ht
  cases hr : freeze .all (⟨0⟩, 0) queue with
  | mk result after =>
      cases result with
      | error err =>
          rw [Edit.bind_error hr] at ht
          cases ht
      | ok _ =>
          rw [hr] at hfails
          cases hfails

/-! ## A target that is lost -/

/-- Areas that hold sites. These hold sites and point at sites, and complete what points at the sites in them. -/
def siteDecls : List ModelDecl := ModelDecl.number [
  { name := "Area", fields := [("sites", .set "Site")] },
  { name := "Site", fields := [("name", .plain), ("sites", .set "Site"), ("link", .reference "Site")]
    reference := some ⟨"name", "name"⟩, hostScope := some true }]

def siteRegistry : Registry := ⟨(Registry.resolveInOrder siteDecls 0 siteDecls).toOption.getD []⟩

theorem siteRegistry_eq : Registry.ofDecls siteDecls = .ok siteRegistry :=
  Registry.ofDecls_eq (by decide) (by decide) (by decide)

theorem siteRegistry_namesGiven : siteRegistry.NamesGiven :=
  Registry.namesGiven_of_unprepared siteRegistry_eq (by simp [siteDecls, ModelDecl.number, ModelDecl.numberFrom])

/-- A site with another one in it. -/
def makeOuter : Operation := .build ⟨0, 1⟩ .null
  ⟨[("name", .text "outer"), ("sites", .mapping ⟨[("name", .text "inner")]⟩)]⟩

/-- An area with two sites, one of which points at the outer site and the other one at the inner. -/
def makeArea : Operation := .build ⟨0, 0⟩ .null ⟨[("sites", .list [
  .mapping ⟨[("name", .text "a"), ("link", .entity ⟨0⟩)]⟩, .mapping ⟨[("name", .text "b"), ("link", .entity ⟨1⟩)]⟩])]⟩

def outer : Store := (makeOuter.step (.ofRegistries [siteRegistry])).2

def area : Store := (makeArea.step outer).2

/-- A handle to the area, and to nothing else. -/
def areaOnly : Handles := fun e => e == ⟨2⟩

theorem area_reachable : Reachable area := by
  have houter : makeOuter.Valid (.ofRegistries [siteRegistry]) := Operation.build_valid fun x hx => by
    simp [namedIn_iff, names_mapping_iff, Input.text, not_names_value] at hx
  have harea : makeArea.Valid outer := Operation.build_valid fun x hx => by
    have hx' : x = ⟨0⟩ ∨ x = ⟨1⟩ := by
      simpa [namedIn_iff, names_mapping_iff, names_list_iff, names_entity_iff, Input.text, not_names_value] using hx
    rcases hx' with rfl | rfl <;> decide
  exact .step (.step (.start (List.forall_mem_singleton.mpr siteRegistry_namesGiven)) houter trivial) harea trivial

theorem area_reaches : Reaches (area.sweep areaOnly) areaOnly :=
  .hold (area_reachable.reaches fun _ _ _ => trivial) fun _ _ => not_lost_all

/-- The hosts of what is pointed at in the sites of an area. -/
def hostsIn (root : Node) : List (Option String) := (root.findAll "sites/site/link/host").map (·.text)

/-- What a compiler finds of hosts once a reference is frozen. -/
def hostsAfter (s : Store) (h : Handles) (r : EntityId × Nat) (e : EntityId) : Option (List (Option String)) :=
  match freeze h r s with
  | (.ok (), t) => ((unpruned nextDay).compile t e).toOption.map hostsIn
  | _ => none

theorem area_check : ((unpruned nextDay).compile (area.sweep areaOnly) ⟨2⟩).toOption.map hostsIn = some [some "outer"] ∧
    hostsAfter (area.sweep areaOnly) areaOnly (⟨3⟩, 2) ⟨2⟩ = some [] ∧
    (area.sweep areaOnly).owner ⟨2⟩ = none ∧ (area.sweep areaOnly).owner ⟨3⟩ = some ⟨2⟩ ∧
    isReference ((area.sweep areaOnly).slot ⟨3⟩ 2) = true ∧ ¬ Mapping.Omitted (area.sweep areaOnly) ⟨3⟩ 2 := by
  decide

/-- The outer site is lost with the reference that is frozen, and the inner one then has no host. -/
theorem area_unhosted : ∃ root t, (unpruned nextDay).compile (area.sweep areaOnly) ⟨2⟩ = .ok root ∧
    forM [(⟨3⟩, 2)] (freeze areaOnly) (area.sweep areaOnly) = (.ok (), t) ∧ (unpruned nextDay).compile t ⟨2⟩ ≠ .ok root := by
  obtain ⟨hbefore, hafter, _⟩ := area_check
  obtain ⟨root, hroot, hhosts⟩ := Option.map_eq_some_iff.mp hbefore
  unfold hostsAfter at hafter
  split at hafter
  · next t ht =>
    refine ⟨root, t, eq_ok_of_toOption hroot, ?_, fun hc => ?_⟩
    · rw [List.forM_cons, Edit.bind_ok ht]
      rfl
    · rw [hc, Except.toOption, Option.map_some, hhosts] at hafter
      cases hafter
  · cases hafter

/-- A reference need not stand for anything to be left out of a tree; the tree changes with what is lost; and a document
has the date at which it is compiled. -/
theorem compile_without_freeze :
    (¬ ∀ (s : Store) (h : Handles) (e : EntityId) (c : Compiler) (root : Node) (refs : List (EntityId × Nat)),
      Reaches s h → Finishes s.owner e → c.compile s e = .ok root →
      (∀ r ∈ refs, s.AtOrAbove r.1 e ∧ ∃ b, s.slot r.1 r.2 = .binding b) →
      ∃ t, forM refs (freeze h) s = (.ok (), t)) ∧
    (¬ ∀ (s t : Store) (h : Handles) (e : EntityId) (c : Compiler) (root : Node) (refs : List (EntityId × Nat)),
      Reaches s h → Finishes s.owner e → c.compile s e = .ok root →
      (∀ r ∈ refs, s.AtOrAbove r.1 e ∧ ∃ b, s.slot r.1 r.2 = .binding b) → forM refs (freeze h) s = (.ok (), t) →
      c.compile t e = .ok root) ∧
    ¬ ∀ (s t : Store) (h : Handles) (e : EntityId) (c : Compiler) (now later : Timestamp)
      (refs : List (EntityId × Nat)), Reaches s h → Finishes s.owner e → forM refs (freeze h) s = (.ok (), t) →
      (c.atClock later).compile t e = (c.atClock now).compile s e := by
  refine ⟨fun hall => ?_, fun hall => ?_, fun hall => ?_⟩
  · obtain ⟨root, hc, hfails⟩ := queue_unfrozen
    obtain ⟨_, howner, hslot, _⟩ := queue_check
    obtain ⟨t, ht⟩ := hall queue .all ⟨0⟩ (unpruned nextDay) root [(⟨0⟩, 0)] (queue_reachable.reaches fun _ _ _ => trivial)
      (.last howner) hc (List.forall_mem_singleton.mpr ⟨.refl, exists_binding hslot⟩)
    exact hfails t ht
  · obtain ⟨root, t, hc, ht, hne⟩ := area_unhosted
    obtain ⟨_, _, howner, hup, hslot, _⟩ := area_check
    exact hne (hall (area.sweep areaOnly) t areaOnly ⟨2⟩ (unpruned nextDay) root [(⟨3⟩, 2)] area_reaches (.last howner) hc
      (List.forall_mem_singleton.mpr ⟨.single hup, exists_binding hslot⟩) ht)
  · exact web_redated (hall web web .all ⟨0⟩ (unpruned nextDay) newYear.clock nextDay []
      (web_reachable.reaches fun _ _ _ => trivial) (web_forest _) rfl)

end Compiler

end MonitorExport
