import MonitorExport.Proofs.Store.Equality
import MonitorExport.Proofs.Store.Reading

/-!
# Members are unequal

A collection compares an entity with its members only as it adds it. They stay unequal while nothing writes a field by
which one of them is identified. Fields that count members change with these, so entities that are identified by
such a count are left out.
-/

namespace MonitorExport

namespace Store

variable {s t : Store} {σ : Scope} {c d : CollectionId} {a b e x : EntityId} {i j : Nat} {field : String}

/-! ## Reading what is stored -/

/-- Whether the field at a place is one by which an entity is identified. -/
def Identifies (s : Store) (e : EntityId) (i : Nat) : Prop := s.fieldName e i ∈ (s.schemaOf e).identity

/-- Whether an entity is identified by an elastic field that stores no size, and so counts members. -/
def IdentifiedByCount (s : Store) (e : EntityId) : Prop :=
  ∃ i size items v, s.Identifies e i ∧ s.kind e i = .elastic size items ∧ s.stored e i = .ok v ∧ isSize v = false

theorem fieldName_of_fieldIndex (h : s.fieldIndex e field = .ok i) : s.fieldName e i = field := by
  rw [fieldIndex_ok_iff] at h
  obtain ⟨hi, hname, _⟩ := List.findIdx?_eq_some_iff_getElem.mp h
  rw [fieldName, field?, List.getElem?_eq_getElem hi]
  exact of_decide_eq_true hname

theorem read_eq_stored (h : ¬ s.IdentifiedByCount e) (hi : s.Identifies e i) : s.read e i = s.stored e i := by
  unfold Store.read readWithin
  cases hv : s.stored e i with
  | error _ => rfl
  | ok v =>
      rw [ok_bind]
      split
      · next size items hk =>
        have hsize : isSize v = true := by
          by_contra hn
          exact h ⟨i, size, items, v, hi, hk, hv, Bool.not_eq_true _ ▸ hn⟩
        rw [if_pos hsize]
        rfl
      · rfl

namespace Extends

variable (h : s.Extends t)

include h

theorem schemaOf (he : s.Has e) : t.schemaOf e = s.schemaOf e := by
  rw [Store.schemaOf, Store.schemaOf, h.model he, h.schema]

theorem fieldName (he : s.Has e) (i : Nat) : t.fieldName e i = s.fieldName e i := by
  rw [Store.fieldName, Store.fieldName, h.field? he]

theorem identifies (he : s.Has e) : t.Identifies e i ↔ s.Identifies e i := by
  rw [Identifies, Identifies, h.fieldName he, h.schemaOf he]

/-- A slot of the same kind that is no scalar stores nothing that can be read. -/
theorem stored (he : s.Has e) (hk : (t.slot e i).emptied = (s.slot e i).emptied)
    (hn : (s.slot e i).emptied ≠ .scalar none) : t.stored e i = s.stored e i := by
  have hwrong : t.wrongKind e i "a scalar" = s.wrongKind e i "a scalar" := by
    simp only [wrongKind, h.fieldName he, h.schemaOf he, Store.kind, h.field? he]
  unfold Store.stored
  cases hs : s.slot e i with
  | scalar v => exact absurd (congrArg Slot.emptied hs) hn
  | members _ =>
      obtain ⟨es, ht⟩ := Slot.exists_members (hk.trans (congrArg Slot.emptied hs))
      rw [ht, hwrong]
  | binding _ =>
      obtain ⟨b, ht⟩ := Slot.exists_binding (hk.trans (congrArg Slot.emptied hs))
      rw [ht, hwrong]

end Extends

/-- Whether an entity is there in a later store with all by which it is identified, as far as it is stored. -/
structure Identified (s t : Store) (e : EntityId) : Prop where
  has : s.Has e
  stored : ∀ i, s.Identifies e i → t.stored e i = s.stored e i

namespace Identified

theorem count_iff (h : Identified s t e) (hst : s.Extends t) : t.IdentifiedByCount e ↔ s.IdentifiedByCount e := by
  have hkind : ∀ i, t.kind e i = s.kind e i := fun i => by rw [Store.kind, Store.kind, hst.field? h.has]
  constructor
  · rintro ⟨i, size, items, v, hi, hk, hv, hsize⟩
    have hi := (hst.identifies h.has).mp hi
    exact ⟨i, size, items, v, hi, hkind i ▸ hk, h.stored i hi ▸ hv, hsize⟩
  · rintro ⟨i, size, items, v, hi, hk, hv, hsize⟩
    exact ⟨i, size, items, v, (hst.identifies h.has).mpr hi, hkind i ▸ hk, (h.stored i hi).symm ▸ hv, hsize⟩

theorem get (h : Identified s t e) (hst : s.Extends t) (hc : ¬ s.IdentifiedByCount e)
    (hf : field ∈ (s.schemaOf e).identity) : t.get e field = s.get e field := by
  have hindex : t.fieldIndex e field = s.fieldIndex e field := by
    rw [fieldIndex, fieldIndex, hst.schemaOf h.has]
  rw [Store.get, Store.get, hindex]
  cases hi : s.fieldIndex e field with
  | error _ => rfl
  | ok i =>
      have hi : s.Identifies e i := by rwa [Identifies, fieldName_of_fieldIndex hi]
      rw [ok_bind, ok_bind, read_eq_stored hc hi, ← h.stored i hi]
      exact read_eq_stored (mt (h.count_iff hst).mp hc) ((hst.identifies h.has).mpr hi)

theorem agree (ha : Identified s t a) (hb : Identified s t b) (hst : s.Extends t) (hca : ¬ s.IdentifiedByCount a)
    (hcb : ¬ s.IdentifiedByCount b) (hid : (s.schemaOf a).identity = (s.schemaOf b).identity)
    (hf : field ∈ (s.schemaOf a).identity) : t.agree a b field = s.agree a b field := by
  rw [Store.agree, Store.agree, ha.get hst hca hf, hb.get hst hcb (hid ▸ hf)]

theorem sameIdentity (ha : Identified s t a) (hb : Identified s t b) (hst : s.Extends t)
    (hca : ¬ s.IdentifiedByCount a) (hcb : ¬ s.IdentifiedByCount b) (h : t.sameIdentity a b = true) :
    s.sameIdentity a b = true := by
  rw [sameIdentity_iff] at h ⊢
  refine h.imp_right ?_
  rw [hst.schemaOf ha.has, hst.schemaOf hb.has, hst.model ha.has, hst.model hb.has]
  rintro ⟨hne, hid, hrel, hagree⟩
  refine ⟨hne, hid, ?_, fun field hf => ?_⟩
  · simpa only [Related, isA, hst.schema] using hrel
  · rw [← ha.agree hb hst hca hcb hid hf]
    exact hagree field hf

end Identified

/-! ## One write -/

/-- Whether members of one collection are unequal, but for those that are identified by counts. -/
def KeepsApart (s : Store) : Prop := ∀ c, ∀ a ∈ s.members c, ∀ b ∈ s.members c, a ≠ b →
  ¬ s.IdentifiedByCount a → ¬ s.IdentifiedByCount b → s.sameIdentity a b = false

/-- Whether a slot can be written without a change of what identifies a member. -/
def Spares (s : Store) (c : CollectionId) : Prop :=
  (s.slot c.owner c.field).emptied = .scalar none → s.Identifies c.owner c.field → s.parent c.owner = none

theorem KeepsApart.ofRegistries (registries : List Registry) : (Store.ofRegistries registries).KeepsApart :=
  fun _ _ ha => absurd (has_of_parent ((Linked.ofRegistries _).mem_iff.mp ha)) (Nat.not_lt_zero _)

namespace Write

theorem later (h : Write σ s t) : s.Extends t :=
  ⟨h.registries, fun hx => Nat.lt_of_lt_of_le hx h.size_le, h.model⟩

/-- What a scalar field stores changes only if its slot may be worked on, or its entity belongs to nothing. -/
theorem stored (hs : s.Linked) (h : Write σ s t) (hx : s.Has x) : t.stored x j = s.stored x j ∨
    (s.slot x j).emptied = .scalar none ∧ (σ.outer ⟨x, j⟩ ∨ s.parent x = none) ∧ t.parent x = s.parent x := by
  by_cases hscalar : (s.slot x j).emptied = .scalar none
  · have hne : ∀ {c}, s.IsCollection c → (⟨x, j⟩ : CollectionId) ≠ c := fun hc he => by
      cases he
      rw [IsCollection, hscalar] at hc
      cases hc
    have hof : t.slot x j = s.slot x j → t.stored x j = s.stored x j := fun hslot => by
      obtain ⟨v, hv⟩ := Slot.exists_scalar hscalar
      rw [stored_of_slot hv, stored_of_slot (hslot.trans hv)]
    cases h with
    | push => exact .inl (hof (slot_push_of_has hx _))
    | @assign c slot _ _ _ _ _ ho =>
        by_cases hc : x = c.owner ∧ j = c.field
        · obtain ⟨rfl, rfl⟩ := hc
          exact .inr ⟨hscalar, ho, parent_setSlot⟩
        · exact .inl (hof (by rw [slot_setSlot, if_neg fun h => hc ⟨h.1, h.2.1⟩]))
    | attach _ _ hc => exact .inl (hof (slot_link_of_ne (hne hc)))
    | detach _ hp => exact .inl (hof (slot_unlink_of_ne hp (hne (hs.isCollection hp))))
    | clear _ hc => exact .inl (hof (slot_clear_of_ne (hne hc)))
  · exact .inl (h.later.stored hx (h.emptied hs hx) hscalar)

/-- What identifies a member of the later store was there before. -/
theorem identified (hs : s.Linked) (h : Write σ s t) (hspare : ∀ c, σ.outer c → s.Spares c) (hx : s.Has x)
    (hp : t.parent x = some c) : Identified s t x where
  has := hx
  stored i hi := by
    refine (h.stored hs hx).resolve_right ?_
    rintro ⟨hscalar, hfree, hsame⟩
    have hnone : s.parent x = none := hfree.elim (fun ho => hspare ⟨x, i⟩ ho hscalar hi) id
    rw [hsame, hnone] at hp
    cases hp

/-- A member was one before, or was just added, the only one, and is equal to none that was there. -/
theorem of_mem (hs : s.Linked) (h : Write σ s t) (hx : x ∈ t.members d) : x ∈ s.members d ∨
    s.Has x ∧ (∀ m ∈ s.members d, s.sameIdentity m x = false) ∧ ∀ m ∈ t.members d, m = x ∨ m ∈ s.members d := by
  rw [hs.mem_iff]
  have hp := (h.linked hs).mem_iff.mp hx
  cases h with
  | push hn => exact .inl (parent_push hn ▸ hp)
  | assign => exact .inl (parent_setSlot ▸ hp)
  | @attach c e _ _ hc hh _ _ _ hd =>
      rw [parent_link hh] at hp
      by_cases he : x = e
      · rw [if_pos he, Option.some.injEq] at hp
        subst he hp
        refine .inr ⟨hh, hd, fun m hm => ?_⟩
        rw [members_link hc, if_pos rfl, List.mem_append, List.mem_singleton] at hm
        exact hm.symm
      · rw [if_neg he] at hp
        exact .inl hp
  | detach =>
      rw [parent_unlink] at hp
      split at hp
      · cases hp
      · exact .inl hp
  | clear =>
      rw [parent_clear] at hp
      split at hp
      · cases hp
      · exact .inl hp

theorem keepsApart (hs : s.Linked) (h : Write σ s t) (hspare : ∀ c, σ.outer c → s.Spares c) (hk : s.KeepsApart) :
    t.KeepsApart := by
  intro c a ha b hb hne hca hcb
  have hhas : ∀ x ∈ t.members c, s.Has x := fun x hx =>
    (h.of_mem hs hx).elim (fun hm => has_of_parent (hs.mem_iff.mp hm)) fun hm => hm.1
  have hident : ∀ x ∈ t.members c, Identified s t x := fun x hx =>
    h.identified hs hspare (hhas x hx) ((h.linked hs).mem_iff.mp hx)
  have hca' := mt ((hident a ha).count_iff h.later).mpr hca
  have hcb' := mt ((hident b hb).count_iff h.later).mpr hcb
  -- of two members, the one that was there before stands first if the other one is new
  have hunequal : s.sameIdentity a b = false := by
    rcases h.of_mem hs ha with hma | ⟨_, hnew, honly⟩
    · rcases h.of_mem hs hb with hmb | ⟨_, hnew, _⟩
      · exact hk c a hma b hmb hne hca' hcb'
      · exact hnew a hma
    · have hmb := (honly b hb).resolve_left hne.symm
      exact Bool.eq_false_iff.mpr fun hab => Bool.eq_false_iff.mp (hnew b hmb) (sameIdentity_symm hab)
  refine Bool.eq_false_iff.mpr fun hab => ?_
  exact Bool.eq_false_iff.mp hunequal ((hident a ha).sameIdentity (hident b hb) h.later hca' hcb' hab)

end Write

theorem Run.keepsApart (hs : s.Linked) (h : Run σ s t) (hspare : ∀ u, Run σ s u → ∀ c, σ.outer c → u.Spares c)
    (hk : s.KeepsApart) : t.KeepsApart := by
  induction h with
  | refl => exact hk
  | tail h hw ih => exact hw.keepsApart (Run.linked hs h) (hspare _ h) ih

end Store

/-! ## Operations -/

namespace Operation

variable {s t : Store} {op : Operation} {c : CollectionId}

/-- Whether an operation succeeds in writing a field by which an entity is identified, while the entity belongs to a
collection or is given to the operation, which may add it to one. -/
def Renames (s : Store) (op : Operation) : Prop :=
  (∃ es, (op.step s).1 = .ok es) ∧ ∃ c, op.Targets s c ∧ (s.slot c.owner c.field).emptied = .scalar none ∧
    s.Identifies c.owner c.field ∧ (s.parent c.owner ≠ none ∨ op.Names c.owner)

theorem has_of_targets (hv : op.Valid s) (h : op.Targets s c) (hk : (s.slot c.owner c.field).emptied = .scalar none) :
    s.Has c.owner := by
  have hhandle := hv.handle
  cases op with
  | assign => exact h.1 ▸ hhandle
  | update => exact h.1 ▸ hhandle
  | add | addNew | extend | discard | clear =>
      cases h
      exact hhandle.has
  | bind =>
      cases h
      rw [Handle, hk] at hhandle
      cases hhandle
  | instantiate | build | duplicate => cases h

/-- The slots that an operation is for can be written at any point of a run in its scope, if it renames nothing. -/
theorem spares_of_run (hs : s.Linked) (hv : op.Valid s) (hn : ¬ op.Renames s) (hok : ∃ es, (op.step s).1 = .ok es)
    (h : Store.Run (op.scope s) s t) (hc : op.Targets s c) : t.Spares c := by
  intro hscalar hi
  have hhas : s.Has c.owner := by
    by_contra hnot
    exact hnot (has_of_targets hv hc (congrArg Slot.emptied (Store.slot_of_not_has hnot)))
  rw [h.emptied hs hhas] at hscalar
  rw [h.later.identifies hhas] at hi
  obtain ⟨hparent, hnames⟩ : s.parent c.owner = none ∧ ¬ op.Names c.owner := by
    have hnot := fun hmoved => hn ⟨hok, c, hc, hscalar, hi, hmoved⟩
    exact ⟨by_contra fun hp => hnot (.inl hp), fun hp => hnot (.inr hp)⟩
  exact h.parent_none (not_or.mpr ⟨Nat.not_le.mpr hhas, hnames⟩) hparent

theorem step_keepsApart (hs : s.Linked) (hr : s.NamesGiven) (hv : op.Valid s) (hn : ¬ op.Renames s)
    (hk : s.KeepsApart) : (op.step s).2.KeepsApart := by
  have hends := step_ends hs hr hv
  rcases hstep : op.step s with ⟨err | es, t⟩
  · exact (hends.error hstep).run.keepsApart hs (fun _ _ _ => False.elim) hk
  · have hok : ∃ es, (op.step s).1 = .ok es := ⟨es, by rw [hstep]⟩
    exact (hends.ok hstep).1.keepsApart hs (fun _ hrun _ => spares_of_run hs hv hn hok hrun) hk

end Operation

namespace Store

variable {s : Store} {c : CollectionId} {a b e : EntityId}

/-- The stores that a program reaches without a rename. -/
abbrev ReachableUnrenamed : Store → Prop := ReachableBy fun s op => ¬ op.Renames s

theorem ReachableUnrenamed.keepsApart (h : ReachableUnrenamed s) : s.KeepsApart := by
  induction h with
  | start => exact .ofRegistries _
  | step h hv hn ih => exact Operation.step_keepsApart h.linked h.namesGiven hv hn ih

/-- In every store that is reached without a rename, two members of a collection are not equal, unless one is
identified by a count. -/
theorem members_unequal (h : ReachableUnrenamed s) (ha : a ∈ s.members c) (hb : b ∈ s.members c)
    (hne : a ≠ b) (hca : ¬ s.IdentifiedByCount a) (hcb : ¬ s.IdentifiedByCount b) : s.sameIdentity a b = false :=
  h.keepsApart c a ha b hb hne hca hcb

/-! ## Trays of cups -/

/-- Racks of trays, which are known by their labels and numbers of rows, and cups, which are known by their labels and
can be nested. -/
def trayDecls : List ModelDecl := ModelDecl.number [
  { name := "Rack", fields := [("trays", .set "Tray")] },
  { name := "Tray"
    fields := [("label", .plain), ("columns", .plain), ("rows", .elastic "columns" "cups"), ("cups", .set "Cup")]
    identity := some ["label", "rows"] },
  { name := "Cup", fields := [("label", .plain), ("nested", .set "Cup")], identity := some ["label"] }]

def trayRegistry : Registry := ⟨(Registry.resolveInOrder trayDecls 0 trayDecls).toOption.getD []⟩

theorem trayRegistry_eq : Registry.ofDecls trayDecls = .ok trayRegistry :=
  Registry.ofDecls_eq (by decide) (by decide) (by decide)

theorem trayRegistry_namesGiven : trayRegistry.NamesGiven :=
  Registry.namesGiven_of_unprepared trayRegistry_eq (by simp [trayDecls, ModelDecl.number, ModelDecl.numberFrom])

/-- Makes an entity without a label. -/
def makeEmpty (model : Nat) : Operation := .build ⟨0, model⟩ .null .empty

/-- Adds a tray or cup with a label. -/
def addLabelled (c : CollectionId) (label : String) : Operation := .addNew c .null ⟨[("label", .text label)]⟩

def relabel (e : EntityId) (label : String) : Operation := .assign e "label" (.text label)

theorem makeEmpty_step (h : ReachableUnrenamed s) (model : Nat) : ReachableUnrenamed ((makeEmpty model).step s).2 := by
  refine .step h (Operation.build_valid fun x hx => ?_) ?_
  · simp [namedIn_iff, Entries.empty] at hx
  · rintro ⟨_, _, hnone, _⟩
    exact hnone

theorem addLabelled_step (h : ReachableUnrenamed s) (hc : s.IsCollection c) (label : String) :
    ReachableUnrenamed ((addLabelled c label).step s).2 := by
  refine .step h ⟨hc, fun x hx => hx.elim nofun fun hx => ?_⟩ ?_
  · simp [namedIn_iff, Input.text, not_names_value] at hx
  · rintro ⟨_, _, rfl, hscalar, _⟩
    cases hscalar.symm.trans hc

theorem noTrays_reachable : ReachableUnrenamed (.ofRegistries [trayRegistry]) :=
  .start (List.forall_mem_singleton.mpr trayRegistry_namesGiven)

/-- A tray with a red cup and a blue one. -/
def twoCups : Store :=
  let tray := ((makeEmpty 1).step (.ofRegistries [trayRegistry])).2
  ((addLabelled ⟨⟨0⟩, 3⟩ "blue").step ((addLabelled ⟨⟨0⟩, 3⟩ "red").step tray).2).2

theorem twoCups_reachable : ReachableUnrenamed twoCups :=
  addLabelled_step (addLabelled_step (makeEmpty_step noTrays_reachable 1) (by decide) _) (by decide) _

/-- A rack with a tray of two cups and a tray without cups, both labelled alike. -/
def twoTrays : Store :=
  let rack := ((makeEmpty 0).step (.ofRegistries [trayRegistry])).2
  let tray := ((addLabelled ⟨⟨0⟩, 0⟩ "top").step rack).2
  let full := ((addLabelled ⟨⟨1⟩, 3⟩ "blue").step ((addLabelled ⟨⟨1⟩, 3⟩ "red").step tray).2).2
  ((addLabelled ⟨⟨0⟩, 0⟩ "top").step full).2

theorem twoTrays_reachable : ReachableUnrenamed twoTrays := by
  have hrack := makeEmpty_step noTrays_reachable 0
  have htray := addLabelled_step (c := ⟨⟨0⟩, 0⟩) hrack (by decide) "top"
  have hred := addLabelled_step (c := ⟨⟨1⟩, 3⟩) htray (by decide) "red"
  have hblue := addLabelled_step (c := ⟨⟨1⟩, 3⟩) hred (by decide) "blue"
  exact addLabelled_step hblue (by decide) "top"

/-- The second tray filled like the first one. -/
def fullTrays : Store :=
  ((addLabelled ⟨⟨4⟩, 3⟩ "blue").step ((addLabelled ⟨⟨4⟩, 3⟩ "red").step twoTrays).2).2

theorem fullTrays_reachable : ReachableUnrenamed fullTrays :=
  addLabelled_step (addLabelled_step twoTrays_reachable (by decide) _) (by decide) _

/-- A red cup nested in a cup without a label. -/
def nestedCups : Store :=
  ((addLabelled ⟨⟨0⟩, 1⟩ "red").step ((makeEmpty 2).step (.ofRegistries [trayRegistry])).2).2

theorem nestedCups_reachable : ReachableUnrenamed nestedCups :=
  addLabelled_step (makeEmpty_step noTrays_reachable 2) (by decide) _

/-- Nests the outer cup in itself, and then makes it red. -/
def nestItself : Operation := .update ⟨0⟩ ⟨[("nested", .entity ⟨0⟩), ("label", .text "red")]⟩

theorem nestItself_valid : nestItself.Valid nestedCups := by
  refine ⟨(by decide : nestedCups.Has ⟨0⟩), fun x hx => ?_⟩
  have hx : x = ⟨0⟩ := by
    simpa [nestItself, Operation.Names, namedIn_iff, Input.text, not_names_value, names_entity_iff] using hx
  rw [hx]
  decide

theorem relabel_valid {e : EntityId} (he : s.Has e) (label : String) : (relabel e label).Valid s :=
  ⟨he, fun _ hx => absurd hx not_names_value⟩

/-- Cups become equal by a rename, also one of a cup that becomes a member just before it, and trays by what is added to
them. -/
theorem members_equal :
    (Reachable ((relabel ⟨2⟩ "red").step twoCups).2 ∧
      ((relabel ⟨2⟩ "red").step twoCups).2.members ⟨⟨0⟩, 3⟩ = [⟨1⟩, ⟨2⟩] ∧
      ((relabel ⟨2⟩ "red").step twoCups).2.sameIdentity ⟨1⟩ ⟨2⟩ = true) ∧
    (Reachable (nestItself.step nestedCups).2 ∧ nestedCups.parent ⟨0⟩ = none ∧
      (nestItself.step nestedCups).2.members ⟨⟨0⟩, 1⟩ = [⟨1⟩, ⟨0⟩] ∧
      (nestItself.step nestedCups).2.sameIdentity ⟨1⟩ ⟨0⟩ = true) ∧
    ReachableUnrenamed fullTrays ∧ fullTrays.members ⟨⟨0⟩, 0⟩ = [⟨1⟩, ⟨4⟩] ∧
      fullTrays.sameIdentity ⟨1⟩ ⟨4⟩ = true := by
  have hany : ∀ {s}, ReachableUnrenamed s → Reachable s := fun h => h.mono fun _ _ _ => trivial
  refine ⟨⟨(hany twoCups_reachable).step (relabel_valid (by decide) "red") trivial, ?_, ?_⟩,
    ⟨(hany nestedCups_reachable).step nestItself_valid trivial, ?_, ?_, ?_⟩, fullTrays_reachable, ?_, ?_⟩ <;>
    decide +kernel

/-- An entity without elastic fields is not identified by a count. -/
theorem not_identifiedByCount (h : ∀ f ∈ (s.schemaOf e).fields, f.kind.label ≠ "elastic") : ¬ s.IdentifiedByCount e := by
  rintro ⟨i, size, items, v, _, hk, _⟩
  rw [Store.kind] at hk
  cases hf : s.field? e i with
  | none =>
      rw [hf] at hk
      cases hk
  | some f =>
      rw [hf, Option.map_some, Option.getD_some] at hk
      exact h f (List.mem_of_getElem? hf) (by rw [hk]; rfl)

theorem twoCups_unequal : ReachableUnrenamed twoCups ∧ ⟨1⟩ ∈ twoCups.members ⟨⟨0⟩, 3⟩ ∧
    ⟨2⟩ ∈ twoCups.members ⟨⟨0⟩, 3⟩ ∧ twoCups.sameIdentity ⟨1⟩ ⟨2⟩ = false := by
  have hmembers : twoCups.members ⟨⟨0⟩, 3⟩ = [⟨1⟩, ⟨2⟩] := by decide
  have hred : ⟨1⟩ ∈ twoCups.members ⟨⟨0⟩, 3⟩ := by simp [hmembers]
  have hblue : ⟨2⟩ ∈ twoCups.members ⟨⟨0⟩, 3⟩ := by simp [hmembers]
  have hcount : ∀ i, i = 1 ∨ i = 2 → ¬ twoCups.IdentifiedByCount ⟨i⟩ := by
    rintro i (rfl | rfl) <;> exact not_identifiedByCount (by decide)
  exact ⟨twoCups_reachable, hred, hblue, members_unequal twoCups_reachable hred hblue (by decide)
    (hcount 1 (.inl rfl)) (hcount 2 (.inr rfl))⟩

end Store

end MonitorExport
