import MonitorExport.Proofs.Export.Sketches
import MonitorExport.Proofs.Schema.Ancestry
import MonitorExport.Proofs.Store.Walks

/-!
# What a sketch is drawn with

Where an entity is mapped, the arrangement of its owner may override its fields. A sketch has an element for each colour
field of all entities that are mapped. It is left open just if nothing overrides the colour and the colour is not set.
-/

namespace MonitorExport

namespace Ink

/-- The field that a text is of. -/
def field : Ink → EntityId × Nat
  | .given e index _ => (e, index)
  | .stored e index _ => (e, index)
  | .blank e index => (e, index)

/-- Whether a text is taken from where it has to be, if some values override the fields of the entity. -/
def Suits (s : Store) (overrides : Overrides) : Ink → Prop
  | .given e index v => (overrides.find? fun o => o.1 = s.fieldName e index).map (·.2) = some v
  | .stored e index v => (overrides.find? fun o => o.1 = s.fieldName e index) = none ∧ s.read e index = .ok (some v) ∧
      (s.kind e index = .color → s.slot e index = .scalar (some v))
  | .blank e index => (overrides.find? fun o => o.1 = s.fieldName e index) = none ∧ s.kind e index = .color ∧
      s.slot e index = .scalar none

end Ink

namespace Mapping

open Sketch Store

/-- The values that override the fields of the `k`-th member of a collection: those of the owner's arrangement, if it is
the collection that is arranged. -/
def memberOverrides (s : Store) (c : CollectionId) (k : Nat) : Overrides :=
  if arrangedIndex? (s.schemaOf c.owner) = some c.field then
    match (s.schemaOf c.owner).arrangement.map fun a => (a, arrangementWidth s c.owner a) with
    | some (a, .ok width) => placeMember width k a
    | _ => []
  else []

/-- Whether an entity with overrides is mapped as a member of another. -/
def Hands (s : Store) (p q : EntityId × Overrides) : Prop :=
  ∃ index k, (s.members ⟨p.1, index⟩)[k]? = some q.1 ∧ q.2 = memberOverrides s ⟨p.1, index⟩ k

/-- Whether an entity with overrides is mapped where another is, at it or below it. -/
abbrev Mapped (s : Store) : EntityId × Overrides → EntityId × Overrides → Prop :=
  Relation.ReflTransGen (Hands s)

/-- Whether a field of an entity is mapped where another entity is. An arranged collection has no element of a scalar. -/
def Below (s : Store) (p : EntityId × Overrides) (x : EntityId) (overrides : Overrides) (index : Nat) : Prop :=
  Mapped s p (x, overrides) ∧ arrangedIndex? (s.schemaOf x) ≠ some index

/-- Whether a field is mapped at a place of an entity's table: the field there, or one below a member. -/
def Inside (s : Store) (p : EntityId × Overrides) (index : Nat) (x : EntityId) (overrides : Overrides) (j : Nat) : Prop :=
  ((x, overrides) = p ∧ j = index ∧ arrangedIndex? (s.schemaOf p.1) ≠ some index) ∨
    ∃ k m, (s.members ⟨p.1, index⟩)[k]? = some m ∧ Below s (m, memberOverrides s ⟨p.1, index⟩ k) x overrides j

/-- Whether elements are marked as those of the given fields, and each colour among these has an element. -/
structure Tells (s : Store) (fields : EntityId → Overrides → Nat → Prop) (marks : List Mark) : Prop where
  sound : ∀ tag ink, (tag, some ink) ∈ marks → tag = s.fieldName ink.field.1 ink.field.2 ∧
    ∃ overrides, fields ink.field.1 overrides ink.field.2 ∧ ink.Suits s overrides
  complete : ∀ x overrides j stored, fields x overrides j → s.kind x j = .color →
    (s.entity x).slots[j]? = some (.scalar stored) →
    ∃ ink, (s.fieldName x j, some ink) ∈ marks ∧ ink.field = (x, j) ∧ ink.Suits s overrides

variable {s : Store} {fields fields' : EntityId → Overrides → Nat → Prop} {marks marks' : List Mark}

namespace Tells

theorem nil (h : ∀ x overrides j stored, fields x overrides j → s.kind x j = .color →
    (s.entity x).slots[j]? ≠ some (.scalar stored)) : Tells s fields [] where
  sound := by simp
  complete x overrides j stored hf hcolor hslot := absurd hslot (h x overrides j stored hf hcolor)

theorem append (h : Tells s fields marks) (h' : Tells s fields' marks') :
    Tells s (fun x overrides j => fields x overrides j ∨ fields' x overrides j) (marks ++ marks') where
  sound tag ink hmem := by
    rcases List.mem_append.mp hmem with hmem | hmem
    · obtain ⟨htag, overrides, hf, hs⟩ := h.sound tag ink hmem
      exact ⟨htag, overrides, .inl hf, hs⟩
    · obtain ⟨htag, overrides, hf, hs⟩ := h'.sound tag ink hmem
      exact ⟨htag, overrides, .inr hf, hs⟩
  complete x overrides j stored hf hcolor hslot := by
    rcases hf with hf | hf
    · obtain ⟨ink, hmem, hs⟩ := h.complete x overrides j stored hf hcolor hslot
      exact ⟨ink, List.mem_append_left _ hmem, hs⟩
    · obtain ⟨ink, hmem, hs⟩ := h'.complete x overrides j stored hf hcolor hslot
      exact ⟨ink, List.mem_append_right _ hmem, hs⟩

/-- Only scalars count of the fields that are told of. -/
theorem of_scalars (h : Tells s fields marks) (hf : ∀ x overrides j, fields x overrides j → fields' x overrides j)
    (hf' : ∀ x overrides j stored, fields' x overrides j → (s.entity x).slots[j]? = some (.scalar stored) →
      fields x overrides j) : Tells s fields' marks where
  sound tag ink hmem := by
    obtain ⟨htag, overrides, hx, hs⟩ := h.sound tag ink hmem
    exact ⟨htag, overrides, hf _ overrides _ hx, hs⟩
  complete x overrides j stored hx hcolor hslot :=
    h.complete x overrides j stored (hf' x overrides j stored hx hslot) hcolor hslot

theorem congr (h : Tells s fields marks) (hf : ∀ x overrides j, fields x overrides j ↔ fields' x overrides j) :
    Tells s fields' marks :=
  h.of_scalars (fun x overrides j => (hf x overrides j).mp) fun x overrides j _ hx _ => (hf x overrides j).mpr hx

/-- Elements that are of no scalar field tell nothing more. -/
theorem plain (h : Tells s fields marks) (tag : String) : Tells s fields ((tag, none) :: marks) where
  sound tag' ink hmem := by
    rcases List.mem_cons.mp hmem with heq | hmem
    · cases heq
    · exact h.sound tag' ink hmem
  complete x overrides j stored hf hcolor hslot := by
    obtain ⟨ink, hmem, hs⟩ := h.complete x overrides j stored hf hcolor hslot
    exact ⟨ink, List.mem_cons_of_mem _ hmem, hs⟩

theorem single {overrides : Overrides} (ink : Ink) (hs : ink.Suits s overrides) :
    Tells s (fun x overrides' j => (x, overrides') = (ink.field.1, overrides) ∧ j = ink.field.2)
      [(s.fieldName ink.field.1 ink.field.2, some ink)] where
  sound tag ink' hmem := by
    cases List.mem_singleton.mp hmem
    exact ⟨rfl, overrides, ⟨rfl, rfl⟩, hs⟩
  complete x overrides' j stored h _ _ := by
    obtain ⟨heq, rfl⟩ := h
    cases heq
    exact ⟨ink, List.mem_singleton.mpr rfl, rfl, hs⟩

end Tells

theorem marksAll_append (sks sks' : List Sketch) : marksAll (sks ++ sks') = marksAll sks ++ marksAll sks' := by
  induction sks with
  | nil => rfl
  | cons sk sks ih => rw [List.cons_append, marksAll, marksAll, ih, List.append_assoc]

theorem marks_ofChildren (tag : String) (sks : List Sketch) :
    (Sketch.ofChildren tag sks).marks = (tag, none) :: marksAll sks := by
  rw [Sketch.ofChildren, Sketch.marks]

theorem marksAll_singleton (sk : Sketch) : marksAll [sk] = sk.marks := by
  rw [marksAll, marksAll, List.append_nil]

/-- A colour that is set is read as it is stored. -/
theorem read_of_color {e : EntityId} {index : Nat} {stored : Option Value} (hk : s.kind e index = .color)
    (hslot : s.slot e index = .scalar stored) : s.read e index = .ok stored := by
  unfold Store.read
  cases (s.schemaOf e).fields.length <;> rw [Store.readWithin, Store.stored, hslot, hk] <;> rfl

theorem scalarSketches_tells {e : EntityId} {index : Nat} {overrides : Overrides} {sks : List Sketch}
    {stored : Option Value} (hslot : s.slot e index = .scalar stored) (h : scalarSketches s e index overrides = .ok sks) :
    Tells s (fun x overrides' j => (x, overrides') = (e, overrides) ∧ j = index) (marksAll sks) := by
  unfold scalarSketches at h
  dsimp only at h
  split at h
  · next v hover =>
    cases h
    rw [marksAll_singleton]
    exact .single (.given e index v) (by rw [Ink.Suits, hover]; rfl)
  · next hover =>
    split at h
    · next hunset =>
      cases h
      rw [marksAll_singleton]
      exact .single (.blank e index) ⟨hover, Store.isUnsetColor_iff.mp hunset⟩
    · next hset =>
      obtain ⟨v, hread, rfl⟩ := Except.map_eq_ok h
      have hstored : s.kind e index = .color → stored = v := fun hk =>
        Except.ok.inj ((read_of_color hk hslot).symm.trans hread)
      cases v with
      | none =>
          refine .nil fun x overrides' j _ hf hk _ => hset (Store.isUnsetColor_iff.mpr ?_)
          obtain ⟨heq, rfl⟩ := hf
          cases heq
          exact ⟨hk, hslot.trans (congrArg Slot.scalar (hstored hk))⟩
      | some v =>
          change Tells s _ (marksAll [_])
          rw [marksAll_singleton]
          exact .single (.stored e index v) ⟨hover, hread, fun hk => hslot.trans (congrArg Slot.scalar (hstored hk))⟩

theorem marksAll_pairs (pairs : List (String × Value)) :
    marksAll (pairs.map fun (key, v) => .element key (some v.render) []) = pairs.map fun (key, _) => (key, none) := by
  induction pairs with
  | nil => rfl
  | cons pair pairs ih => rw [List.map_cons, marksAll, ih]; rfl

/-- Nothing of a reference is a scalar field. -/
theorem referenceSketch_tells {e : EntityId} {index : Nat} {sk : Sketch} (h : referenceSketch s e index = .ok sk) :
    Tells s (fun _ _ _ => False) sk.marks := by
  obtain ⟨identity, _, rfl⟩ := Except.map_eq_ok h
  rw [marks_ofChildren, marksAll_pairs]
  refine .plain ?_ _
  induction identity.pairs with
  | nil => exact .nil fun _ _ _ _ hf => hf.elim
  | cons pair pairs ih => exact .plain ih _

theorem collectionSketches_tells (e : EntityId) (index : Nat) {members : List Sketch} (h : Tells s fields (marksAll members)) :
    Tells s fields (marksAll (collectionSketches s e index members)) := by
  unfold collectionSketches
  split
  · next hempty => rwa [List.isEmpty_iff.mp (Bool.and_eq_true_iff.mp hempty).1] at h
  · rw [marksAll_singleton, marks_ofChildren]
    exact h.plain _

/-! ## The fields that are mapped -/

theorem below_iff {p : EntityId × Overrides} {x : EntityId} {overrides : Overrides} {j : Nat} :
    Below s p x overrides j ↔ ∃ index, Inside s p index x overrides j := by
  constructor
  · rintro ⟨hmapped, hj⟩
    rcases hmapped.cases_head with rfl | ⟨⟨m, _⟩, ⟨index, k, hk, rfl⟩, hmapped⟩
    · exact ⟨j, .inl ⟨rfl, rfl, hj⟩⟩
    · exact ⟨index, .inr ⟨k, m, hk, hmapped, hj⟩⟩
  · rintro ⟨index, ⟨rfl, rfl, hj⟩ | ⟨k, m, hk, hmapped, hj⟩⟩
    · exact ⟨.refl, hj⟩
    · exact ⟨.head ⟨index, k, hk, rfl⟩ hmapped, hj⟩

theorem memberOverrides_of_ne {e : EntityId} {index : Nat} (h : arrangedIndex? (s.schemaOf e) ≠ some index) (k : Nat) :
    memberOverrides s ⟨e, index⟩ k = [] := if_neg h

theorem memberOverrides_of_width {e : EntityId} {index : Nat} {a : Arrangement} {width : Int}
    (h : arrangedIndex? (s.schemaOf e) = some index) (ha : (s.schemaOf e).arrangement = some a)
    (hw : arrangementWidth s e a = .ok width) (k : Nat) : memberOverrides s ⟨e, index⟩ k = placeMember width k a := by
  rw [memberOverrides, if_pos h, ha, Option.map_some, hw]

/-- Trees of the members of a collection have the fields below the members. -/
theorem below_roots_iff {c : CollectionId} {ts : List Subtree} {given : Nat → Overrides}
    (hroots : ts.map Subtree.root = s.members c) (hgiven : ∀ k, memberOverrides s c k = given k) (x : EntityId)
    (overrides : Overrides) (j : Nat) :
    (∃ k t, ts[k]? = some t ∧ Below s (t.root, given (0 + k)) x overrides j) ↔
      ∃ k m, (s.members c)[k]? = some m ∧ Below s (m, memberOverrides s c k) x overrides j := by
  rw [← hroots]
  simp only [hgiven, Nat.zero_add, List.getElem?_map, Option.map_eq_some_iff]
  constructor
  · rintro ⟨k, t, ht, hb⟩
    exact ⟨k, t.root, ⟨t, ht, rfl⟩, hb⟩
  · rintro ⟨k, _, ⟨t, ht, rfl⟩, hb⟩
    exact ⟨k, t, ht, hb⟩

theorem slot_of_getElem? {e : EntityId} {index : Nat} {slot : Slot} (h : (s.entity e).slots[index]? = some slot) :
    s.slot e index = slot := by
  rw [Store.slot, List.getD_eq_getElem?_getD, h]
  rfl

/-- A place with a member at it, or with a scalar in it, is one of the table. -/
theorem Inside.lt {p : EntityId × Overrides} {index : Nat} {x : EntityId} {overrides : Overrides} {j : Nat}
    {stored : Option Value} (h : Inside s p index x overrides j) (hs : (s.entity x).slots[j]? = some (.scalar stored)) :
    index < (s.entity p.1).slots.length := by
  rcases h with ⟨rfl, rfl, _⟩ | ⟨k, m, hm, _⟩
  · exact (List.getElem?_eq_some_iff.mp hs).1
  · refine lt_of_slot_ne fun hslot => ?_
    rw [members_eq, hslot] at hm
    cases hm

/-- Whether a field is mapped at one of `n` places of an entity's table, the arranged collection left out. -/
def Among (s : Store) (p : EntityId × Overrides) (index n : Nat) (x : EntityId) (overrides : Overrides) (j : Nat) : Prop :=
  ∃ i, index ≤ i ∧ i < index + n ∧ arrangedIndex? (s.schemaOf p.1) ≠ some i ∧ Inside s p i x overrides j

/-- What is mapped with an entity is mapped at a place of its table or below the arranged collection. -/
theorem Below.cases {p : EntityId × Overrides} {n : Nat} {x : EntityId} {overrides : Overrides} {j : Nat}
    {stored : Option Value} (hn : n = (s.entity p.1).slots.length) (h : Below s p x overrides j)
    (hs : (s.entity x).slots[j]? = some (.scalar stored)) :
    Among s p 0 n x overrides j ∨ ∃ i, arrangedIndex? (s.schemaOf p.1) = some i ∧ Inside s p i x overrides j := by
  obtain ⟨i, hi⟩ := below_iff.mp h
  have hlt : i < n := hn ▸ hi.lt hs
  by_cases harranged : arrangedIndex? (s.schemaOf p.1) = some i
  · exact .inr ⟨i, harranged, hi⟩
  · exact .inl ⟨i, by omega, by omega, harranged, hi⟩

theorem Among.below {p : EntityId × Overrides} {index n : Nat} {x : EntityId} {overrides : Overrides} {j : Nat}
    (h : Among s p index n x overrides j) : Below s p x overrides j := by
  obtain ⟨i, _, _, _, hi⟩ := h
  exact below_iff.mpr ⟨i, hi⟩

/-- All is told of an entity without an arranged collection when its fields are. -/
theorem Tells.bare {p : EntityId × Overrides} {n : Nat} (h : Tells s (Among s p 0 n) marks)
    (hn : n = (s.entity p.1).slots.length)
    (hno : ∀ i, arrangedIndex? (s.schemaOf p.1) = some i → ∀ x overrides j, ¬ Inside s p i x overrides j) :
    Tells s (Below s p) marks :=
  h.of_scalars (fun _ _ _ => Among.below) fun x overrides j _ hx hs =>
    (hx.cases hn hs).resolve_right fun ⟨i, ha, hi⟩ => hno i ha x overrides j hi

/-- All is told of an entity when its fields are, and its arranged collection. -/
theorem Tells.arranged {p : EntityId × Overrides} {n index : Nat} {own last : List Sketch}
    (h : Tells s (Among s p 0 n) (marksAll own)) (hn : n = (s.entity p.1).slots.length)
    (ha : arrangedIndex? (s.schemaOf p.1) = some index) (h' : Tells s (Inside s p index) (marksAll last)) :
    Tells s (Below s p) (marksAll (own ++ last)) := by
  rw [marksAll_append]
  refine (h.append h').of_scalars (fun x overrides j hx => ?_) fun x overrides j _ hx hs => ?_
  · exact hx.elim Among.below fun hi => below_iff.mpr ⟨index, hi⟩
  · refine (hx.cases hn hs).imp_right fun ⟨i, hi, hx⟩ => ?_
    cases ha.symm.trans hi
    exact hx

/-- The fields below the members of a collection are mapped at its place. -/
theorem Tells.inside {p : EntityId × Overrides} {index : Nat} {sks : List Sketch}
    (h : Tells s (fun x overrides j => ∃ k m, (s.members ⟨p.1, index⟩)[k]? = some m ∧
      Below s (m, memberOverrides s ⟨p.1, index⟩ k) x overrides j) (marksAll sks))
    (hslot : ∀ stored, (s.entity p.1).slots[index]? = some (.scalar stored) → arrangedIndex? (s.schemaOf p.1) = some index) :
    Tells s (Inside s p index) (marksAll sks) :=
  h.of_scalars (fun _ _ _ => .inr) fun x overrides j stored hx hs => by
    rcases hx with ⟨rfl, rfl, hne⟩ | hx
    · exact absurd (hslot stored hs) hne
    · exact hx

theorem slotSketches_tells {e : EntityId} {overrides : Overrides} {index : Nat} {r : Except ConfigError (List Sketch)}
    {sks : List Sketch} (hne : arrangedIndex? (s.schemaOf e) ≠ some index)
    (hr : ∀ ms, r = .ok ms → Tells s (fun x overrides' j => ∃ k m, (s.members ⟨e, index⟩)[k]? = some m ∧
      Below s (m, memberOverrides s ⟨e, index⟩ k) x overrides' j) (marksAll ms))
    (h : slotSketches s e index overrides r = .ok sks) : Tells s (Inside s (e, overrides) index) (marksAll sks) := by
  unfold slotSketches at h
  split at h
  · next hslot =>
    refine (scalarSketches_tells hslot h).congr fun x overrides' j => ⟨fun hx => .inl ⟨hx.1, hx.2, hne⟩, ?_⟩
    rintro (⟨heq, hj, _⟩ | ⟨k, m, hm, _⟩)
    · exact ⟨heq, hj⟩
    · rw [members_eq, hslot] at hm
      cases hm
  · next bound hslot =>
    obtain ⟨sk, hsk, rfl⟩ := Except.map_eq_ok h
    rw [marksAll_singleton]
    refine (referenceSketch_tells hsk).of_scalars (fun _ _ _ => False.elim) fun x overrides' j stored hx hs => ?_
    rcases hx with ⟨heq, rfl, _⟩ | ⟨k, m, hm, _⟩
    · cases heq
      cases hslot.symm.trans (slot_of_getElem? hs)
    · rw [members_eq, hslot] at hm
      cases hm
  · next es hslot =>
    obtain ⟨ms, hms, rfl⟩ := Except.map_eq_ok h
    refine collectionSketches_tells e index ((hr ms hms).inside fun stored hs => ?_)
    cases hslot.symm.trans (slot_of_getElem? hs)

mutual

/-- The sketch of an entity tells of all fields that are mapped with it. -/
theorem entitySketches_tells (overrides : Overrides) : (t : Subtree) → t.Whole s → {sks : List Sketch} →
    entitySketches s overrides t = .ok sks → Tells s (Below s (t.root, overrides)) (marksAll sks)
  | .node e bs, hw, sks, h => by
      have hroots : ∀ i ts, bs[i]? = some ts → ts.map Subtree.root = s.members ⟨e, 0 + i⟩ := fun i ts hi => by
        rw [Nat.zero_add]
        exact roots_of_whole hw hi
      unfold entitySketches at h
      obtain ⟨own, hown, h⟩ := bind_eq_ok h
      have hfields := fieldSketches_tells e overrides 0 bs hroots (fun ts hts t ht => hw.member hts ht) own hown
      have hlen := hw.length_slots
      split at h
      · next index a harranged ha =>
        split at h
        · next es hslot =>
          obtain ⟨width, hwidth, h⟩ := bind_eq_ok h
          obtain ⟨ms, hms, h⟩ := bind_eq_ok h
          cases h
          have hindex : index < bs.length := hlen ▸ lt_of_slot_ne fun hs => by cases hslot.symm.trans hs
          have hts : bs[index]? = some (bs.getD index []) := by
            rw [List.getD_eq_getElem?_getD, List.getElem?_eq_getElem hindex, Option.getD_some]
          have hmembers := (branchSketches_tells _ _ index bs (fun ts hts t ht => hw.member hts ht) hms).congr
            (below_roots_iff (roots_of_whole hw hts) (memberOverrides_of_width harranged ha hwidth))
          exact hfields.arranged hlen harranged
            (collectionSketches_tells e index (hmembers.inside (p := (e, overrides)) fun _ _ => harranged))
        · next hslot =>
          cases h
          refine hfields.bare hlen fun i hi x overrides' j hx => ?_
          cases harranged.symm.trans hi
          rcases hx with ⟨_, _, hne⟩ | ⟨k, m, hm, _⟩
          · exact hne harranged
          · rw [members_eq] at hm
            cases hs : s.slot e index with
            | members es => exact hslot es hs
            | scalar v => rw [hs] at hm; cases hm
            | binding b => rw [hs] at hm; cases hm
      · next hno =>
        cases h
        refine hfields.bare hlen fun i hi x overrides' j hx => ?_
        obtain ⟨a, ha, _⟩ := Option.bind_eq_some_iff.mp hi
        exact hno i a hi ha
termination_by structural t => t

theorem fieldSketches_tells (e : EntityId) (overrides : Overrides) (index : Nat) : (bs : List (List Subtree)) →
    (∀ i ts, bs[i]? = some ts → ts.map Subtree.root = s.members ⟨e, index + i⟩) →
    (∀ ts ∈ bs, ∀ t ∈ ts, t.Whole s) → (sks : List Sketch) →
    fieldSketches s e overrides (arrangedIndex? (s.schemaOf e)) index bs = .ok sks →
    Tells s (Among s (e, overrides) index bs.length) (marksAll sks)
  | [], _, _, sks, h => by
      cases h
      exact .nil fun x overrides' j _ ⟨i, hle, hlt, _⟩ => absurd hlt (Nat.not_lt.mpr hle)
  | ts :: bs, hroots, hw, sks, h => by
      have hroots' : ∀ i ts', bs[i]? = some ts' → ts'.map Subtree.root = s.members ⟨e, index + 1 + i⟩ := fun i ts' hi => by
        rw [Nat.add_assoc, Nat.add_comm 1]
        exact hroots (i + 1) ts' hi
      have htail := fun rest => fieldSketches_tells e overrides (index + 1) bs hroots'
        (fun ts hts => hw ts (List.mem_cons_of_mem _ hts)) rest
      unfold fieldSketches at h
      dsimp only at h
      split at h
      · next harranged =>
        obtain ⟨_, ⟨⟩, h⟩ := bind_eq_ok h
        obtain ⟨rest, hrest, h⟩ := bind_eq_ok h
        cases h
        refine (htail rest hrest).congr fun x overrides' j => ⟨?_, ?_⟩
        · rintro ⟨i, hle, hlt, hx⟩
          exact ⟨i, by omega, by rw [List.length_cons]; omega, hx⟩
        · rintro ⟨i, hle, hlt, hne, hx⟩
          have hi : i ≠ index := fun hi => hne (hi ▸ harranged)
          rw [List.length_cons] at hlt
          exact ⟨i, by omega, by omega, hne, hx⟩
      · next hne =>
        obtain ⟨here, hhere, h⟩ := bind_eq_ok h
        obtain ⟨rest, hrest, h⟩ := bind_eq_ok h
        cases h
        rw [marksAll_append]
        have hhead : Tells s (Inside s (e, overrides) index) (marksAll here) := slotSketches_tells hne (fun ms hms =>
          (memberSketches_tells _ _ 0 ts (hw ts (List.mem_cons_self ..)) hms).congr
            (below_roots_iff (hroots 0 ts rfl) (memberOverrides_of_ne hne))) hhere
        refine (hhead.append (htail rest hrest)).congr fun x overrides' j => ⟨?_, ?_⟩
        · rintro (hx | ⟨i, hle, hlt, hx⟩)
          · exact ⟨index, Nat.le_refl _, by rw [List.length_cons]; omega, hne, hx⟩
          · exact ⟨i, by omega, by rw [List.length_cons]; omega, hx⟩
        · rintro ⟨i, hle, hlt, hne, hx⟩
          rw [List.length_cons] at hlt
          rcases Nat.eq_or_lt_of_le hle with rfl | hlt'
          · exact .inl hx
          · exact .inr ⟨i, by omega, by omega, hne, hx⟩
termination_by structural bs => bs

theorem branchSketches_tells (tag : Option String) (overrides : Nat → Overrides) : (index : Nat) →
    (bs : List (List Subtree)) → (∀ ts ∈ bs, ∀ t ∈ ts, t.Whole s) → {sks : List Sketch} →
    branchSketches s tag overrides index bs = .ok sks →
    Tells s (fun x overrides' j => ∃ k t, (bs.getD index [])[k]? = some t ∧ Below s (t.root, overrides (0 + k)) x overrides' j)
      (marksAll sks)
  | 0, [], _, sks, h => by
      cases h
      exact .nil fun x overrides' j _ ⟨k, t, ht, _⟩ => by cases ht
  | _ + 1, [], _, sks, h => by
      cases h
      exact .nil fun x overrides' j _ ⟨k, t, ht, _⟩ => by cases ht
  | 0, ts :: _, hw, sks, h => memberSketches_tells tag overrides 0 ts (hw ts (List.mem_cons_self ..)) h
  | index + 1, _ :: bs, hw, sks, h =>
      branchSketches_tells tag overrides index bs (fun ts hts => hw ts (List.mem_cons_of_mem _ hts)) h
termination_by structural _ bs => bs

theorem memberSketches_tells (tag : Option String) (overrides : Nat → Overrides) (k : Nat) : (ts : List Subtree) →
    (∀ t ∈ ts, t.Whole s) → {sks : List Sketch} → memberSketches s tag overrides k ts = .ok sks →
    Tells s (fun x overrides' j => ∃ n t, ts[n]? = some t ∧ Below s (t.root, overrides (k + n)) x overrides' j) (marksAll sks)
  | [], _, sks, h => by
      cases h
      exact .nil fun x overrides' j _ ⟨n, t, ht, _⟩ => by cases ht
  | t :: ts, hw, sks, h => by
      unfold memberSketches at h
      obtain ⟨children, hchildren, h⟩ := bind_eq_ok h
      obtain ⟨rest, hrest, h⟩ := bind_eq_ok h
      cases h
      have hhead := entitySketches_tells (overrides k) t (hw t (List.mem_cons_self ..)) hchildren
      have htail := memberSketches_tells tag overrides (k + 1) ts (fun t ht => hw t (List.mem_cons_of_mem _ ht)) hrest
      rw [marksAll, marks_ofChildren]
      refine ((hhead.plain _).append htail).congr fun x overrides' j => ⟨?_, ?_⟩
      · rintro (hb | ⟨n, t', ht', hb⟩)
        · exact ⟨0, t, rfl, hb⟩
        · exact ⟨n + 1, t', ht', by rwa [Nat.add_assoc, Nat.add_comm 1] at hb⟩
      · rintro ⟨n, t', ht', hb⟩
        cases n with
        | zero =>
            cases ht'
            exact .inl hb
        | succ n => exact .inr ⟨n, t', ht', by rwa [Nat.add_assoc, Nat.add_comm 1]⟩
termination_by structural ts => ts

end

end Mapping

end MonitorExport
