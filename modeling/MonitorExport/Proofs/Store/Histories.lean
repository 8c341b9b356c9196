import Mathlib.Data.List.Induction
import MonitorExport.Proofs.Store.Rebinding

/-!
# Histories of mappings

What a mapping holds after changes is told by the changes alone: its keys stand in the order in which each was last
introduced, and a key has the value that was written last. An identity that is given to a reference is such a mapping
and is taken as it is.
-/

namespace MonitorExport

/-! ## Histories -/

section

variable {α : Type} {p q : List α → α → Prop} {past : List α} {x : α} {i : Nat}

/-- Whether a step at a place has a property, which may ask for the steps before it. -/
def HappensAt (p : List α → α → Prop) (steps : List α) (i : Nat) : Prop :=
  ∃ x, steps[i]? = some x ∧ p (steps.take i) x

def NeverAfter (p : List α → α → Prop) (steps : List α) (i : Nat) : Prop :=
  ∀ j, i < j → ¬ HappensAt p steps j

/-- Whether the last step that has a property is the one at a place. -/
def LastAt (p : List α → α → Prop) (steps : List α) (i : Nat) : Prop :=
  HappensAt p steps i ∧ NeverAfter p steps i

/-- Whether something has begun and has not been ended since. -/
def Lasts (begins ends : List α → α → Prop) (steps : List α) : Prop :=
  ∃ i, HappensAt begins steps i ∧ NeverAfter ends steps i

theorem HappensAt.lt_length (h : HappensAt p past i) : i < past.length := by
  obtain ⟨x, hx, _⟩ := h
  exact (List.getElem?_eq_some_iff.mp hx).1

theorem happensAt_concat_length : HappensAt p (past ++ [x]) past.length ↔ p past x := by
  simp [HappensAt]

theorem happensAt_concat_of_lt (h : i < past.length) : HappensAt p (past ++ [x]) i ↔ HappensAt p past i := by
  rw [HappensAt, HappensAt, List.getElem?_append_left h, List.take_append_of_le_length (Nat.le_of_lt h)]

theorem neverAfter_concat_length : NeverAfter p (past ++ [x]) past.length := fun j hj h => by
  have hlt := h.lt_length
  rw [List.length_append, List.length_singleton] at hlt
  omega

theorem neverAfter_concat_of_lt (h : i < past.length) :
    NeverAfter p (past ++ [x]) i ↔ NeverAfter p past i ∧ ¬ p past x := by
  refine ⟨fun hnever => ⟨fun j hj hp => ?_, fun hx => hnever _ h (happensAt_concat_length.mpr hx)⟩, ?_⟩
  · exact hnever j hj ((happensAt_concat_of_lt hp.lt_length).mpr hp)
  · rintro ⟨hnever, hx⟩ j hj hp
    rcases Nat.lt_trichotomy j past.length with hlt | rfl | hgt
    · exact hnever j hj ((happensAt_concat_of_lt hlt).mp hp)
    · exact hx (happensAt_concat_length.mp hp)
    · exact neverAfter_concat_length j hgt hp

theorem lastAt_concat_length (hx : p past x) : LastAt p (past ++ [x]) past.length :=
  ⟨happensAt_concat_length.mpr hx, neverAfter_concat_length⟩

theorem LastAt.concat (h : LastAt p past i) (hx : ¬ p past x) : LastAt p (past ++ [x]) i :=
  have hlt := h.1.lt_length
  ⟨(happensAt_concat_of_lt hlt).mpr h.1, (neverAfter_concat_of_lt hlt).mpr ⟨h.2, hx⟩⟩

theorem not_lasts_nil : ¬ Lasts p q ([] : List α) := fun ⟨_, h, _⟩ => Nat.not_lt_zero _ h.lt_length

/-- Something lasts after a step if the step begins it, or if it lasted before and the step does not end it. -/
theorem lasts_concat : Lasts p q (past ++ [x]) ↔ p past x ∨ Lasts p q past ∧ ¬ q past x := by
  constructor
  · rintro ⟨i, hi, hnever⟩
    rcases Nat.lt_succ_iff_lt_or_eq.mp (by simpa using hi.lt_length) with hlt | rfl
    · obtain ⟨hnever, hx⟩ := (neverAfter_concat_of_lt hlt).mp hnever
      exact .inr ⟨⟨i, (happensAt_concat_of_lt hlt).mp hi, hnever⟩, hx⟩
    · exact .inl (happensAt_concat_length.mp hi)
  · rintro (hx | ⟨⟨i, hi, hnever⟩, hx⟩)
    · exact ⟨_, happensAt_concat_length.mpr hx, neverAfter_concat_length⟩
    · have hlt := hi.lt_length
      exact ⟨i, (happensAt_concat_of_lt hlt).mpr hi, (neverAfter_concat_of_lt hlt).mpr ⟨hnever, hx⟩⟩

end

namespace Entries

variable {α : Type} {key : String} {value : α} {m : Entries α}

/-! ## Changes -/

/-- A change of a mapping. -/
inductive Change (α : Type) where
  | insert (key : String) (value : α)
  | setDefault (key : String) (value : α)
  | erase (key : String)

def apply (m : Entries α) : Change α → Entries α
  | .insert key value => m.insert key value
  | .setDefault key value => m.setDefault key value
  | .erase key => m.erase key

/-- The mapping that changes make of the empty one, one after the other. -/
def run (changes : List (Change α)) : Entries α := changes.foldl apply empty

/-- Whether a change sees to it that a key has a value. -/
def Gives (key : String) (_ : List (Change α)) : Change α → Prop
  | .insert k _ | .setDefault k _ => k = key
  | .erase _ => False

def Removes (key : String) (_ : List (Change α)) (change : Change α) : Prop :=
  change = .erase key

/-- Whether changes have given a key a value and not removed it since. -/
def Held (key : String) : List (Change α) → Prop := Lasts (Gives key) (Removes key)

/-- Whether a change gives a value to a key that is not held. -/
def Introduces (key : String) (past : List (Change α)) (change : Change α) : Prop :=
  Gives key past change ∧ ¬ Held key past

/-- Whether a change writes a value for a key. A default is written only if the key is not held. -/
def Writes (key : String) (value : α) (past : List (Change α)) : Change α → Prop
  | .insert k v => k = key ∧ v = value
  | .setDefault k v => k = key ∧ v = value ∧ ¬ Held key past
  | .erase _ => False

/-- Whether a change removes a key or writes another value for it. -/
def Replaces (key : String) (past : List (Change α)) (change : Change α) : Prop :=
  Removes key past change ∨ ∃ value, Writes key value past change

variable {past changes : List (Change α)} {change : Change α} {k : String}

theorem run_concat (past : List (Change α)) (change : Change α) : run (past ++ [change]) = (run past).apply change := by
  rw [run, List.foldl_concat]
  rfl

/-- A change leaves the order of the keys, and puts at most a key that it gives a value at the end. -/
theorem keys_apply (m : Entries α) (past : List (Change α)) (change : Change α) :
    (m.apply change).keys.Sublist m.keys ∨
      ∃ key, Gives key past change ∧ key ∉ m.keys ∧ (m.apply change).keys = m.keys ++ [key] := by
  cases change with
  | insert k v | setDefault k v =>
      simp only [apply, keys_insert, keys_setDefault]
      split
      · exact .inl (.refl _)
      · exact .inr ⟨k, rfl, ‹_›, rfl⟩
  | erase k =>
      rw [apply, keys_erase]
      exact .inl List.erase_sublist

theorem nodup_keys_run (changes : List (Change α)) : (run changes).keys.Nodup := by
  induction changes using List.reverseRecOn with
  | nil => exact .nil
  | append_singleton past change ih =>
      rw [run_concat]
      rcases keys_apply (run past) past change with hsub | ⟨key, _, hnot, hkeys⟩
      · exact ih.sublist hsub
      · rw [hkeys, List.nodup_append_comm]
        exact .cons hnot ih

theorem mem_keys_apply (h : m.keys.Nodup) :
    key ∈ (m.apply change).keys ↔ Gives key past change ∨ key ∈ m.keys ∧ ¬ Removes key past change := by
  cases change with
  | insert k v | setDefault k v =>
      simp only [apply, keys_insert, keys_setDefault, Gives, Removes, reduceCtorEq, not_false_eq_true, and_true]
      split <;> grind
  | erase k => simp [apply, keys_erase, h.mem_erase_iff, Gives, Removes, and_comm, eq_comm]

theorem mem_keys_run : key ∈ (run changes).keys ↔ Held key changes := by
  induction changes using List.reverseRecOn with
  | nil => exact iff_of_false List.not_mem_nil not_lasts_nil
  | append_singleton past change ih =>
      rw [run_concat, mem_keys_apply (nodup_keys_run past), Held, lasts_concat, ih]
      rfl

/-! ## The order of keys -/

/-- Whether a key was last introduced before another was. -/
def Earlier (changes : List (Change α)) (a b : String) : Prop :=
  ∃ i j, LastAt (Introduces a) changes i ∧ LastAt (Introduces b) changes j ∧ i < j

/-- Keys that changes introduced, in the order in which each was last introduced. -/
structure Ordered (changes : List (Change α)) (keys : List String) : Prop where
  introduced : ∀ key ∈ keys, ∃ i, LastAt (Introduces key) changes i
  earlier : keys.Pairwise (Earlier changes)

namespace Ordered

variable {keys : List String}

theorem sublist {keys' : List String} (h : Ordered changes keys) (hsub : keys'.Sublist keys) : Ordered changes keys' :=
  ⟨fun key hkey => h.introduced key (hsub.subset hkey), h.earlier.sublist hsub⟩

/-- Keys that are held are not introduced again, so a change does not move them. -/
theorem concat (h : Ordered past keys) (hheld : ∀ key ∈ keys, Held key past) (change : Change α) :
    Ordered (past ++ [change]) keys := by
  have hkept : ∀ key ∈ keys, ∀ i, LastAt (Introduces key) past i → LastAt (Introduces key) (past ++ [change]) i :=
    fun key hkey i hi => hi.concat fun hnew => hnew.2 (hheld key hkey)
  refine ⟨fun key hkey => (h.introduced key hkey).imp (hkept key hkey), h.earlier.imp_of_mem fun ha hb hab => ?_⟩
  obtain ⟨i, j, hi, hj, hij⟩ := hab
  exact ⟨i, j, hkept _ ha i hi, hkept _ hb j hj, hij⟩

theorem add (h : Ordered past keys) (hheld : ∀ key ∈ keys, Held key past) (hnew : Introduces key past change) :
    Ordered (past ++ [change]) (keys ++ [key]) := by
  have hlast : LastAt (Introduces key) (past ++ [change]) past.length := lastAt_concat_length hnew
  have hkeys := h.concat hheld change
  refine ⟨List.forall_mem_append.mpr ⟨hkeys.introduced, List.forall_mem_singleton.mpr ⟨_, hlast⟩⟩, ?_⟩
  refine List.pairwise_append.mpr ⟨hkeys.earlier, List.pairwise_singleton _ _, fun a ha b hb => ?_⟩
  obtain ⟨i, hi⟩ := h.introduced a ha
  exact ⟨i, past.length, hi.concat fun hagain => hagain.2 (hheld a ha), List.mem_singleton.mp hb ▸ hlast, hi.1.lt_length⟩

end Ordered

theorem ordered_run (changes : List (Change α)) : Ordered changes (run changes).keys := by
  induction changes using List.reverseRecOn with
  | nil => exact ⟨nofun, .nil⟩
  | append_singleton past change ih =>
      have hheld : ∀ key ∈ (run past).keys, Held key past := fun key => mem_keys_run.mp
      rw [run_concat]
      rcases keys_apply (run past) past change with hsub | ⟨key, hgives, hnot, hkeys⟩
      · exact (ih.concat hheld change).sublist hsub
      · rw [hkeys]
        exact ih.add hheld ⟨hgives, fun h => hnot (mem_keys_run.mpr h)⟩

/-! ## The values of keys -/

theorem gives_of_writes (h : Writes key value past change) : Gives key past change := by
  cases change with
  | insert k v | setDefault k v => exact h.1
  | erase k => exact h

theorem get?_apply_of_ne (hgives : ¬ Gives key past change) (hremoves : ¬ Removes key past change) :
    (m.apply change).get? key = m.get? key := by
  cases change with
  | insert k v => exact get?_insert_of_ne (Ne.symm hgives) v
  | setDefault k v => exact get?_setDefault_of_ne (Ne.symm hgives) v
  | erase k => exact get?_erase_of_ne fun h => hremoves (congrArg Change.erase h.symm)

/-- After a change a key has the value that the change writes, or the one that it had if the change does not replace it. -/
theorem get?_apply (hm : m.keys.Nodup) (hheld : key ∈ m.keys ↔ Held key past) :
    (m.apply change).get? key = some value ↔
      Writes key value past change ∨ m.get? key = some value ∧ ¬ Replaces key past change := by
  by_cases htouched : Gives key past change ∨ Removes key past change
  · cases change with
    | insert k v =>
        obtain rfl : k = key := by simpa [Gives, Removes] using htouched
        simp [apply, get?_insert_self, Writes, Replaces]
    | setDefault k v =>
        obtain rfl : k = key := by simpa [Gives, Removes] using htouched
        by_cases h : Held k past
        · have hcontains : m.contains k = true := contains_iff.mpr (hheld.mpr h)
          simp [apply, setDefault, hcontains, Writes, Replaces, Removes, h]
        · have hfresh : m.contains k = false := Bool.eq_false_iff.mpr fun hk => h (hheld.mp (contains_iff.mp hk))
          simp [apply, get?_setDefault_fresh hfresh, Writes, Replaces, h]
    | erase k =>
        obtain rfl : k = key := by simpa [Gives, Removes] using htouched
        simp [apply, get?_eq_none_iff.mpr (contains_erase_self hm k), Writes, Replaces, Removes]
  · obtain ⟨hgives, hremoves⟩ := not_or.mp htouched
    have hnot : ∀ v, ¬ Writes key v past change := fun v hv => hgives (gives_of_writes hv)
    rw [get?_apply_of_ne hgives hremoves]
    simp [Replaces, hnot, hremoves]

theorem get?_run : (run changes).get? key = some value ↔ Lasts (Writes key value) (Replaces key) changes := by
  induction changes using List.reverseRecOn with
  | nil => exact iff_of_false nofun not_lasts_nil
  | append_singleton past change ih => rw [run_concat, get?_apply (nodup_keys_run past) mem_keys_run, ih, lasts_concat]

/-! ## What a history tells -/

/-- A mapping has each key once, in the order in which the keys were last introduced, and for each the value that was
written last. An identity made in this way that is given to a reference as a mapping comes back as it was. -/
theorem run_recalls (changes : List (Change α)) (given : List (Change Value)) (s : Store) (e : EntityId) (i : Nat) :
    (run changes).keys.Nodup ∧ Ordered changes (run changes).keys ∧
    (∀ key, key ∈ (run changes).keys ↔ Held key changes) ∧
    (∀ key value, (run changes).get? key = some value ↔ Lasts (Writes key value) (Replaces key) changes) ∧
    s.coerceBinding e i (.ofIdentity (run given)) = .ok (.literal (run given)) :=
  ⟨nodup_keys_run changes, ordered_run changes, fun _ => mem_keys_run, fun _ _ => get?_run,
    Store.coerceBinding_ofIdentity (nodup_keys_run given)⟩

example : (run [.insert "a" 1, .insert "b" 2, .erase "a", .setDefault "a" 3, .insert "b" 4]).pairs =
    [("b", 4), ("a", 3)] := by
  decide

end Entries

end MonitorExport
