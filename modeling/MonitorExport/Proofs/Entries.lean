import Mathlib.Data.List.Nodup
import MonitorExport.Input

/-!
# Ordered mappings

Pairs that are given one after the other have distinct keys, and a mapping with distinct keys is what its own pairs
give.
-/

namespace MonitorExport

namespace Entries

variable {α : Type} {key : String} {value : α} {m : Entries α}

theorem insertPair_of_not_mem {pairs : List (String × α)} (h : ∀ p ∈ pairs, p.1 ≠ key) :
    insertPair key value pairs = pairs ++ [(key, value)] := by
  induction pairs with
  | nil => rfl
  | cons p pairs ih =>
      rw [insertPair, if_neg (h p List.mem_cons_self), ih fun q hq => h q (List.mem_cons_of_mem _ hq)]
      rfl

theorem contains_eq_false : m.contains key = false ↔ ∀ p ∈ m.pairs, p.1 ≠ key := by
  simp [contains]

theorem contains_iff : m.contains key = true ↔ key ∈ m.keys := by
  simp [contains, keys]

theorem keys_insert (m : Entries α) :
    (m.insert key value).keys = if key ∈ m.keys then m.keys else m.keys ++ [key] := by
  suffices h : ∀ pairs : List (String × α), (insertPair key value pairs).map (·.1) =
      if key ∈ pairs.map (·.1) then pairs.map (·.1) else pairs.map (·.1) ++ [key] from h m.pairs
  intro pairs
  induction pairs with
  | nil => rfl
  | cons pair pairs ih =>
      obtain ⟨k, v⟩ := pair
      by_cases hk : k = key
      · simp [insertPair, hk]
      · by_cases hmem : key ∈ pairs.map (·.1)
        · simp [insertPair, hk, ih, hmem]
        · simp [insertPair, hk, ih, hmem, Ne.symm hk]

theorem contains_insert (m : Entries α) (key : String) (value : α) : (m.insert key value).contains key = true := by
  rw [contains_iff, keys_insert]
  split
  · assumption
  · simp

theorem nodup_keys_insert (h : m.keys.Nodup) (key : String) (value : α) : (m.insert key value).keys.Nodup := by
  rw [keys_insert]
  split
  · exact h
  · next hn => exact List.nodup_append.mpr ⟨h, by simp, fun x hx y hy he => hn (by simp_all)⟩

/-- Fields that are given one after the other have distinct keys. -/
theorem nodup_keys_ofList (pairs : List (String × α)) : (ofList pairs).keys.Nodup :=
  List.foldlRecOn (motive := fun m : Entries α => m.keys.Nodup) pairs _ .nil fun _ hm pair _ =>
    nodup_keys_insert hm pair.1 pair.2

theorem foldl_insert_of_nodup {pairs : List (String × α)} (h : (m.keys ++ pairs.map (·.1)).Nodup) :
    pairs.foldl (fun m pair => m.insert pair.1 pair.2) m = ⟨m.pairs ++ pairs⟩ := by
  induction pairs generalizing m with
  | nil => rw [List.foldl_nil, List.append_nil]
  | cons pair pairs ih =>
      obtain ⟨k, v⟩ := pair
      have hfresh : ∀ p ∈ m.pairs, p.1 ≠ k := fun p hp he =>
        (List.nodup_append.mp h).2.2 p.1 (List.mem_map_of_mem hp) k (by simp) he
      have hinsert : m.insert k v = ⟨m.pairs ++ [(k, v)]⟩ := by rw [insert, insertPair_of_not_mem hfresh]
      rw [List.foldl_cons, hinsert, ih]
      · rw [List.append_assoc]
        rfl
      · simpa [keys] using h

theorem setDefault_fresh (h : m.contains key = false) (value : α) :
    m.setDefault key value = ⟨m.pairs ++ [(key, value)]⟩ := by
  rw [setDefault, h]
  rfl

theorem keys_setDefault (m : Entries α) :
    (m.setDefault key value).keys = if key ∈ m.keys then m.keys else m.keys ++ [key] := by
  rw [setDefault]
  simp only [contains_iff]
  split
  · rfl
  · simp [keys]

theorem contains_append (pairs : List (String × α)) :
    (⟨m.pairs ++ pairs⟩ : Entries α).contains key = (m.contains key || pairs.any fun p => p.1 = key) :=
  List.any_append

theorem contains_erase (h : m.contains key = false) (key' : String) : (m.erase key').contains key = false :=
  contains_eq_false.mpr fun p hp => contains_eq_false.mp h p (List.mem_of_mem_eraseP hp)

theorem keys_erase (m : Entries α) (key : String) : (m.erase key).keys = m.keys.erase key := by
  rw [keys, keys, erase, List.erase_eq_eraseP', List.eraseP_map]
  rfl

theorem nodup_keys_erase (h : m.keys.Nodup) (key : String) : (m.erase key).keys.Nodup :=
  keys_erase m key ▸ h.erase key

/-- A key that stands only once in a mapping is erased from it. -/
theorem contains_erase_self (h : m.keys.Nodup) (key : String) : (m.erase key).contains key = false := by
  rw [Bool.eq_false_iff, Ne, contains_iff, keys_erase]
  exact h.not_mem_erase

theorem contains_foldl_erase {keys : List String} (h : m.keys.Nodup) (hkey : key ∈ keys) :
    (keys.foldl erase m).contains key = false := by
  have hgone : ∀ {m : Entries α} (keys : List String), m.contains key = false →
      (keys.foldl erase m).contains key = false := fun keys h0 =>
    List.foldlRecOn (motive := fun m : Entries α => m.contains key = false) keys erase h0
      fun _ hm key' _ => contains_erase hm key'
  induction keys generalizing m with
  | nil => cases hkey
  | cons first keys ih =>
      rcases List.mem_cons.mp hkey with rfl | hkey
      · exact hgone keys (contains_erase_self h key)
      · exact ih (nodup_keys_erase h first) hkey

theorem contains_insert_of_ne {key' : String} (hne : key ≠ key') (value : α) :
    (m.insert key' value).contains key = m.contains key := by
  rw [Bool.eq_iff_iff, contains_iff, contains_iff, keys_insert]
  split <;> simp [hne]

theorem contains_setDefault_of_ne {key' : String} (hne : key ≠ key') (value : α) :
    (m.setDefault key' value).contains key = m.contains key := by
  rw [setDefault]
  split
  · rfl
  · rw [contains_append]
    simp [hne.symm]

theorem get?_eq_none_iff : m.get? key = none ↔ m.contains key = false := by
  simp [get?, contains_eq_false]

theorem get?_insert_self (m : Entries α) (key : String) (value : α) : (m.insert key value).get? key = some value := by
  suffices h : ∀ pairs : List (String × α),
      ((insertPair key value pairs).find? fun p => p.1 = key).map (·.2) = some value from h m.pairs
  intro pairs
  induction pairs with
  | nil => simp [insertPair]
  | cons pair pairs ih =>
      by_cases hk : pair.1 = key
      · simp [insertPair, hk]
      · rw [insertPair, if_neg hk, List.find?_cons_of_neg (by simpa using hk), ih]

theorem get?_insert_of_ne {key' : String} (hne : key ≠ key') (value : α) :
    (m.insert key' value).get? key = m.get? key := by
  suffices h : ∀ pairs : List (String × α),
      (insertPair key' value pairs).find? (fun p => p.1 = key) = pairs.find? fun p => p.1 = key from
    congrArg (Option.map Prod.snd) (h m.pairs)
  intro pairs
  induction pairs with
  | nil => simp [insertPair, hne.symm]
  | cons pair pairs ih =>
      by_cases hk : pair.1 = key'
      · simp [insertPair, hk, hne.symm]
      · rw [insertPair, if_neg hk, List.find?_cons, List.find?_cons, ih]

theorem get?_setDefault_of_ne {key' : String} (hne : key ≠ key') (value : α) :
    (m.setDefault key' value).get? key = m.get? key := by
  rw [setDefault]
  split
  · rfl
  · simp [get?, List.find?_append, hne.symm]

theorem get?_append (h : m.contains key = false) (pairs : List (String × α)) :
    (⟨m.pairs ++ pairs⟩ : Entries α).get? key = (⟨pairs⟩ : Entries α).get? key := by
  have hnone : m.pairs.find? (fun p => p.1 = key) = none := by
    simpa using contains_eq_false.mp h
  simp [get?, List.find?_append, hnone]

theorem get?_setDefault_fresh (h : m.contains key = false) (value : α) : (m.setDefault key value).get? key = some value := by
  rw [setDefault_fresh h, get?_append h]
  simp [get?]

theorem get?_erase_of_ne {key' : String} (hne : key ≠ key') : (m.erase key').get? key = m.get? key := by
  suffices h : ∀ pairs : List (String × α),
      (pairs.eraseP fun p => p.1 = key').find? (fun p => p.1 = key) = pairs.find? fun p => p.1 = key from
    congrArg (Option.map Prod.snd) (h m.pairs)
  intro pairs
  induction pairs with
  | nil => rfl
  | cons pair pairs ih =>
      by_cases hk : pair.1 = key'
      · simp [hk, hne.symm]
      · rw [List.eraseP_cons_of_neg (by simpa using hk), List.find?_cons, List.find?_cons, ih]

/-- A mapping with distinct keys is given by its own pairs, one after the other. -/
theorem ofList_pairs (h : m.keys.Nodup) : ofList m.pairs = m := by
  rw [ofList, foldl_insert_of_nodup (by simpa [empty, keys] using h)]
  rfl

end Entries

end MonitorExport
