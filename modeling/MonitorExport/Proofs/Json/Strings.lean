import MonitorExport.Json
import MonitorExport.Json.Term

/-!
# Strings in a JSON text

A quoted string is read back by the reader of JSON texts, one character at a time, and what follows its closing quote is
left to be read. So it delimits itself: a text begins with at most one quoted string.
-/

namespace MonitorExport.Json

variable {s t : String} {x y : List Char}

namespace Term

theorem hex?_hexDigit (n : Nat) : hex? (hexDigit n) = some (n % 16) := by
  have hdigit : ∀ m, m < 16 → hex? (Nat.digitChar m) = some m := by decide
  exact hdigit _ (Nat.mod_lt n (by decide))

theorem readUnits_plain {c : Char} (hquote : c ≠ '"') (hslash : c ≠ '\\') (h : ¬ c.toNat < 0x20) (x : List Char) :
    readUnits (c :: x) = (readUnits x).map fun read => (c.toNat :: read.1, read.2) := by
  rw [readUnits, if_neg (not_or.mpr ⟨hslash, h⟩)]
  all_goals grind

theorem readUnits_control {c : Char} (h : c.toNat < 0x20) (x : List Char) :
    readUnits ('\\' :: 'u' :: '0' :: '0' :: hexDigit (c.toNat / 16) :: hexDigit c.toNat :: x) =
      (readUnits x).map fun read => (c.toNat :: read.1, read.2) := by
  have hzero : hex? '0' = some 0 := by decide
  have hvalue : ((0 * 16 + 0) * 16 + c.toNat / 16 % 16) * 16 + c.toNat % 16 = c.toNat := by omega
  rw [readUnits]
  simp only [hzero, hex?_hexDigit, hvalue]

/-- A character is read from its escaped form. -/
theorem readUnits_escaped (c : Char) (x : List Char) :
    readUnits (escaped c ++ x) = (readUnits x).map fun read => (c.toNat :: read.1, read.2) := by
  unfold escaped
  split
  case h_8 hquote hslash _ _ _ _ _ =>
    split
    · exact readUnits_control ‹_› x
    · exact readUnits_plain hquote hslash ‹_› x
  all_goals
    simp [readUnits, escape?]

/-- The characters of a string are read up to its closing quote. -/
theorem readUnits_flatMap_escaped (cs x : List Char) :
    readUnits (cs.flatMap escaped ++ '"' :: x) = some (cs.map Char.toNat, x) := by
  induction cs with
  | nil => simp [readUnits]
  | cons c cs ih => rw [List.flatMap_cons, List.append_assoc, readUnits_escaped, ih, Option.map_some, List.map_cons]

end Term

theorem quote_append (s : String) (x : List Char) : quote s ++ x = '"' :: (s.toList.flatMap escaped ++ '"' :: x) := by
  simp [quote]

/-- A quoted string and what follows it can be told from the text that they make. -/
theorem quote_append_inj : quote s ++ x = quote t ++ y ↔ s = t ∧ x = y := by
  refine ⟨fun h => ?_, fun ⟨hs, hx⟩ => hs ▸ hx ▸ rfl⟩
  rw [quote_append, quote_append, List.cons_inj_right] at h
  have hread := congrArg Term.readUnits h
  rw [Term.readUnits_flatMap_escaped, Term.readUnits_flatMap_escaped, Option.some_inj, Prod.mk.injEq] at hread
  have hchars : s.toList = t.toList := (List.map_inj_right fun _ _ => Char.toNat_inj.mp).mp hread.1
  exact ⟨String.toList_inj.mp hchars, hread.2⟩

end MonitorExport.Json
