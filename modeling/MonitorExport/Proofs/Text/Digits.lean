import Mathlib.Data.Nat.Digits.Defs
import MonitorExport.Text.Digits

/-!
# Digits

What is read from a text of ASCII digits is the number that they write in decimal, and nothing is read from any other
text.
-/

namespace MonitorExport.Text

variable {cs : List Char}

def IsDigits (cs : List Char) : Prop :=
  cs ≠ [] ∧ ∀ c ∈ cs, c.isDigit = true

/-- The number that digits write in decimal, the most significant first. -/
def decimal (digits : List Char) : Nat :=
  Nat.ofDigits 10 (digits.reverse.map fun c => c.toNat - '0'.toNat)

theorem decimal_eq_foldl (digits : List Char) :
    decimal digits = digits.foldl (fun n c => 10 * n + (c.toNat - 48)) 0 := by
  rw [decimal, Nat.ofDigits_eq_foldr, List.map_reverse, List.foldr_reverse, List.foldl_map]
  exact congrArg (digits.foldl · 0) (funext₂ fun n c => Nat.add_comm _ _)

theorem readDigits_eq_some_iff {n : Nat} : readDigits cs = some n ↔ IsDigits cs ∧ n = decimal cs := by
  rw [readDigits, decimal_eq_foldl, IsDigits]
  simp only [List.all_eq_true, eq_comm (a := n)]
  split <;> simp_all

end MonitorExport.Text
