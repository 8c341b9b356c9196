/-!
Sets of characters given as ranges of code points, the form in which the properties of characters
are tabulated.
-/

namespace MonitorExport

/-- A set of characters: the code points that lie in one of the inclusive `ranges`. -/
structure CharSet where
  ranges : List (Nat × Nat)

namespace CharSet

def contains (set : CharSet) (c : Char) : Bool :=
  set.ranges.any fun (first, last) => first ≤ c.toNat && c.toNat ≤ last

theorem contains_iff (set : CharSet) (c : Char) :
    set.contains c = true ↔ ∃ r ∈ set.ranges, r.1 ≤ c.toNat ∧ c.toNat ≤ r.2 := by
  simp [contains]

end CharSet

end MonitorExport
