/-!
Palettes: colours handed out in turn, over and over.
-/

namespace MonitorExport

/-- A list of colours, at least one, and which of them comes next. -/
structure Palette where
  first : String
  others : List String
  cursor : Nat

namespace Palette

def colors (p : Palette) : List String :=
  p.first :: p.others

/-- The colours of a palette for which none are given. -/
def standard : Palette where
  first := "C80000"
  others := ["009600", "000096", "960096", "009696", "969600", "969696", "FF0000", "00FF00", "0000FF"]
  cursor := 0

/-- A palette of the given colours, or the standard one if there are none. -/
def ofColors : List String → Palette
  | [] => standard
  | first :: others => ⟨first, others, 0⟩

/-- The next colour, and the palette after it was taken. -/
def draw (p : Palette) : String × Palette :=
  (p.colors.getD (p.cursor % p.colors.length) p.first,
    { p with cursor := (p.cursor + 1) % p.colors.length })

def reset (p : Palette) : Palette :=
  { p with cursor := 0 }

end Palette

instance : Inhabited Palette := ⟨Palette.standard⟩

end MonitorExport
