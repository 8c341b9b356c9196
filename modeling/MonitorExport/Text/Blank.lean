import MonitorExport.Text.CharSet

/-!
Blank characters and trimming of texts. Blank is what the White_Space property of characters says.
-/

namespace MonitorExport.Text

/-- The characters with the property White_Space. -/
def blanks : CharSet where
  ranges := [(0x09, 0x0D), (0x20, 0x20), (0x85, 0x85), (0xA0, 0xA0), (0x1680, 0x1680), (0x2000, 0x200A),
    (0x2028, 0x2029), (0x202F, 0x202F), (0x205F, 0x205F), (0x3000, 0x3000)]

def isBlank (c : Char) : Bool :=
  blanks.contains c

def trimmed (cs : List Char) : List Char :=
  ((cs.dropWhile isBlank).reverse.dropWhile isBlank).reverse

end MonitorExport.Text
