/-!
Colours of texts on a terminal.
-/

namespace MonitorExport.CommandLine

/-- A colour of the terminal. -/
inductive Color where
  | red
  | green
  | yellow
  | blue
  | white
  | brightBlack
  | brightBlue
  | brightCyan
deriving DecidableEq

namespace Color

/-- The number that selects a colour for the text. -/
def code : Color → Nat
  | red => 31
  | green => 32
  | yellow => 33
  | blue => 34
  | white => 37
  | brightBlack => 90
  | brightBlue => 94
  | brightCyan => 96

end Color

/-- How a text is painted. -/
structure Paint where
  color : Color
  bold : Bool
deriving DecidableEq

namespace Paint

def plain (color : Color) : Paint := ⟨color, false⟩

def strong (color : Color) : Paint := ⟨color, true⟩

def reset : List Char := ['\x1b', '[', '0', 'm']

def start (p : Paint) : List Char :=
  ['\x1b', '['] ++ (if p.bold then ['1', ';'] else []) ++ (toString p.color.code).toList ++ ['m']

/-- The text with painting started again after every end of painting in it. -/
def restarted (p : Paint) : List Char → List Char
  | '\x1b' :: '[' :: '0' :: 'm' :: rest => reset ++ p.start ++ restarted p rest
  | c :: rest => c :: restarted p rest
  | [] => []

def apply (p : Paint) (s : String) : String :=
  String.ofList (p.start ++ p.restarted s.toList ++ reset)

end Paint

end MonitorExport.CommandLine
