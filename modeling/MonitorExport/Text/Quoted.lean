import MonitorExport.Text.Hidden

/-!
Quoted text: a text between double quotes in which quotes, backslashes and characters that would not
show are escaped. Messages quote the values they speak of in this form.
-/

namespace MonitorExport.Text

/-- The escaped form of one character: a backslash and a letter for the six common cases, the code
point in hexadecimal for the other hidden characters, and the character itself otherwise. -/
def escaped (c : Char) : List Char :=
  match c with
  | '"' => ['\\', '"']
  | '\\' => ['\\', '\\']
  | '\n' => ['\\', 'n']
  | '\r' => ['\\', 'r']
  | '\t' => ['\\', 't']
  | '\x00' => ['\\', '0']
  | c => if isHidden c then ['\\', 'u', '\x7b'] ++ Nat.toDigits 16 c.toNat ++ ['\x7d'] else [c]

def quoted (s : String) : String :=
  String.ofList ('"' :: s.toList.flatMap escaped ++ ['"'])

/-- Quoted texts between brackets, separated by commas. -/
def quotedList (ss : List String) : String :=
  "[" ++ ", ".intercalate (ss.map quoted) ++ "]"

end MonitorExport.Text
