import MonitorExport.Export.Node

/-!
The XML text of a tree. Every tag stands on a line of its own, indented by its depth, unless a text
stands right before it.
-/

namespace MonitorExport.Xml

def declaration : String := "<?xml version=\"1.0\" encoding=\"UTF-8\"?>"

/-- The form of a character inside a text. -/
def escaped : Char → List Char
  | '<' => "&lt;".toList
  | '>' => "&gt;".toList
  | '&' => "&amp;".toList
  | '\'' => "&apos;".toList
  | '"' => "&quot;".toList
  | c => [c]

/-- A new line with an indentation, unless a text stands right before. -/
def lineBreak (afterText : Bool) (width : Nat) : List Char :=
  if afterText then [] else '\n' :: List.replicate width ' '

mutual

/-- The characters of an element at a depth. -/
def element (indent depth : Nat) (afterText : Bool) : Node → List Char
  | ⟨tag, text, children⟩ =>
    let text := (text.getD "").toList
    let start := lineBreak afterText (depth * indent) ++ '<' :: tag.toList
    if text = [] ∧ children.isEmpty then
      start ++ ['/', '>']
    else
      start ++ '>' :: text.flatMap escaped
        ++ elements indent (depth + 1) (text ≠ []) children
        ++ lineBreak (text ≠ [] && children.isEmpty) (depth * indent)
        ++ '<' :: '/' :: tag.toList ++ ['>']

/-- The characters of elements in order. A text can stand before the first one only. -/
def elements (indent depth : Nat) (afterText : Bool) : List Node → List Char
  | [] => []
  | n :: rest => element indent depth afterText n ++ elements indent depth false rest

end

/-- The number of blanks for each level of depth, unless another is asked for. -/
def standardIndent : Nat := 2

def document (indent : Nat) (root : Node) : String :=
  String.ofList (declaration.toList ++ element indent 0 false root ++ ['\n'])

end MonitorExport.Xml
