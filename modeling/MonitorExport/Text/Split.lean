/-!
Cutting texts at separators.
-/

namespace MonitorExport.Text

/-- The parts of a text between its separators. There is one part more than separators. -/
def splitAt (separates : Char → Bool) : List Char → List (List Char)
  | [] => [[]]
  | c :: rest =>
    if separates c then [] :: splitAt separates rest else
    match splitAt separates rest with
    | part :: parts => (c :: part) :: parts
    | [] => [[c]]

/-- What stands before and after the first occurrence of a character. -/
def splitFirst (sep : Char) (cs : List Char) : Option (List Char × List Char) :=
  match cs.dropWhile (· ≠ sep) with
  | _ :: after => some (cs.takeWhile (· ≠ sep), after)
  | [] => none

/-- What stands before and after the last occurrence of a character. -/
def splitLast (sep : Char) (cs : List Char) : Option (List Char × List Char) :=
  (splitFirst sep cs.reverse).map fun (after, before) => (before.reverse, after.reverse)

def segments (separates : Char → Bool) (s : String) : List String :=
  ((splitAt separates s.toList).filter (· ≠ [])).map String.ofList

end MonitorExport.Text
