import MonitorExport.Export.Node
import MonitorExport.Value

/-!
Pruning rules. A rule names elements by the tags that lead to them and by the text which the importing
server assumes for them anyway; pruning leaves such elements out.
-/

namespace MonitorExport

/-- A rule: a path of tags, separated by slashes or points, and the value assumed there. -/
structure PruningRule where
  path : String
  value : Value

instance : Inhabited PruningRule := ⟨⟨"", default⟩⟩

namespace PruningRule

def segments (r : PruningRule) : List String :=
  Text.segments (fun c => c = '/' || c = '.') r.path

/-- Whether an element is one that the rule leaves out, by itself: it is `leaf`, has the text, and has no
children. -/
def assumed (leaf text : String) (n : Node) : Bool :=
  n.tag = leaf && n.children.isEmpty && n.text == some text

def removeMatching (leaf text : String) (n : Node) : Node :=
  { n with children := n.children.filter fun c => !assumed leaf text c }

/-- Follows tags down from an element, and leaves out what the rule assumes below the last of them. -/
def walk (leaf text : String) : List String → Node → Node
  | [], n => removeMatching leaf text n
  | next :: rest, n =>
    { n with children := n.children.map fun c => if c.tag = next then walk leaf text rest c else c }

/-- Follows the path of a rule from an element, if that is the first on it. -/
def walkFrom (leaf text : String) : List String → Node → Node
  | [], n => removeMatching leaf text n
  | first :: rest, n => if n.tag = first then walk leaf text rest n else n

/-! Following a path makes no tree larger, so that it can be followed from what is left of each element. -/

theorem sizeOf_children_lt {n c : Node} (h : c ∈ n.children) : sizeOf c < sizeOf n := by
  have hc := List.sizeOf_lt_of_mem h
  cases n
  simp only [Node.mk.sizeOf_spec] at hc ⊢
  omega

theorem sizeOf_map_le {f : Node → Node} (hf : ∀ c, sizeOf (f c) ≤ sizeOf c) (cs : List Node) :
    sizeOf (cs.map f) ≤ sizeOf cs := by
  induction cs with
  | nil => exact Nat.le_refl _
  | cons c cs ih =>
    have hc := hf c
    simp only [List.map_cons, List.cons.sizeOf_spec]
    omega

theorem sizeOf_filter_le (p : Node → Bool) (cs : List Node) : sizeOf (cs.filter p) ≤ sizeOf cs := by
  induction cs with
  | nil => exact Nat.le_refl _
  | cons c cs ih =>
    rw [List.filter_cons]
    split <;> simp only [List.cons.sizeOf_spec] <;> omega

theorem sizeOf_removeMatching_le (leaf text : String) (n : Node) : sizeOf (removeMatching leaf text n) ≤ sizeOf n := by
  have h := sizeOf_filter_le (fun c => !assumed leaf text c) n.children
  cases n
  simp only [removeMatching, Node.mk.sizeOf_spec] at h ⊢
  omega

theorem sizeOf_walk_le (leaf text : String) (path : List String) (n : Node) :
    sizeOf (walk leaf text path n) ≤ sizeOf n := by
  induction path generalizing n with
  | nil => exact sizeOf_removeMatching_le leaf text n
  | cons next rest ih =>
    have hc (c : Node) : sizeOf (if c.tag = next then walk leaf text rest c else c) ≤ sizeOf c := by
      split
      · exact ih c
      · exact Nat.le_refl _
    have h := sizeOf_map_le hc n.children
    cases n
    simp only [walk, Node.mk.sizeOf_spec] at h ⊢
    omega

theorem sizeOf_walkFrom_le (leaf text : String) (path : List String) (n : Node) :
    sizeOf (walkFrom leaf text path n) ≤ sizeOf n := by
  cases path with
  | nil => exact sizeOf_removeMatching_le leaf text n
  | cons first rest =>
    rw [walkFrom]
    split
    · exact sizeOf_walk_le leaf text rest n
    · exact Nat.le_refl _

/-- Follows the path of a rule from each element of a tree, the outer ones first. -/
def pruneFrom (leaf text : String) (parents : List String) (n : Node) : Node :=
  { walkFrom leaf text parents n with
    children := (walkFrom leaf text parents n).children.attach.map fun c => pruneFrom leaf text parents c.1 }
termination_by sizeOf n
decreasing_by exact Nat.lt_of_lt_of_le (sizeOf_children_lt c.2) (sizeOf_walkFrom_le leaf text parents n)

/-- Leaves out what the rule names. A rule without tags names nothing. -/
def prune (r : PruningRule) (root : Node) : Node :=
  match r.segments.getLast? with
  | none => root
  | some leaf => pruneFrom leaf r.value.render r.segments.dropLast root

end PruningRule

/-- A rule, or rules that share the start of their paths. -/
inductive RuleEntry where
  | rule (path : String) (value : Value)
  | scope (path : String) (entries : List RuleEntry)

structure PruningRules where
  rules : List PruningRule

namespace PruningRules

def empty : PruningRules := ⟨[]⟩

instance : Inhabited PruningRules := ⟨empty⟩

/-- A path below another, if there is one. -/
def joinPath (start : Option String) (path : String) : String :=
  match start with
  | some start => start ++ "/" ++ path
  | none => path

mutual

/-- The rules of an entry, in order. -/
def flatten (start : Option String) : RuleEntry → List PruningRule
  | .rule path value => [⟨joinPath start path, value⟩]
  | .scope path entries => flattenAll (some (joinPath start path)) entries

/-- The rules of entries, in order. -/
def flattenAll (start : Option String) : List RuleEntry → List PruningRule
  | [] => []
  | entry :: rest => flatten start entry ++ flattenAll start rest

end

/-- The rules of entries, with the paths of scopes written out. -/
def ofEntries (entries : List RuleEntry) : PruningRules :=
  ⟨flattenAll none entries⟩

def push (t : PruningRules) (path : String) (value : Value) : PruningRules :=
  ⟨t.rules ++ [⟨path, value⟩]⟩

def extend (t : PruningRules) (rules : List PruningRule) : PruningRules :=
  ⟨t.rules ++ rules⟩

def size (t : PruningRules) : Nat :=
  t.rules.length

/-- Leaves out what the rules name, one rule after the other. -/
def prune (t : PruningRules) (root : Node) : Node :=
  t.rules.foldl (fun root r => r.prune root) root

end PruningRules

end MonitorExport
