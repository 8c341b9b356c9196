import Mathlib.Logic.Basic
import MonitorExport.Proofs.Export.Pruning

/-!
# Nested rules

Rules below scopes are written out with the paths of the scopes in front of their own. A path is cut at the joints as
well as inside its parts, so the tags on it are those of the scopes, the outermost first, and then the rule's own.
-/

namespace MonitorExport

/-! ## Paths and their parts -/

namespace Text

variable {separates : Char → Bool} {c : Char}

theorem splitAt_ne_nil (separates : Char → Bool) (cs : List Char) : splitAt separates cs ≠ [] := by
  cases cs with
  | nil => exact List.cons_ne_nil _ _
  | cons c rest =>
      rw [splitAt]
      split
      · exact List.cons_ne_nil _ _
      · split <;> exact List.cons_ne_nil _ _

/-- What stands on either side of a separator is cut on its own. -/
theorem splitAt_append (h : separates c = true) (before after : List Char) :
    splitAt separates (before ++ c :: after) = splitAt separates before ++ splitAt separates after := by
  induction before with
  | nil => simp [splitAt, h]
  | cons d before ih =>
      rw [List.cons_append, splitAt, splitAt, ih]
      split
      · rfl
      · cases hparts : splitAt separates before with
        | nil => exact absurd hparts (splitAt_ne_nil separates before)
        | cons part parts => rfl

theorem segments_empty (separates : Char → Bool) : segments separates "" = [] := by
  simp [segments, splitAt]

theorem segments_append (h : separates c = true) (s t : String) :
    segments separates (s ++ String.singleton c ++ t) = segments separates s ++ segments separates t := by
  simp only [segments, String.toList_append, String.toList_singleton, List.append_assoc, List.singleton_append]
  rw [splitAt_append h, List.filter_append, List.map_append]

theorem segments_intercalate (h : separates c = true) (parts : List String) :
    segments separates ((String.singleton c).intercalate parts) = parts.flatMap (segments separates) := by
  induction parts with
  | nil => rw [String.intercalate_nil, segments_empty, List.flatMap_nil]
  | cons part parts ih =>
      rw [List.flatMap_cons, ← ih]
      cases parts with
      | nil => rw [String.intercalate_singleton, String.intercalate_nil, segments_empty, List.append_nil]
      | cons next parts => rw [String.intercalate_cons_cons, segments_append h]

end Text

/-! ## Rules in their scopes -/

/-- A rule of nested entries: the paths of the scopes around it, the outermost first, its own path and its value. -/
structure NestedRule where
  scopes : List String
  path : String
  value : Value

namespace NestedRule

def paths (r : NestedRule) : List String := r.scopes ++ [r.path]

def within (scope : String) (r : NestedRule) : NestedRule := { r with scopes := scope :: r.scopes }

def flat (r : NestedRule) : PruningRule := ⟨"/".intercalate r.paths, r.value⟩

end NestedRule

namespace RuleEntry

mutual

/-- The rules in an entry, in order. -/
def rules : RuleEntry → List NestedRule
  | .rule path value => [⟨[], path, value⟩]
  | .scope path entries => (rulesOf entries).map (·.within path)

def rulesOf : List RuleEntry → List NestedRule
  | [] => []
  | entry :: rest => entry.rules ++ rulesOf rest

end

end RuleEntry

namespace PruningRule

/-- The tags on a path, between slashes and points. -/
def tagsOn (path : String) : List String := Text.segments (fun c => c = '/' || c = '.') path

theorem segments_flat (r : NestedRule) : r.flat.segments = r.paths.flatMap tagsOn :=
  Text.segments_intercalate (c := '/') rfl r.paths

end PruningRule

namespace PruningRules

theorem intercalate_within (scope : String) (r : NestedRule) :
    "/".intercalate (r.within scope).paths = scope ++ "/" ++ "/".intercalate r.paths :=
  String.intercalate_cons_of_ne_nil (List.append_ne_nil_of_right_ne_nil _ (List.cons_ne_nil _ _))

theorem joinPath_joinPath (start : Option String) (scope path : String) :
    joinPath (some (joinPath start scope)) path = joinPath start (scope ++ "/" ++ path) := by
  cases start with
  | none => rfl
  | some start => simp only [joinPath, String.append_assoc]

mutual

theorem flatten_eq (start : Option String) : (entry : RuleEntry) →
    flatten start entry = entry.rules.map fun r => ⟨joinPath start r.flat.path, r.value⟩
  | .rule path value => by
      rw [flatten, RuleEntry.rules]
      simp [NestedRule.flat, NestedRule.paths]
  | .scope scope entries => by
      -- the start that is handed down and the scopes that are put in front later make the same path
      rw [flatten, RuleEntry.rules, flattenAll_eq (some (joinPath start scope)) entries, List.map_map]
      refine List.map_congr_left fun r _ => ?_
      rw [joinPath_joinPath, Function.comp_apply, NestedRule.flat, NestedRule.flat, intercalate_within]
      rfl

theorem flattenAll_eq (start : Option String) : (entries : List RuleEntry) →
    flattenAll start entries = (RuleEntry.rulesOf entries).map fun r => ⟨joinPath start r.flat.path, r.value⟩
  | [] => rfl
  | entry :: rest => by
      rw [flattenAll, RuleEntry.rulesOf, List.map_append, flatten_eq start entry, flattenAll_eq start rest]

end

theorem rules_ofEntries (entries : List RuleEntry) :
    (ofEntries entries).rules = (RuleEntry.rulesOf entries).map NestedRule.flat :=
  flattenAll_eq none entries

/-- Nested entries stand for one rule after the other. The tags on the path of a rule are those on the paths of the
scopes around it, the outermost first, and on its own; it names the elements to which these tags lead. -/
theorem ofEntries_scoped (entries : List RuleEntry) :
    (ofEntries entries).rules.map (fun r => (r.segments, r.value)) =
      (RuleEntry.rulesOf entries).map (fun r => (r.paths.flatMap PruningRule.tagsOn, r.value)) ∧
    ∀ above n, (ofEntries entries).Names above n ↔ ∃ r ∈ RuleEntry.rulesOf entries, ∃ parents leaf,
      r.paths.flatMap PruningRule.tagsOn = parents ++ [leaf] ∧ n.tag = leaf ∧ n.children = [] ∧
      n.text = some r.value.render ∧ parents.reverse <+: above := by
  constructor
  · rw [rules_ofEntries, List.map_map]
    exact List.map_congr_left fun r _ => congrArg (·, r.value) (PruningRule.segments_flat r)
  · intro above n
    simp only [Names, rules_ofEntries, List.mem_map, exists_exists_and_eq_and, PruningRule.segments_flat]
    rfl

example : (ofEntries [.scope "/host." [.rule "status" (.int 0), .scope "" [.rule "inventory//mode." (.int 1)]]]).rules.map
    PruningRule.segments = [["host", "status"], ["host", "inventory", "mode"]] := by
  decide

end PruningRules

end MonitorExport
