import MonitorExport.Proofs.Export.Mapping
import MonitorExport.Proofs.Export.Trees

/-!
# Pruning

A rule follows its path from every element of a tree that is changed as it goes. What it leaves out is all
the same given by the tree as it was: an element is left out if the rule names it there. In a tree without
elements that have both a text and children, the rules of a table do not interfere either.
-/

namespace MonitorExport

open Node

namespace PruningRule

variable {leaf text : String} {parents rest done above : List String} {n : Node}

/-- Whether a rule leaves out an element, given the tags above it, the nearest first. -/
def prunes (leaf text : String) (parents : List String) : Test := fun above n =>
  assumed leaf text n && parents.reverse.isPrefixOf above

/-- The tree without the elements at most `depth` below its root that meet a test. -/
def cutTo (p : Test) : Nat → List String → Node → Node
  | 0, _, n => n
  | depth + 1, above, n =>
    { n with children := (n.children.filter fun c => !p (n.tag :: above) c).map (cutTo p depth (n.tag :: above)) }

@[simp] theorem tag_cutTo {p : Test} {depth : Nat} : (cutTo p depth above n).tag = n.tag := by
  cases depth <;> rfl

/-- Where a rule is at the end of its path, it leaves out the elements that it assumes. -/
theorem removeMatching_eq (h : parents.reverse <+: n.tag :: above) :
    removeMatching leaf text n = cutTo (prunes leaf text parents) 1 above n := by
  have hp : ∀ c, prunes leaf text parents (n.tag :: above) c = assumed leaf text c := fun c => by
    rw [prunes, List.isPrefixOf_iff_prefix.mpr h, Bool.and_true]
  simp only [removeMatching, cutTo, hp, List.map_id']

/-- An element off the path of a rule keeps what is so deep below it. -/
theorem cutTo_succ_of_off {depth : Nat}
    (h : ∀ tags : List String, tags.length = depth → ¬ parents.reverse <+: tags ++ n.tag :: above) :
    cutTo (prunes leaf text parents) (depth + 1) above n = cutTo (prunes leaf text parents) depth above n := by
  induction depth generalizing n above with
  | zero =>
      have hp : ∀ c, prunes leaf text parents (n.tag :: above) c = false := fun c => by
        rw [prunes, Bool.and_eq_false_iff]
        exact .inr (Bool.eq_false_iff.mpr fun hpre => h [] rfl (List.isPrefixOf_iff_prefix.mp hpre))
      simp only [cutTo, hp, Bool.not_false, List.map_id', List.filter_eq_self.mpr fun _ _ => rfl]
      cases n
      rfl
  | succ depth ih =>
      rw [cutTo, cutTo]
      congr 1
      refine List.map_congr_left fun c _ => ih fun tags htags => ?_
      have hc := h (tags ++ [c.tag]) (by simp [htags])
      rwa [List.append_assoc] at hc

/-- Following the rest of a path from an element leaves out the elements at the depth of its end. -/
theorem walk_cutTo (hparents : parents.reverse = rest.reverse ++ done) (hdone : done <+: n.tag :: above) :
    walk leaf text rest (cutTo (prunes leaf text parents) rest.length above n) =
      cutTo (prunes leaf text parents) (rest.length + 1) above n := by
  induction rest generalizing done above n with
  | nil => exact removeMatching_eq (by simpa [hparents] using hdone)
  | cons next rest ih =>
      have hnext : parents.reverse = rest.reverse ++ next :: done := by simpa using hparents
      rw [walk, List.length_cons, cutTo, cutTo, List.map_map]
      congr 1
      refine List.map_congr_left fun c _ => ?_
      simp only [Function.comp_apply, tag_cutTo]
      split
      · next hc => exact ih hnext (by rw [hc]; exact List.cons_prefix_cons.mpr ⟨rfl, hdone⟩)
      · next hc =>
        refine (cutTo_succ_of_off fun tags htags hpre => hc ?_).symm
        obtain ⟨more, hmore⟩ := hnext ▸ hpre
        rw [List.append_assoc] at hmore
        exact (List.cons.inj (List.append_inj hmore (by simp [htags])).2).1.symm

/-- Following the path of a rule from an element leaves out the elements at the depth of its end, if those
less deep are left out already. -/
theorem walkFrom_cutTo :
    walkFrom leaf text parents (cutTo (prunes leaf text parents) (parents.length - 1) above n) =
      cutTo (prunes leaf text parents) (parents.length - 1 + 1) above n := by
  cases parents with
  | nil => exact removeMatching_eq (List.nil_prefix)
  | cons first rest =>
      rw [walkFrom, tag_cutTo, List.length_cons, Nat.add_sub_cancel]
      split
      · next hn => exact walk_cutTo (List.reverse_cons ..) (by simp [hn])
      · next hn =>
        refine (cutTo_succ_of_off fun tags htags hpre => hn ?_).symm
        obtain ⟨more, hmore⟩ := hpre
        rw [List.reverse_cons, List.append_assoc] at hmore
        exact (List.cons.inj (List.append_inj hmore (by simp [htags])).2).1.symm

/-- Taking all elements of a tree as starts leaves out all elements that a rule names. -/
theorem pruneFrom_cutTo (n : Node) (above : List String) :
    pruneFrom leaf text parents (cutTo (prunes leaf text parents) (parents.length - 1) above n) =
      n.cut (prunes leaf text parents) above := by
  induction n using induct generalizing above with
  | h tag content children ih =>
      rw [pruneFrom, walkFrom_cutTo, cutTo, cut_eq]
      simp only [Node.mk.injEq, true_and]
      rw [List.attach_map_val, List.map_map]
      exact List.map_congr_left fun c hc => ih c (List.mem_filter.mp hc).1 _

/-- Short of the length of its path, a rule names no element of a whole tree. -/
theorem cutTo_root {depth : Nat} (h : above.length + depth < parents.length) :
    cutTo (prunes leaf text parents) depth above n = n := by
  induction depth generalizing n above with
  | zero => rfl
  | succ depth ih =>
      have hp : ∀ c, prunes leaf text parents (n.tag :: above) c = false := fun c => by
        rw [prunes, Bool.and_eq_false_iff]
        refine .inr (Bool.eq_false_iff.mpr fun hpre => ?_)
        have hle := (List.isPrefixOf_iff_prefix.mp hpre).length_le
        simp only [List.length_reverse, List.length_cons] at hle
        omega
      have hchildren : ∀ c ∈ n.children, cutTo (prunes leaf text parents) depth (n.tag :: above) c = c := fun c _ =>
        ih (by simp only [List.length_cons]; omega)
      simp only [cutTo, hp, Bool.not_false, List.filter_eq_self.mpr fun _ _ => rfl]
      rw [List.map_congr_left hchildren, List.map_id']
      cases n
      rfl

theorem pruneFrom_eq (n : Node) : pruneFrom leaf text parents n = n.cut (prunes leaf text parents) [] := by
  have hroot : cutTo (prunes leaf text parents) (parents.length - 1) [] n = n := by
    cases parents with
    | nil => rfl
    | cons first rest => exact cutTo_root (by simp)
  rw [← pruneFrom_cutTo, hroot]

/-- The test of a rule: whether it leaves out an element of a tree. -/
def names (r : PruningRule) : Test := fun above n =>
  match r.segments.getLast? with
  | none => false
  | some leaf => prunes leaf r.value.render r.segments.dropLast above n

theorem prune_eq (r : PruningRule) (root : Node) : r.prune root = root.cut r.names [] := by
  unfold prune names
  cases h : r.segments.getLast? with
  | none => exact (cut_false root []).symm
  | some leaf => exact pruneFrom_eq root

@[simp] theorem tag_prune (r : PruningRule) (root : Node) : (r.prune root).tag = root.tag := by rw [prune_eq, tag_cut]

theorem names_iff {r : PruningRule} :
    r.names above n = true ↔ ∃ parents leaf, r.segments = parents ++ [leaf] ∧ n.tag = leaf ∧ n.children = [] ∧
      n.text = some r.value.render ∧ parents.reverse <+: above := by
  unfold names
  cases h : r.segments.getLast? with
  | none =>
      have hnil : r.segments = [] := List.getLast?_eq_none_iff.mp h
      simp [hnil]
  | some leaf =>
      obtain ⟨path, hseg⟩ := List.getLast?_eq_some_iff.mp h
      have hpath : r.segments.dropLast = path := by rw [hseg, List.dropLast_concat]
      simp only [hpath, prunes, assumed, Bool.and_eq_true, decide_eq_true_eq, List.isEmpty_iff, beq_iff_eq,
        List.isPrefixOf_iff_prefix]
      constructor
      · rintro ⟨⟨⟨htag, hchildren⟩, htext⟩, hpre⟩
        exact ⟨_, _, hseg, htag, hchildren, htext, hpre⟩
      · rintro ⟨parents, last, hlast, htag, hchildren, htext, hpre⟩
        obtain ⟨hparents, hleaf⟩ := List.append_inj' (hseg.symm.trans hlast) rfl
        cases hleaf
        exact ⟨⟨⟨htag, hchildren⟩, htext⟩, hparents ▸ hpre⟩

theorem names_onLeaves (r : PruningRule) : r.names.OnLeaves := by
  intro above n h
  obtain ⟨_, _, _, _, hchildren, htext, _⟩ := names_iff.mp h
  exact ⟨hchildren, by simp [htext]⟩

end PruningRule

namespace PruningRules

variable {t : PruningRules} {rules : List PruningRule} {above : List String} {n : Node}

/-- Whether a rule of a table names an element: it is childless, its tag and text are the last segment and the
value of the rule, and the nearest tags above it are the other segments. -/
def Names (t : PruningRules) (above : List String) (n : Node) : Prop :=
  ∃ r ∈ t.rules, ∃ parents leaf, r.segments = parents ++ [leaf] ∧ n.tag = leaf ∧ n.children = [] ∧
    n.text = some r.value.render ∧ parents.reverse <+: above

def names (rules : List PruningRule) : Test := fun above n => rules.any fun r => r.names above n

theorem names_iff : names t.rules above n = true ↔ t.Names above n := by
  simp only [names, List.any_eq_true, PruningRule.names_iff, Names]

instance (t : PruningRules) (above : List String) (n : Node) : Decidable (t.Names above n) :=
  decidable_of_iff (names t.rules above n = true) names_iff

theorem names_onLeaves (rules : List PruningRule) : (names rules).OnLeaves := by
  intro above n h
  obtain ⟨r, _, hr⟩ := List.any_eq_true.mp h
  exact r.names_onLeaves above n hr

@[simp] theorem tag_prune (t : PruningRules) (root : Node) : (t.prune root).tag = root.tag :=
  List.foldlRecOn (motive := fun n => n.tag = root.tag) t.rules _ rfl fun n hn r _ => (r.tag_prune n).trans hn

/-- Pruning by one rule after the other leaves out what any of them names in the tree as it was. -/
theorem foldl_prune {root : Node} (h : root.Plain) :
    rules.foldl (fun root r => r.prune root) root = root.cut (names rules) [] := by
  induction rules generalizing root with
  | nil => exact (cut_false root []).symm
  | cons r rules ih =>
      rw [List.foldl_cons, PruningRule.prune_eq, ih (h.of_cut _ _), h.cut_cut (names_onLeaves rules)]
      rfl

theorem prune_eq {root : Node} (h : root.Plain) : t.prune root = root.cut (names t.rules) [] := foldl_prune h

theorem names_congr {rules' : List PruningRule} (h : ∀ r, r ∈ rules' ↔ r ∈ rules) : names rules' = names rules := by
  funext above n
  rw [Bool.eq_iff_iff]
  simp only [names, List.any_eq_true, h]

end PruningRules

/-! ## Trees of the mapping -/

namespace Mapping

theorem plain_leaf (tag text : String) : (Node.leaf tag text).Plain := .mk (.inr rfl) (by simp)

theorem plain_ofChildren (tag : String) {children : List Node} (h : All Plain children) :
    (Node.ofChildren tag children).Plain :=
  .mk (.inl rfl) h

theorem yieldsDrawing_any {α : Type} (d : Drawing α) : YieldsDrawing (fun _ => True) (fun _ => True) d := by
  intro palette
  cases h : d palette <;> trivial

theorem law_plain (s : Store) : Law s Plain fun _ => True where
  scalar e index overrides := by
    have hleaf : ∀ (name : String) (v : Option Value), All Plain (v.map fun v => Node.leaf name v.render).toList := by
      intro name v
      cases v with
      | none => simp [All]
      | some v => simpa [All] using plain_leaf name v.render
    unfold scalarNodes
    dsimp only
    split
    · exact .pure (hleaf _ _)
    · exact (yieldsDrawing_any fun palette => s.readDrawing e index palette).bind fun v _ => .pure (hleaf _ v)
  reference e index := by
    unfold referenceNode
    cases s.resolve e index with
    | error err => trivial
    | ok identity =>
        refine plain_ofChildren _ fun n hn => ?_
        obtain ⟨pair, _, rfl⟩ := List.mem_map.mp hn
        exact plain_leaf _ _
  width e a := by
    cases arrangementWidth s e a <;> trivial
  element tag _ h := plain_ofChildren tag h

end Mapping

/-- No element of the tree of an entity before pruning has both a text and children. -/
theorem Compiler.mapRoot_plain {c : Compiler} {s : Store} {e : EntityId} {root : Node}
    (h : c.mapRoot s e = .ok root) : root.Plain := by
  have hnodes := Mapping.entityNodes_yields (Mapping.law_plain s) [] (s.subtree e) c.palette.reset
  have hroot : Yields Plain (fun _ => True) (c.mapRoot s e) := by
    refine hnodes.bind fun nodes hnodes => ?_
    dsimp only
    split
    · refine Mapping.plain_ofChildren _ (Mapping.all_append ?_ hnodes)
      simp only [Compiler.header, All, List.mem_cons, List.not_mem_nil, or_false, forall_eq_or_imp, forall_eq]
      exact ⟨Mapping.plain_leaf _ _, Mapping.plain_leaf _ _⟩
    · exact Mapping.plain_ofChildren _ hnodes
  rwa [h] at hroot

namespace PruningRules

/-- Pruning leaves out exactly the elements below the root that a rule names in the tree as it was; all others
keep their tags, texts and order. So pruning again changes nothing, and neither order nor number of equal
rules matters. The trees that a mapping gives are as it is asked of them. -/
theorem prune_exact (t : PruningRules) {root : Node} (h : root.Plain) :
    ((t.prune root).tag = root.tag ∧ (t.prune root).text = root.text ∧
      ((t.prune root).inside []).map face = ((root.inside []).filter fun o => ¬ t.Names o.1 o.2).map face) ∧
    t.prune (t.prune root) = t.prune root ∧
    (∀ t' : PruningRules, (∀ r, r ∈ t'.rules ↔ r ∈ t.rules) → t'.prune root = t.prune root) ∧
    ∀ (c : Compiler) s e root, c.mapRoot s e = .ok root → root.Plain := by
  have hp : t.prune root = root.cut (names t.rules) [] := prune_eq h
  refine ⟨⟨by rw [hp, tag_cut], by rw [hp, text_cut], ?_⟩, ?_, fun t' ht => ?_, fun c s e root => ?_⟩
  · have htest : ∀ o : List String × Node, (!names t.rules o.1 o.2) = decide (¬ t.Names o.1 o.2) := fun o => by
      rw [decide_not, Bool.eq_iff_iff]
      simp [← names_iff]
    rw [hp, inside_cut (names_onLeaves t.rules), List.filter_congr fun o _ => htest o]
  · rw [hp, prune_eq (h.of_cut _ _), h.cut_cut (names_onLeaves t.rules)]
    simp only [Bool.or_self]
  · rw [prune_eq h, prune_eq h, names_congr ht]
  · exact Compiler.mapRoot_plain

theorem prune_exact_host :
    ((PruningRules.prune ⟨[⟨"host/status", .int 0⟩]⟩ ⟨"hosts", none, [⟨"host", none,
      [⟨"name", some "0", []⟩, ⟨"status", some "0", []⟩]⟩]⟩).inside []).map face =
      [(["hosts"], "host", none), (["host", "hosts"], "name", some "0")] := by
  have h : Plain ⟨"hosts", none, [⟨"host", none, [⟨"name", some "0", []⟩, ⟨"status", some "0", []⟩]⟩]⟩ :=
    Mapping.plain_ofChildren _ fun n hn => List.mem_singleton.mp hn ▸ Mapping.plain_ofChildren _ fun n hn => by
      simp only [List.mem_cons, List.not_mem_nil, or_false] at hn
      rcases hn with rfl | rfl <;> exact Mapping.plain_leaf _ _
  exact (prune_exact ⟨[⟨"host/status", .int 0⟩]⟩ h).1.2.2.trans (by decide)

end PruningRules

end MonitorExport
