import MonitorExport.Export.Node

/-!
# Leaving elements out

What it means to leave out the elements of a tree that meet a test, where the test may ask for the tags
above an element. If it is met by childless elements with a text alone, then leaving out by one test and
then by another is leaving out by either, as long as no element has both a text and children.
-/

namespace MonitorExport.Node

/-- A test on an element, given the tags above it, the nearest first. -/
abbrev Test := List String → Node → Bool

theorem induct {motive : Node → Prop}
    (h : ∀ tag text children, (∀ c ∈ children, motive c) → motive ⟨tag, text, children⟩) : ∀ n, motive n
  | ⟨tag, text, children⟩ => h tag text children fun c hc =>
      have : sizeOf c < 1 + sizeOf tag + sizeOf text + sizeOf children :=
        Nat.lt_of_lt_of_le (List.sizeOf_lt_of_mem hc) (Nat.le_add_left _ _)
      induct h c
termination_by n => sizeOf n

mutual

/-- The tree without the elements below its root that meet a test. -/
def cut (p : Test) (above : List String) : Node → Node
  | ⟨tag, text, children⟩ => ⟨tag, text, cutAll p (tag :: above) children⟩

/-- The elements of a list that do not meet a test, cut. -/
def cutAll (p : Test) (above : List String) : List Node → List Node
  | [] => []
  | n :: rest => if p above n then cutAll p above rest else n.cut p above :: cutAll p above rest

end

mutual

/-- The elements below one, in the order of the document, each with the tags above it. -/
def inside (above : List String) : Node → List (List String × Node)
  | ⟨tag, _, children⟩ => insideAll (tag :: above) children

/-- The elements of a list with all below them. -/
def insideAll (above : List String) : List Node → List (List String × Node)
  | [] => []
  | n :: rest => (above, n) :: n.inside above ++ insideAll above rest

end

/-- What is left of an element when its children are not looked at. -/
def face (o : List String × Node) : List String × String × Option String := (o.1, o.2.tag, o.2.text)

/-- Whether no element of a tree has both a text and children. -/
inductive Plain : Node → Prop
  | mk {tag : String} {text : Option String} {children : List Node} (h : text = none ∨ children = [])
      (hc : ∀ c ∈ children, Plain c) : Plain ⟨tag, text, children⟩

/-- Whether a test is met by childless elements with a text alone. -/
def Test.OnLeaves (p : Test) : Prop := ∀ above n, p above n = true → n.children = [] ∧ n.text ≠ none

variable {p q : Test} {above : List String} {n : Node}

theorem cutAll_eq (ns : List Node) : cutAll p above ns = (ns.filter fun n => !p above n).map (cut p above) := by
  induction ns with
  | nil => rfl
  | cons n rest ih =>
      rw [cutAll, ih]
      cases hp : p above n <;> simp [hp]

theorem cut_eq (n : Node) : n.cut p above =
    ⟨n.tag, n.text, (n.children.filter fun c => !p (n.tag :: above) c).map (cut p (n.tag :: above))⟩ := by
  cases n
  rw [cut, cutAll_eq]

@[simp] theorem tag_cut : (n.cut p above).tag = n.tag := by
  rw [cut_eq]

@[simp] theorem text_cut : (n.cut p above).text = n.text := by
  rw [cut_eq]

theorem cut_of_childless (h : n.children = []) : n.cut p above = n := by
  cases n
  simp_all [cut_eq]

theorem cut_false (n : Node) (above : List String) : n.cut (fun _ _ => false) above = n := by
  induction n using induct generalizing above with
  | h tag text children ih =>
      simp only [cut_eq, Bool.not_false, List.filter_eq_self.mpr fun _ _ => rfl]
      rw [List.map_congr_left fun c hc => ih c hc _, List.map_id']

theorem map_inside (n : Node) (above : List String) : (n.inside above).map (·.2) = n.descendants := by
  induction n using induct generalizing above with
  | h tag text children ih =>
      rw [inside, descendants]
      suffices key : ∀ cs, (∀ c ∈ cs, c ∈ children) → ∀ a, (insideAll a cs).map (·.2) = withDescendants cs from
        key children (fun _ h => h) _
      intro cs hcs a
      induction cs with
      | nil => rfl
      | cons c cs ihs =>
          simp only [insideAll, withDescendants, List.cons_append, List.map_cons, List.map_append]
          rw [ih c (hcs c (by simp)), ihs fun x hx => hcs x (by simp [hx])]

/-! ## Plain trees -/

namespace Plain

theorem of_cut (h : n.Plain) (p : Test) (above : List String) : (n.cut p above).Plain := by
  induction h generalizing above with
  | @mk tag text children h _ ih =>
      rw [cut_eq]
      refine .mk (h.imp_right fun hc => by simp [hc]) fun c hc => ?_
      obtain ⟨c, hmem, rfl⟩ := List.mem_map.mp hc
      exact ih c (List.mem_filter.mp hmem).1 _

/-- Cutting an element does not change what a test on leaves says of it. -/
theorem test_cut (h : n.Plain) (hq : q.OnLeaves) (above' : List String) : q above (n.cut p above') = q above n := by
  cases h with
  | @mk tag text children h _ =>
      rcases h with rfl | rfl
      · have hno : ∀ m : Node, m.text = none → q above m = false := fun m hm => by
          cases hqm : q above m with
          | false => rfl
          | true => exact absurd hm (hq above m hqm).2
        rw [hno (Node.cut p above' ⟨tag, none, children⟩) text_cut, hno _ rfl]
      · rw [cut_of_childless rfl]

/-- Cutting by one test and then by another is cutting by either. -/
theorem cut_cut (h : n.Plain) (hq : q.OnLeaves) (above : List String) :
    (n.cut p above).cut q above = n.cut (fun a m => p a m || q a m) above := by
  induction h generalizing above with
  | @mk tag text children _ hc ih =>
      simp only [cut_eq, Node.mk.injEq, true_and]
      rw [List.filter_map, List.filter_filter, List.map_map]
      have hfilter : ∀ c ∈ children,
          (((fun c => !q (tag :: above) c) ∘ Node.cut p (tag :: above)) c && !p (tag :: above) c) =
            !(p (tag :: above) c || q (tag :: above) c) := fun c hmem => by
        rw [Function.comp_apply, (hc c hmem).test_cut hq, Bool.not_or, Bool.and_comm]
      rw [List.filter_congr hfilter]
      exact List.map_congr_left fun c hmem => ih c (List.mem_filter.mp hmem).1 _

end Plain

/-- Cutting by a test on leaves leaves out just the elements that meet it; the others keep tags, texts and
order. -/
theorem inside_cut (hp : p.OnLeaves) (n : Node) (above : List String) :
    ((n.cut p above).inside above).map face = ((n.inside above).filter fun o => !p o.1 o.2).map face := by
  induction n using induct generalizing above with
  | h tag text children ih =>
      rw [cut, inside, inside]
      suffices key : ∀ cs, (∀ c ∈ cs, c ∈ children) → ∀ a,
          (insideAll a (cutAll p a cs)).map face = ((insideAll a cs).filter fun o => !p o.1 o.2).map face from
        key children (fun _ h => h) _
      intro cs hcs a
      induction cs with
      | nil => rfl
      | cons c cs ihs =>
          have hc := ih c (hcs c (by simp)) a
          have hrest := ihs fun x hx => hcs x (by simp [hx])
          rw [cutAll, insideAll]
          split
          · next hpc =>
            -- an element that is left out has nothing below it
            have hnone : c.inside a = [] := by
              have hleaf := (hp a c hpc).1
              cases c
              simp_all [inside, insideAll]
            simp [hpc, hnone, hrest]
          · next hpc =>
            have hface : face (a, c.cut p a) = face (a, c) := by simp [face]
            simp [insideAll, hpc, hc, hrest, hface]

end MonitorExport.Node
