import MonitorExport.Proofs.Export.Inks
import MonitorExport.Proofs.Schema.InOrder
import MonitorExport.Proofs.Store.Operations

/-!
# Colours of a mapped tree

In the order of the document, the elements of unset colours have the colours of the palette in turn, from the first one
on. It does not matter what was compiled before, and no other element takes a colour.
-/

namespace MonitorExport

namespace Palette

/-- A palette after some colours were drawn. -/
def after (p : Palette) : Nat → Palette
  | 0 => p
  | k + 1 => (p.after k).draw.2

@[simp] theorem colors_after (p : Palette) (k : Nat) : (p.after k).colors = p.colors := by
  induction k with
  | zero => rfl
  | succ k ih => exact ih

theorem cursor_after (p : Palette) (k : Nat) : (p.reset.after k).cursor = k % p.colors.length := by
  induction k with
  | zero => rw [Nat.zero_mod]; rfl
  | succ k ih =>
      change ((p.reset.after k).cursor + 1) % (p.reset.after k).colors.length = _
      rw [ih, colors_after]
      exact Nat.mod_add_mod k p.colors.length 1

/-- The `k`-th colour that is drawn from the start. -/
theorem draw_after (p : Palette) (k : Nat) : some (p.reset.after k).draw.1 = p.colors[k % p.colors.length]? := by
  have hlt : k % p.colors.length < p.colors.length := Nat.mod_lt _ (by rw [colors, List.length_cons]; omega)
  change some ((p.reset.after k).colors.getD ((p.reset.after k).cursor % (p.reset.after k).colors.length) _) = _
  rw [colors_after, cursor_after]
  change some (p.colors.getD (k % p.colors.length % p.colors.length) _) = _
  rw [Nat.mod_mod, List.getD_eq_getElem?_getD, List.getElem?_eq_getElem hlt, Option.getD_some]

end Palette

namespace Ink

/-- The value that is written, if no colour is drawn. -/
def value? : Ink → Option Value
  | .given _ _ v => some v
  | .stored _ _ v => some v
  | .blank _ _ => none

end Ink

namespace Mark

/-- Whether the text of an element is a colour that is drawn. -/
def isBlank (m : Mark) : Bool :=
  match m.2 with
  | some ink => ink.value?.isNone
  | none => false

/-- Whether an element is as its mark says: of the tag, and a leaf with the value if it is that of a scalar field. -/
def Shows (m : Mark) (n : Node) : Prop :=
  n.tag = m.1 ∧ ∀ ink, m.2 = some ink → n.children = [] ∧ ∀ v, ink.value? = some v → n.text = some v.render

/-- The number of colours that are drawn. -/
def blanks (marks : List Mark) : Nat :=
  marks.countP isBlank

/-- The texts of the elements whose colours are drawn. -/
def drawn (marks : List Mark) (nodes : List Node) : List (Option String) :=
  ((marks.zip nodes).filter fun (m, _) => isBlank m).map fun (_, n) => n.text

end Mark

open Mark

/-- Elements that are painted after `j` colours were drawn of a palette, and the palette after that. -/
structure Painted (p : Palette) (j : Nat) (marks : List Mark) (nodes : List Node) (left : Palette) : Prop where
  shows : List.Forall₂ Shows marks nodes
  drawn : drawn marks nodes = (List.range' j (blanks marks)).map fun i => some (p.after i).draw.1
  left : left = p.after (j + blanks marks)

namespace Painted

variable {p left left' : Palette} {j : Nat} {marks marks' : List Mark} {nodes nodes' : List Node}

theorem nil : Painted p j [] [] (p.after j) := ⟨.nil, rfl, rfl⟩

theorem append (h : Painted p j marks nodes left) (h' : Painted p (j + blanks marks) marks' nodes' left') :
    Painted p j (marks ++ marks') (nodes ++ nodes') left' where
  shows := List.rel_append h.shows h'.shows
  drawn := by
    rw [Mark.drawn, List.zip_append h.shows.length_eq, List.filter_append, List.map_append]
    change Mark.drawn marks nodes ++ Mark.drawn marks' nodes' = _
    rw [h.drawn, h'.drawn, ← List.map_append, List.range'_append_1, blanks, blanks, blanks, List.countP_append]
  left := by rw [h'.left, blanks, blanks, blanks, List.countP_append, Nat.add_assoc]

/-- An element that takes no colour. -/
theorem single {m : Mark} {n : Node} (hm : Shows m n) (hb : isBlank m = false) : Painted p j [m] [n] (p.after j) := by
  have hzero : blanks [m] = 0 := by rw [blanks, List.countP_singleton, if_neg (by simp [hb])]
  refine ⟨.cons hm .nil, ?_, by rw [hzero]; rfl⟩
  rw [hzero, Mark.drawn]
  simp [hb]

/-- An element that takes the next colour. -/
theorem blank (tag : String) (e : EntityId) (index : Nat) :
    Painted p j [(tag, some (.blank e index))] [Node.leaf tag (p.after j).draw.1] (p.after (j + 1)) where
  shows := .cons ⟨rfl, fun ink hink => ⟨rfl, fun v hv => by cases hink; cases hv⟩⟩ .nil
  drawn := rfl
  left := rfl

end Painted

namespace Sketch

mutual

theorem painted (p : Palette) (j : Nat) : (sk : Sketch) →
    Painted p j sk.marks ((sk.paint (p.after j)).1 :: (sk.paint (p.after j)).1.descendants) (sk.paint (p.after j)).2
  | .element tag text children => by
      have hchildren := paintedAll p j children
      have hself : Painted p j [(tag, none)] [⟨tag, text, (paintAll (p.after j) children).1⟩] (p.after j) :=
        .single ⟨rfl, by simp⟩ rfl
      rw [Sketch.paint, Sketch.marks]
      exact hself.append hchildren
  | .leaf tag ink => by
      rw [Sketch.paint, Sketch.marks]
      have hshows : ∀ v, ink.value? = some v → Shows (tag, some ink) (Node.leaf tag v.render) := fun v hv =>
        ⟨rfl, fun ink' hink => ⟨rfl, fun v' hv' => by cases hink; cases hv.symm.trans hv'; rfl⟩⟩
      cases ink with
      | given e index v => exact .single (hshows v rfl) rfl
      | stored e index v => exact .single (hshows v rfl) rfl
      | blank e index => exact .blank tag e index

theorem paintedAll (p : Palette) (j : Nat) : (sks : List Sketch) →
    Painted p j (marksAll sks) (Node.withDescendants (paintAll (p.after j) sks).1) (paintAll (p.after j) sks).2
  | [] => .nil
  | sk :: sks => by
      have hhead := painted p j sk
      have htail := paintedAll p (j + blanks sk.marks) sks
      rw [← hhead.left] at htail
      rw [paintAll, marksAll]
      exact hhead.append htail

end

end Sketch

/-- The elements of a tree in the order of the document, marked as those of the fields that are mapped of an entity, with
the colours of a palette in turn where a colour is drawn. -/
structure Coloured (colors : List String) (s : Store) (e : EntityId) (marks : List Mark) (nodes : List Node) : Prop where
  shows : List.Forall₂ Shows marks nodes
  tells : Mapping.Tells s (Mapping.Below s (e, [])) marks
  drawn : drawn marks nodes = (List.range (blanks marks)).map fun i => colors[i % colors.length]?

namespace Compiler

/-- A compiler that has compiled any number of entities, at any time, which may be pinned. Each of these compilations has
drawn some colours from the start of the palette, whether it ended or failed midway. -/
inductive Used (c : Compiler) : Compiler → Prop
  | new : Used c c
  | compiled {c' : Compiler} (h : Used c c') (k : Nat) (pinned : Option Timestamp) (clock : Timestamp) :
      Used c { c' with palette := c'.palette.reset.after k, pinned, clock }

open Store

variable {c c' : Compiler} {s : Store} {e : EntityId} {root : Node}

theorem Used.colors (h : Used c c') : c'.palette.colors = c.palette.colors := by
  induction h with
  | new => rfl
  | compiled _ k _ _ ih => exact (Palette.colors_after _ k).trans ih

/-- The sketch of the root of an entity's tree. -/
def rootSketch (c : Compiler) (s : Store) (e : EntityId) (sketches : List Sketch) : Sketch :=
  if s.isDocument e then
    .ofChildren rootTag (.element "version" (some c.version) [] :: .element "date" (some c.time.text) [] :: sketches)
  else .ofChildren (s.schemaOf e).tag sketches

theorem mapRoot_eq (c : Compiler) (s : Store) (e : EntityId) :
    c.mapRoot s e = (Mapping.entitySketches s [] (s.subtree e)).map fun sketches =>
      ((c.rootSketch s e sketches).paint c.palette.reset).1 := by
  have hpaints := Mapping.entityNodes_paints s [] (s.subtree e) c.palette.reset
  unfold mapRoot
  rw [StateT.run, hpaints]
  cases Mapping.entitySketches s [] (s.subtree e) with
  | error err => rfl
  | ok sketches =>
      unfold rootSketch
      cases hdoc : s.isDocument e <;> rfl

theorem tells_rootSketch {sketches : List Sketch} {fields : EntityId → Overrides → Nat → Prop}
    (h : Mapping.Tells s fields (Sketch.marksAll sketches)) : Mapping.Tells s fields (c.rootSketch s e sketches).marks := by
  unfold rootSketch
  split
  · rw [Mapping.marks_ofChildren]
    exact ((h.plain _).plain _).plain _
  · rw [Mapping.marks_ofChildren]
    exact h.plain _

/-- A compilation leaves a compiler that was used, if it ends. -/
theorem Used.mapped (h : Used c c') {ns : List Node} {left : Palette}
    (hmap : Mapping.entityNodes s [] (s.subtree e) c'.palette.reset = .ok (ns, left)) (pinned : Option Timestamp)
    (clock : Timestamp) : Used c { c' with palette := left, pinned, clock } := by
  rw [Mapping.entityNodes_paints] at hmap
  obtain ⟨sketches, _, hpaint⟩ := Except.map_eq_ok hmap
  have hleft := (Sketch.paintedAll c'.palette.reset 0 sketches).left
  change (Sketch.paintAll c'.palette.reset sketches).2 = _ at hleft
  rw [hpaint] at hleft
  cases hleft
  exact h.compiled _ pinned clock

/-- Whatever a compiler compiled before, a mapping gives the colours of its palette in turn to the unset colours, in the
order of the document. -/
theorem mapRoot_coloured (h : Reachable s) (hn : ¬ After s.owner e e) (hu : Used c c') (hok : c'.mapRoot s e = .ok root) :
    ∃ marks, Coloured c.palette.colors s e marks (root :: root.descendants) := by
  rw [mapRoot_eq] at hok
  obtain ⟨sketches, hsketches, rfl⟩ := Except.map_eq_ok hok
  have hwhole : (s.subtree e).Whole s := Store.subtree_whole_of_not_after h.linked hn
  have htells := Mapping.entitySketches_tells [] _ hwhole hsketches
  rw [Subtree.root_subtree] at htells
  have hpainted := Sketch.painted c'.palette.reset 0 (c'.rootSketch s e sketches)
  refine ⟨_, hpainted.shows, tells_rootSketch htells, ?_⟩
  rw [← hu.colors]
  refine hpainted.drawn.trans ?_
  rw [List.range_eq_range']
  exact List.map_congr_left fun i _ => Palette.draw_after c'.palette i

/-! ## A chart of bars -/

/-- Charts that number the shades of their bars. -/
def chartDecls : List ModelDecl := ModelDecl.number [
  { name := "Chart", fields := [("bars", .set "Bar"), ("border", .color)], arrangement := some (.sequence "bars" "shade") },
  { name := "Bar", fields := [("color", .color), ("shade", .color)] }]

def chartRegistry : Registry := ⟨(Registry.resolveInOrder chartDecls 0 chartDecls).toOption.getD []⟩

theorem chartRegistry_eq : Registry.ofDecls chartDecls = .ok chartRegistry :=
  Registry.ofDecls_eq (by decide) (by decide) (by decide)

theorem chartRegistry_namesGiven : chartRegistry.NamesGiven :=
  Registry.namesGiven_of_unprepared chartRegistry_eq (by simp [chartDecls, ModelDecl.number, ModelDecl.numberFrom])

/-- A chart of three bars, of which the second one has a colour. -/
def makeChart : Operation := .build ⟨0, 0⟩ .null ⟨[("bars", .list [.mapping .empty, .mapping ⟨[("color", .text "FF0000")]⟩,
  .mapping .empty])]⟩

def chart : Store := (makeChart.step (.ofRegistries [chartRegistry])).2

theorem makeChart_valid : makeChart.Valid (.ofRegistries [chartRegistry]) := Operation.build_valid fun x hx => by
  rw [namedIn_iff] at hx
  simp [names_mapping_iff, names_list_iff, Entries.empty, Input.text, not_names_value] at hx

theorem chart_reachable : Reachable chart :=
  .step (.start (List.forall_mem_singleton.mpr chartRegistry_namesGiven)) makeChart_valid trivial

def twoColours : Compiler := { standard ⟨2024, 1, 1, 0, 0, 0, 0⟩ with palette := .ofColors ["111111", "222222"] }

/-- The compiler after a compilation that drew one colour and then failed. -/
def interrupted : Compiler := { twoColours with palette := twoColours.palette.reset.after 1 }

theorem chart_mapped : chart.owner ⟨0⟩ = none ∧
    (interrupted.mapRoot chart ⟨0⟩).toOption.map (fun root => root.descendants.map (·.text)) = some [some "111111", none,
      none, some "222222", some "0", none, some "FF0000", some "1", none, some "111111", some "2"] := by
  decide

theorem mapRoot_coloured_chart : ∃ root, interrupted.mapRoot chart ⟨0⟩ = .ok root ∧
    root.descendants.map (·.text) = [some "111111", none, none, some "222222", some "0", none, some "FF0000", some "1",
      none, some "111111", some "2"] ∧
    ∃ marks, Coloured ["111111", "222222"] chart ⟨0⟩ marks (root :: root.descendants) := by
  obtain ⟨howner, htexts⟩ := chart_mapped
  have hn : ¬ After chart.owner ⟨0⟩ ⟨0⟩ := (Finishes.last howner).not_after
  cases hok : interrupted.mapRoot chart ⟨0⟩ with
  | error err =>
      rw [hok] at htexts
      cases htexts
  | ok root =>
      rw [hok] at htexts
      exact ⟨root, rfl, Option.some.inj htexts, mapRoot_coloured chart_reachable hn (.compiled .new 1 _ _) hok⟩

end Compiler

end MonitorExport
