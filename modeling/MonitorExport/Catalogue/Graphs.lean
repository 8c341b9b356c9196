import MonitorExport.Catalogue.Preparation

/-!
Graphs and what they draw.
-/

namespace MonitorExport.Catalogue

def showHide : List (Int × String) :=
  [(0, "hide"), (1, "show")]

/-- A graph, whose items are numbered in order. -/
def graph : ModelDecl where
  name := "Graph"
  tag := some "graph"
  positional := some "name"
  reference := some ⟨"name", "name"⟩
  arrangement := some (.sequence "graph_items" "sortorder")
  fields := [
    ("name", Field.plain),
    ("width", Field.integer 900),
    ("height", Field.integer 200),
    ("yaxismin", Field.decimal 0.0),
    ("yaxismax", Field.decimal 0.0),
    ("show_work_period", Field.choice 1 showHide),
    ("show_triggers", Field.choice 1 showHide),
    ("type", Field.choiceNamed "normal" [
      (0, "normal"), (1, "stacked"), (2, "pie"), (3, "exploded")]),
    ("show_legend", Field.choice 1 showHide),
    ("show_3d", Field.choice 0 [(0, "2d"), (1, "3d")]),
    ("percent_left", Field.decimal 0.0),
    ("percent_right", Field.decimal 0.0),
    ("ymin_type", Field.choice 0 [(0, "calculated"), (1, "fixed"), (2, "item")]),
    ("ymin_item_1", Field.integer 0),
    ("ymax_item_1", Field.integer 0),
    ("graph_items", Field.set "GraphItem")]

/-- One item drawn in a graph, in a colour of its own. -/
def graphItem : ModelDecl where
  name := "GraphItem"
  tag := some "graph_item"
  positional := some "item"
  fields := [
    ("sortorder", Field.integer 0),
    ("color", Field.color),
    ("yaxisside", Field.choice 1 [(0, "left side"), (1, "right side")]),
    ("calc_fnc", Field.choice 2 [
      (1, "minimum value"), (2, "average value"), (4, "maximum value"),
      (9, "last value, used only by pie and exploded graphs")]),
    ("drawtype", Field.choice 0 [
      (0, "line"), (1, "filled region"), (2, "bold line"), (3, "dot"), (4, "dashed line"),
      (5, "gradient line")]),
    ("type", Field.choice 0 [(0, "simple"), (2, "graph sum, used only by pie and exploded graphs")]),
    ("item", Field.reference "Item")]

end MonitorExport.Catalogue
