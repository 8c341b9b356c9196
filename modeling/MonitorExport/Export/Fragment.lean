import MonitorExport.Export.Node

/-!
Fragments: a document cut into smaller ones, each with one host, template, graph, screen or trigger, in
the order in which they can be imported.
-/

namespace MonitorExport

/-- What a fragment carries. -/
inductive FragmentKind where
  | host
  | hostItems
  | template
  | graph
  | screen
  | hostScreen
  | templateScreen
  | trigger
deriving DecidableEq

namespace FragmentKind

/-- The path of what the fragment carries. -/
def path : FragmentKind → String
  | .host => "hosts/host"
  | .hostItems => "hosts/host/items"
  | .template => "templates/template"
  | .graph => "graphs/graph"
  | .screen => "screens/screen"
  | .hostScreen => "hosts/host/screens/screen"
  | .templateScreen => "templates/template/screens/screen"
  | .trigger => "triggers/trigger"

/-- The name of the kind. -/
def name : FragmentKind → String
  | .host => "host"
  | .hostItems => "host_items"
  | .template => "template"
  | .graph => "graph"
  | .screen => "screen"
  | .hostScreen => "host_screen"
  | .templateScreen => "template_screen"
  | .trigger => "trigger"

end FragmentKind

/-- A document that carries a part of a larger one. -/
structure Fragment where
  kind : FragmentKind
  name : String
  document : Node

namespace Fragment

def membersOf (root : Node) (container member : String) : List Node :=
  Node.follow [container, member] [root]

/-- The name of an element, or nothing. -/
def nameOf (n : Node) : String :=
  (n.textAt? "name").getD ""

/-- A fragment: the header of the document, a container with one part, and the groups. -/
def wrap (root : Node) (kind : FragmentKind) (name : String) (container : String) (part : Node) :
    Fragment :=
  { kind, name
    document := Node.ofChildren root.tag
      ((root.child? "version").toList ++ (root.child? "date").toList
        ++ Node.ofChildren container [part] :: (root.child? "groups").toList) }

def skeleton (member : String) (scope : Node) : Node :=
  Node.ofChildren scope.tag (scope.children.filter fun c => c.tag = "name" || c.tag = member)

def strip (tags : List String) (n : Node) : Node :=
  { n with children := n.children.filter fun c => !tags.contains c.tag }

/-- The fragment of a host, and that of its items if it has any. -/
def ofHost (root host : Node) : List Fragment :=
  let whole := wrap root .host (nameOf host) "hosts" (strip ["screens", "items"] host)
  let items := Node.follow ["items", "item"] [host]
  if items.isEmpty then [whole]
  else
    [whole, wrap root .hostItems (nameOf host) "hosts"
      ((skeleton "host" host).push (Node.ofChildren "items" items))]

def ofTemplate (root template : Node) : Fragment :=
  wrap root .template (nameOf template) "templates" (strip ["screens"] template)

/-- The fragments of the members of a root container, as they are. -/
def ofMembers (root : Node) (container member : String) (kind : FragmentKind) : List Fragment :=
  (membersOf root container member).map fun n => wrap root kind (nameOf n) container n

/-- The fragments of the screens of hosts or templates. -/
def ofScreens (root : Node) (container member : String) (kind : FragmentKind) : List Fragment :=
  (membersOf root container member).flatMap fun scope =>
    (Node.follow ["screens", "screen"] [scope]).map fun screen =>
      wrap root kind (nameOf screen) container
        ((skeleton member scope).push (Node.ofChildren "screens" [screen]))

/-- The fragments of a document: hosts, each with its items after it, templates, graphs, screens, the
screens of hosts and of templates, and triggers. -/
def split (root : Node) : List Fragment :=
  (membersOf root "hosts" "host").flatMap (ofHost root)
    ++ (membersOf root "templates" "template").map (ofTemplate root)
    ++ ofMembers root "graphs" "graph" .graph
    ++ ofMembers root "screens" "screen" .screen
    ++ ofScreens root "hosts" "host" .hostScreen
    ++ ofScreens root "templates" "template" .templateScreen
    ++ ofMembers root "triggers" "trigger" .trigger

end Fragment

end MonitorExport
