import MonitorExport.Export.Node

/-!
The form of a whole document: graphs and triggers move from hosts and templates to the root, groups and
applications are collected, and the root is put in order.
-/

namespace MonitorExport.Node

/-- The containers at the root that hold hosts and templates, with the tags of their members. -/
def scopeContainers : List (String × String) :=
  [("hosts", "host"), ("templates", "template")]

def rootOrder : List String :=
  ["version", "date", "templates", "graphs", "hosts", "screens", "triggers", "groups"]

/-- The hosts at the root, then the templates. -/
def scopes (root : Node) : List Node :=
  scopeContainers.flatMap fun (container, member) =>
    (root.childrenNamed container).flatMap (·.childrenNamed member)

def changeAll (tag : String) (change : Node → Node) (nodes : List Node) : List Node :=
  nodes.map fun n => if n.tag = tag then change n else n

/-- The root with its hosts and templates changed. -/
def changeScopes (root : Node) (change : Node → Node) : Node :=
  let children := scopeContainers.foldl (fun children (container, member) =>
    changeAll container (fun n => { n with children := changeAll member change n.children }) children)
    root.children
  { root with children }

/-- Moves the members of all containers of a tag that stand in hosts and templates to the end of the
root's own container. -/
def hoist (container : String) (root : Node) : Node :=
  let moved := root.scopes.flatMap fun scope =>
    (scope.childrenNamed container).flatMap (·.children)
  let rest := root.changeScopes (·.withoutChildren container)
  if moved.isEmpty then rest
  else if (rest.child? container).isSome then
    rest.changeChild container fun n => { n with children := n.children ++ moved }
  else
    rest.push (ofChildren container moved)

/-- The names of the members of all containers below an element. -/
def nestedNames (container member : String) (n : Node) : List String :=
  (n.descendants.filter fun d => d.tag = container).flatMap fun d =>
    (follow [member, "name"] [d]).filterMap (·.text)

def firstSeen (names : List String) : List String :=
  names.foldl (fun seen name => if name ∈ seen then seen else seen ++ [name]) []

def nameContainer (container member : String) (names : List String) : Node :=
  ofChildren container (names.map fun name => ofChildren member [leaf "name" name])

/-- Makes the root's groups all those that are named below its other children. -/
def rollupGroups (root : Node) : Node :=
  let names := firstSeen
    ((root.children.filter fun c => c.tag ≠ "groups").flatMap (nestedNames "groups" "group"))
  let rest := root.withoutChildren "groups"
  if names.isEmpty then rest else rest.push (nameContainer "groups" "group" names)

/-- Makes the applications of a host or template all those that are named in it. -/
def collectApplications (scope : Node) : Node :=
  let names := firstSeen (nestedNames "applications" "application" scope)
  if names.isEmpty then scope else
  let collected := nameContainer "applications" "application" names
  if (scope.child? "applications").isSome then scope.changeChild "applications" fun _ => collected
  else scope.push collected

/-- Makes the applications of each host and template all those that are named in it. -/
def rollupApplications (root : Node) : Node :=
  root.changeScopes collectApplications

/-- Whether an element is a container of the root without members. -/
def isBareContainer (n : Node) : Bool :=
  (rootOrder.drop 2).contains n.tag && n.children.isEmpty

/-- The place of a child of the root in an export. Other tags come last. -/
def rootRank (n : Node) : Nat :=
  rootOrder.idxOf n.tag

/-- Leaves out containers without members and puts the root's children in the order of an export. -/
def orderRoot (root : Node) : Node :=
  { root with children := (root.children.filter fun c => !isBareContainer c).mergeSort fun a b =>
      rootRank a ≤ rootRank b }

/-- Gives a document its form: what it holds and names is gathered at its root. -/
def gather (root : Node) : Node :=
  ((hoist "triggers" (hoist "graphs" root)).rollupGroups).rollupApplications.orderRoot

end MonitorExport.Node
