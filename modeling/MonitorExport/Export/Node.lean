import MonitorExport.Text.Split

/-!
Trees of tagged elements, the form of a compiled document, and paths in them.
-/

namespace MonitorExport

/-- An element with a tag, perhaps a text, and children. -/
structure Node where
  tag : String
  text : Option String
  children : List Node

namespace Node

instance : Inhabited Node := ⟨⟨"", none, []⟩⟩

def ofChildren (tag : String) (children : List Node) : Node :=
  ⟨tag, none, children⟩

def leaf (tag text : String) : Node :=
  ⟨tag, some text, []⟩

def isEmpty (n : Node) : Bool :=
  n.children.isEmpty && n.text.isNone

def child? (n : Node) (tag : String) : Option Node :=
  n.children.find? fun c => c.tag = tag

def childrenNamed (n : Node) (tag : String) : List Node :=
  n.children.filter fun c => c.tag = tag

def withoutChildren (n : Node) (tag : String) : Node :=
  { n with children := n.children.filter fun c => c.tag ≠ tag }

def push (n : Node) (child : Node) : Node :=
  { n with children := n.children ++ [child] }

/-- The elements with the first one of a tag changed. -/
def changeFirst (tag : String) (change : Node → Node) : List Node → List Node
  | [] => []
  | n :: rest => if n.tag = tag then change n :: rest else n :: changeFirst tag change rest

def changeChild (n : Node) (tag : String) (change : Node → Node) : Node :=
  { n with children := changeFirst tag change n.children }

/-- Whether a segment of a path matches a tag. A star matches all. -/
def segmentMatches (segment tag : String) : Bool :=
  segment = "*" || tag = segment

/-- The elements that a path leads to from any of the given ones. -/
def follow (segments : List String) (nodes : List Node) : List Node :=
  segments.foldl (fun nodes segment =>
    (nodes.flatMap (·.children)).filter fun c => segmentMatches segment c.tag) nodes

/-- The elements that a path leads to. The tags of a path are separated by slashes. -/
def findAll (n : Node) (path : String) : List Node :=
  follow (Text.segments (· = '/') path) [n]

def find? (n : Node) (path : String) : Option Node :=
  (n.findAll path).head?

def textAt? (n : Node) (path : String) : Option String :=
  (n.find? path).bind (·.text)

mutual

/-- All elements below one, each before its own, in the order of the document. -/
def descendants : Node → List Node
  | ⟨_, _, children⟩ => withDescendants children

/-- Elements with all below them. -/
def withDescendants : List Node → List Node
  | [] => []
  | n :: rest => n :: n.descendants ++ withDescendants rest

end

end Node

end MonitorExport
