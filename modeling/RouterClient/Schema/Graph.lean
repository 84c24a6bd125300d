/-! # Schema graphs

A schema is a node of a graph, and a node is known by its position alone: two nodes that look the
same are still two types. Nodes refer to each other by position, so a graph may have cycles.
-/

namespace RouterClient.Schema

/-- The position of a node. -/
structure NodeId where
  index : Nat
  deriving DecidableEq, Repr, Inhabited

/-- A type that Swift and its runtime text already have. -/
inductive Primitive where
  | string
  | integer
  | float
  | boolean
  | timestamp
  | any
  deriving DecidableEq, Repr

/-- How a collection arranges its elements. -/
inductive Arrangement where
  | array
  | set
  /-- A map with string keys. -/
  | map
  deriving DecidableEq, Repr

/-- A value that a schema names. -/
inductive Literal where
  | string (text : String)
  | number (x : Float)
  | bool (b : Bool)
  | null
  deriving BEq, Repr

/-- The text of a string literal. -/
def Literal.string? : Literal → Option String
  | string text => some text
  | _ => none

/-- What a node is. -/
inductive Kind where
  | primitive (p : Primitive)
  /-- No value at all. -/
  | empty
  | optional (inner : NodeId)
  | nullable (inner : NodeId)
  | collection (arrangement : Arrangement) (element : NodeId)
  | object (fields : List (String × NodeId))
  | enumeration (values : List Literal)
  | literal (value : Literal)
  | union (options : List NodeId)
  /-- A refinement, a default, a brand: a schema that is typed like the one inside it. -/
  | transform (inner : NodeId)
  /-- A schema that no Swift type stands for. -/
  | unsupported (typeName : String)
  deriving BEq, Repr, Inhabited

/-- What a node's author says about it. -/
structure Label where
  name : Option String := none
  description : Option String := none
  /-- Whether its type is declared once for the whole file. -/
  isGlobal : Bool := false
  deriving DecidableEq, Repr, Inhabited

structure Node where
  kind : Kind
  label : Label := {}
  deriving BEq, Repr

instance : Inhabited Node := ⟨{ kind := .empty }⟩

/-- Whether a node of the kind is declared under a name of its own. -/
def Kind.isNominal : Kind → Bool
  | object _ | enumeration _ | literal _ | union _ => true
  | _ => false

/-- The nodes that a kind refers to, in order. -/
def Kind.children : Kind → List NodeId
  | optional inner | nullable inner | transform inner => [inner]
  | collection _ element => [element]
  | object fields => fields.map Prod.snd
  | union options => options
  | primitive _ | empty | enumeration _ | literal _ | unsupported _ => []

/-- A graph of schemas. -/
structure Graph where
  nodes : Array Node := #[]
  deriving Inhabited

namespace Graph

/-- The node at a position. -/
def node (graph : Graph) (id : NodeId) : Node :=
  graph.nodes.getD id.index default

/-- What the node at a position is. -/
def kind (graph : Graph) (id : NodeId) : Kind :=
  (graph.node id).kind

/-- What is said about the node at a position. -/
def label (graph : Graph) (id : NodeId) : Label :=
  (graph.node id).label

def size (graph : Graph) : Nat :=
  graph.nodes.size

/-- Put a node at the next position. -/
def add (graph : Graph) (node : Node) : NodeId × Graph :=
  (⟨graph.size⟩, ⟨graph.nodes.push node⟩)

/-- Keep the next position for a node that is filled in later. -/
def reserve (graph : Graph) : NodeId × Graph :=
  graph.add default

/-- Write the node at a position. -/
def fill (graph : Graph) (id : NodeId) (node : Node) : Graph :=
  ⟨graph.nodes.setIfInBounds id.index node⟩

@[simp] theorem size_add (graph : Graph) (node : Node) :
    (graph.add node).2.size = graph.size + 1 := by
  simp [add, size]

@[simp] theorem size_fill (graph : Graph) (id : NodeId) (node : Node) :
    (graph.fill id node).size = graph.size := by
  simp [fill, size]

/-- What was filled in is found there. -/
theorem node_fill_self (graph : Graph) (id : NodeId) (node : Node) (h : id.index < graph.size) :
    (graph.fill id node).node id = node := by
  have h' : id.index < graph.nodes.size := h
  simp [fill, Graph.node, Array.getD, h']

/-- Filling in one node leaves the others alone. -/
theorem node_fill_of_ne (graph : Graph) (id other : NodeId) (node : Node) (h : id ≠ other) :
    (graph.fill id node).node other = graph.node other := by
  have h' : id.index ≠ other.index := fun e => h (by cases id; cases other; simp_all)
  simp [fill, Graph.node, Array.getD_eq_getD_getElem?, h']

end Graph

end RouterClient.Schema
