import RouterClient.Schema.Graph

/-! # Swift types

The types of properties, inputs and outputs. A model's type remembers the node that the model is
for and where it was found, so that a type can be followed to its declaration.
-/

namespace RouterClient.Code

open Schema (NodeId Primitive Arrangement)

/-- Where a mention finds the model that it names. -/
inductive Binding where
  /-- Among the global models. -/
  | global
  /-- In the scope of the mention. -/
  | scope
  deriving DecidableEq, Repr, Inhabited

inductive TypeExpr where
  | primitive (p : Primitive)
  /-- The model of a node, mentioned by its name. -/
  | model (owner : NodeId) (name : String) (binding : Binding)
  | collection (arrangement : Arrangement) (element : TypeExpr)
  | optional (inner : TypeExpr)
  deriving DecidableEq, Repr, Inhabited

def primitiveName : Primitive → String
  | .string => "String"
  | .integer => "Int"
  | .float => "Double"
  | .boolean => "Bool"
  | .timestamp => "Date"
  | .any => "TRPCJSONValue"

namespace TypeExpr

/-- A collection's type, around the text of its elements' type. -/
def collectionText : Arrangement → String → String
  | .array, element => "[" ++ element ++ "]"
  | .set, element => "Set<" ++ element ++ ">"
  | .map, element => "[String: " ++ element ++ "]"

def text : TypeExpr → String
  | primitive p => primitiveName p
  | model _ name _ => name
  | collection arrangement element => collectionText arrangement element.text
  | optional inner => inner.text ++ "?"

/-- Whether a value of the type may be absent. -/
def isOptional : TypeExpr → Bool
  | optional _ => true
  | _ => false

/-- The type of a value that is not absent. -/
def required : TypeExpr → TypeExpr
  | optional inner => inner.required
  | type => type

/-- What the type comes down to under optionality and collections. -/
def base : TypeExpr → TypeExpr
  | collection _ element => element.base
  | optional inner => inner.base
  | type => type

end TypeExpr

end RouterClient.Code
