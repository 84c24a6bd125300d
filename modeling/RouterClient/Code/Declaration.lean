import RouterClient.Model.Local
import RouterClient.Settings
import RouterClient.Code.Identifier
import RouterClient.Code.Layout
import RouterClient.Code.StringLiteral
import RouterClient.Code.TypeExpr

/-! # Declarations of Swift models

An object becomes a struct, an enumeration an enum with string values, and a union a struct that
holds one of several alternatives. Declarations stay data until they are written as lines, so that
what is declared where can be told without reading Swift.
-/

namespace RouterClient.Code

open Model (LocalModel LocalModels)

/-- The start of a declaration. -/
structure Heading where
  access : Access
  name : String
  /-- The protocols that the model conforms to, as they are written. -/
  conformance : String
  description : Option String
  deriving DecidableEq, Repr

structure Property where
  /-- The key of the property's value in JSON. -/
  key : String
  name : String
  type : TypeExpr
  description : Option String
  /-- The enum case that the initializer assigns unless it is told another value. -/
  initial : Option String
  deriving DecidableEq, Repr, Inhabited

/-- An alternative of a union: the property that holds it, and the type of what it holds. -/
structure Alternative where
  property : String
  payload : TypeExpr
  deriving DecidableEq, Repr, Inhabited

/-- One attempt of a union's decoder. -/
inductive Attempt where
  /-- Accept a null, with no property set. -/
  | null
  /-- Accept what the alternative's type accepts. -/
  | decode (alternative : Alternative)
  deriving DecidableEq, Repr, Inhabited

/-- A case of an enum, and the string that it stands for. -/
structure EnumCase where
  label : String
  raw : String
  deriving DecidableEq, Repr, Inhabited

inductive Declaration where
  | record (heading : Heading) (properties : List Property)
      (models : List (LocalModel Declaration))
  | choice (heading : Heading) (alternatives : List Alternative) (attempts : List Attempt)
      (models : List (LocalModel Declaration))
  | enumeration (heading : Heading) (cases : List EnumCase)

/-- A type annotation: a name and its type. -/
def annotated (name : String) (type : TypeExpr) : String :=
  name ++ ": " ++ type.text

/-- What is written after a name that is declared with the heading's access. -/
def Heading.declare (heading : Heading) (text : String) : String :=
  heading.access.modifier ++ text

/-- The first line of a struct, without its brace. -/
def Heading.structLine (heading : Heading) : String :=
  heading.declare ("struct " ++ heading.name ++ ": " ++ heading.conformance)

/-- The first line of an enum, without its brace. -/
def Heading.enumLine (heading : Heading) : String :=
  heading.declare ("enum " ++ heading.name ++ ": String, " ++ heading.conformance)

namespace Property

def lines (heading : Heading) (property : Property) : Lines :=
  docComment? property.description ++
    [heading.declare ("var " ++ annotated property.name property.type)]

/-- The property's parameter in the initializer. An absent value needs no argument. -/
def parameter (property : Property) : String :=
  let plain := annotated property.name property.type
  if property.type.isOptional then plain ++ " = nil"
  else match property.initial with
    | some label => plain ++ " = ." ++ label
    | none => plain

def assignment (name : String) : String :=
  "self." ++ name ++ " = " ++ name

/-- The property's coding key, with its JSON key where that is not its name. -/
def codingKey (property : Property) : String :=
  if property.name = property.key then "case " ++ property.name
  else "case " ++ property.name ++ " = " ++ literal property.key

end Property

/-- The coding keys of a struct, which are only written when a property is not named like its
key. -/
def codingKeys (properties : List Property) : Lines :=
  if properties.any fun property => property.name ≠ property.key then
    "" :: Lines.block "enum CodingKeys: String, CodingKey" (properties.map Property.codingKey)
  else []

def memberwiseInit (heading : Heading) (properties : List Property) : Lines :=
  if properties.isEmpty then [heading.declare "init() \x7b\x7d"]
  else
    let parameters := ", ".intercalate (properties.map Property.parameter)
    Lines.block (heading.declare ("init(" ++ parameters ++ ")"))
      (properties.map fun property => Property.assignment property.name)

namespace Alternative

def propertyLine (heading : Heading) (alternative : Alternative) : String :=
  heading.declare ("var " ++ annotated alternative.property alternative.payload ++ "?")

/-- The initializer that chooses the alternative, after a blank line. -/
def initLines (heading : Heading) (alternative : Alternative) : Lines :=
  "" :: Lines.block
    (heading.declare ("init(" ++ annotated alternative.property alternative.payload ++ ")"))
    [Property.assignment alternative.property]

/-- The encoder's test of the alternative. -/
def encodeLines (alternative : Alternative) : Lines :=
  Lines.block ("if let value = " ++ alternative.property)
    ["try container.encode(value)", "return"]

end Alternative

def Attempt.lines : Attempt → Lines
  | null => Lines.block "if container.decodeNil()" ["return"]
  | decode alternative =>
    Lines.block ("if let value = try? container.decode(" ++ alternative.payload.text ++ ".self)")
      ["self." ++ alternative.property ++ " = value", "return"]

/-- The decoder of a union: the attempts in order, and an error when all of them fail. -/
def decoderLines (heading : Heading) (attempts : List Attempt) : Lines :=
  let message := literal ("No alternative of " ++ heading.name ++ " matched the payload")
  "" :: Lines.block (heading.declare "init(from decoder: Decoder) throws")
    ("let container = try decoder.singleValueContainer()" :: attempts.flatMap Attempt.lines ++
      ["throw DecodingError.dataCorruptedError(in: container, debugDescription: " ++
        message ++ ")"])

/-- The encoder of a union: the first property that is set, or null. -/
def encoderLines (heading : Heading) (alternatives : List Alternative) : Lines :=
  "" :: Lines.block (heading.declare "func encode(to encoder: Encoder) throws")
    ("var container = encoder.singleValueContainer()" ::
      alternatives.flatMap Alternative.encodeLines ++ ["try container.encodeNil()"])

def EnumCase.line (enumCase : EnumCase) : String :=
  "case " ++ enumCase.label ++ " = " ++ literal enumCase.raw

namespace Declaration

def heading : Declaration → Heading
  | record heading _ _ | choice heading _ _ _ | enumeration heading _ => heading

def models : Declaration → LocalModels Declaration
  | record _ _ models | choice _ _ _ models => models
  | enumeration _ _ => []

mutual

def lines : Declaration → Lines
  | record heading properties models =>
    docComment? heading.description ++ Lines.block heading.structLine
      (properties.flatMap (Property.lines heading) ++ Lines.afterBlank (modelLines models) ++
        codingKeys properties ++ "" :: memberwiseInit heading properties)
  | choice heading alternatives attempts models =>
    docComment? heading.description ++ Lines.block heading.structLine
      (alternatives.map (Alternative.propertyLine heading) ++
        Lines.afterBlank (modelLines models) ++
        alternatives.flatMap (Alternative.initLines heading) ++
        decoderLines heading attempts ++ encoderLines heading alternatives)
  | enumeration heading cases =>
    docComment? heading.description ++ Lines.block heading.enumLine (cases.map EnumCase.line)

/-- The lines of nested models, with a blank line between any two. -/
def modelLines : List (LocalModel Declaration) → Lines
  | [] => []
  | [⟨_, _, definition⟩] => definition.lines
  | ⟨_, _, definition⟩ :: second :: more => definition.lines ++ "" :: modelLines (second :: more)

end

/-- Nested models are written one after the other. -/
theorem modelLines_eq (models : LocalModels Declaration) :
    modelLines models = Lines.spaced (models.map fun model => model.definition.lines) := by
  match models with
  | [] => rfl
  | [⟨_, _, definition⟩] => rfl
  | ⟨_, _, definition⟩ :: second :: more =>
    rw [modelLines, modelLines_eq (second :: more)]
    rfl

def text (declaration : Declaration) : String :=
  declaration.lines.text

/-- The lines of nested models have the text that the models are rendered with. -/
theorem text_modelLines (models : LocalModels Declaration) :
    (modelLines models).text = models.render text := by
  match models with
  | [] => rfl
  | [⟨_, _, definition⟩] => simp [modelLines, LocalModels.render, text]
  | ⟨_, _, definition⟩ :: second :: more =>
    have rest := text_modelLines (second :: more)
    have blank : Lines.text ("" :: modelLines (second :: more)) =
        "\n" ++ (modelLines (second :: more)).text := by
      simp [Lines.text, String.join_cons]
    rw [modelLines, Lines.text_append, blank, rest]
    simp [LocalModels.render, text, String.intercalate_cons_cons, String.append_assoc]

/-- Two declarations are the same when they are written the same. -/
instance : BEq Declaration := ⟨fun a b => a.text == b.text⟩

end Declaration

end RouterClient.Code
