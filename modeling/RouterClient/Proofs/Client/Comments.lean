import RouterClient.Client.Assembly
import RouterClient.Proofs.Code.Comments
import RouterClient.Proofs.Code.Names

/-! # Descriptions in a client

The descriptions of schemas, fields and procedures are written as doc comments all over a file.  The file
has the code that it would have without any of them just where no code strays from their comments.
-/

namespace RouterClient.Code

open Model (LocalModel LocalModels)

/-! ## Declarations -/

def Heading.undescribed (heading : Heading) : Heading :=
  { heading with description := none }

def Property.undescribed (property : Property) : Property :=
  { property with description := none }

namespace Declaration

mutual

/-- The declaration without its descriptions, nor those of what is nested in it. -/
def undescribed : Declaration → Declaration
  | record heading properties models =>
    record heading.undescribed (properties.map Property.undescribed) (undescribedModels models)
  | choice heading alternatives attempts models =>
    choice heading.undescribed alternatives attempts (undescribedModels models)
  | enumeration heading cases => enumeration heading.undescribed cases

def undescribedModels : List (LocalModel Declaration) → LocalModels Declaration
  | [] => []
  | ⟨owner, name, definition⟩ :: more => ⟨owner, name, definition.undescribed⟩ :: undescribedModels more

end

mutual

/-- The descriptions in a declaration, at any depth. -/
def descriptions : Declaration → List String
  | record heading properties models =>
    heading.description.toList ++ properties.flatMap (fun property => property.description.toList) ++
      modelDescriptions models
  | choice heading _ _ models => heading.description.toList ++ modelDescriptions models
  | enumeration heading _ => heading.description.toList

def modelDescriptions : List (LocalModel Declaration) → List String
  | [] => []
  | ⟨_, _, definition⟩ :: more => definition.descriptions ++ modelDescriptions more

end

end Declaration

section

variable (heading : Heading) (properties : List Property)

theorem Property.annotates (property : Property) :
    Annotates (property.lines heading) (property.undescribed.lines heading.undescribed)
      (∀ text ∈ property.description.toList, Confined text) :=
  ((annotates_docComment? property.description).append
    (.refl [heading.declare ("var " ++ annotated property.name property.type)])).congr (by simp)

theorem codingKeys_undescribed :
    codingKeys (properties.map Property.undescribed) = codingKeys properties := by
  simp only [codingKeys, List.any_map, List.map_map]
  rfl

theorem memberwiseInit_undescribed :
    memberwiseInit heading.undescribed (properties.map Property.undescribed) =
      memberwiseInit heading properties := by
  simp only [memberwiseInit, List.isEmpty_map, List.map_map]
  rfl

theorem annotates_properties :
    Annotates (properties.flatMap (Property.lines heading))
      ((properties.map Property.undescribed).flatMap (Property.lines heading.undescribed))
      (∀ text ∈ properties.flatMap fun property => property.description.toList, Confined text) := by
  rw [List.flatMap_map]
  refine (Annotates.flatMap properties fun property _ => property.annotates heading).congr ?_
  simp only [List.forall_mem_flatMap]

end

namespace Declaration

mutual

theorem annotates (declaration : Declaration) :
    Annotates declaration.lines declaration.undescribed.lines
      (∀ text ∈ declaration.descriptions, Confined text) := by
  match declaration with
  | record heading properties models =>
      have body := (((annotates_properties heading properties).append
        (annotates_models models).afterBlank).append
          (.refl (codingKeys properties))).append (.refl ("" :: memberwiseInit heading properties))
      have whole := (annotates_docComment? heading.description).append (body.block heading.structLine)
      rw [lines, undescribed, lines, codingKeys_undescribed, memberwiseInit_undescribed]
      exact whole.congr (by simp [descriptions, or_imp, forall_and])
  | choice heading alternatives attempts models =>
      have body := (annotates_models models).afterBlank.within
        (alternatives.map (Alternative.propertyLine heading))
        (alternatives.flatMap (Alternative.initLines heading) ++ decoderLines heading attempts ++
          encoderLines heading alternatives)
      have whole := (annotates_docComment? heading.description).append (body.block heading.structLine)
      simp only [← List.append_assoc] at whole
      rw [lines, undescribed, lines]
      exact whole.congr (by simp [descriptions, or_imp, forall_and])
  | enumeration heading cases =>
      have whole := (annotates_docComment? heading.description).append
        (.refl (Lines.block heading.enumLine (cases.map EnumCase.line)))
      rw [lines, undescribed, lines]
      exact whole.congr (by simp [descriptions])

theorem annotates_models (models : List (LocalModel Declaration)) :
    Annotates (modelLines models) (modelLines (undescribedModels models))
      (∀ text ∈ modelDescriptions models, Confined text) := by
  match models with
  | [] => exact (Annotates.refl []).congr (by simp [modelDescriptions])
  | [⟨_, _, definition⟩] =>
      simpa [modelLines, undescribedModels, modelDescriptions] using annotates definition
  | ⟨_, _, definition⟩ :: second :: more =>
      have rest := (annotates definition).append
        ((Annotates.refl [""]).append (annotates_models (second :: more)))
      exact rest.congr (by simp [modelDescriptions, or_imp, forall_and])

end

end Declaration

/-! ## Classes -/

def Method.undescribed (method : Method) : Method :=
  { method with description := none }

namespace RouteClass

mutual

/-- The class without the descriptions of its methods and models, nor those of the classes in it. -/
def undescribed : RouteClass → RouteClass
  | ⟨name, segment, models, methods, children⟩ =>
    ⟨name, segment, Declaration.undescribedModels models, methods.map Method.undescribed,
      undescribedChildren children⟩

def undescribedChildren : List RouteClass → List RouteClass
  | [] => []
  | child :: more => child.undescribed :: undescribedChildren more

end

mutual

/-- The descriptions in a class, at any depth. -/
def descriptions : RouteClass → List String
  | ⟨_, _, models, methods, children⟩ =>
    Declaration.modelDescriptions models ++
      methods.flatMap (fun method => method.description.toList) ++ childDescriptions children

def childDescriptions : List RouteClass → List String
  | [] => []
  | child :: more => child.descriptions ++ childDescriptions more

end

theorem accessors_undescribed (style : Style) (children : List RouteClass) :
    accessors style (undescribedChildren children) = accessors style children := by
  have own (child : RouteClass) : accessorLines style child.undescribed = accessorLines style child := by
    cases child
    rfl
  have each : (undescribedChildren children).flatMap (accessorLines style) =
      children.flatMap (accessorLines style) := by
    induction children with
    | nil => rfl
    | cons child more ih => rw [undescribedChildren, List.flatMap_cons, List.flatMap_cons, own, ih]
  cases children with
  | nil => rfl
  | cons child more =>
      rw [accessors, accessors, each]
      rfl

theorem memberLines_undescribed (style : Style) (depth : Nat) (cls : RouteClass) :
    cls.undescribed.memberLines style depth = cls.memberLines style depth := by
  obtain ⟨name, segment, models, methods, children⟩ := cls
  simp only [memberLines, undescribed, accessors_undescribed]

theorem annotates_method (style : Style) (depth : Nat) (method : Method) :
    Annotates ("" :: method.lines style depth) ("" :: method.undescribed.lines style depth)
      (∀ text ∈ method.description.toList, Confined text) := by
  have commented := (annotates_docComment? method.description).append
    (.refl ((method.undescribed).lines style depth))
  exact ((Annotates.refl [""]).append commented).congr (by simp)

theorem annotates_methods (style : Style) (depth : Nat) (methods : List Method) :
    Annotates (methods.flatMap fun method => "" :: method.lines style depth)
      ((methods.map Method.undescribed).flatMap fun method => "" :: method.lines style depth)
      (∀ text ∈ methods.flatMap fun method => method.description.toList, Confined text) := by
  rw [List.flatMap_map]
  refine (Annotates.flatMap methods fun method _ => annotates_method style depth method).congr ?_
  simp only [List.forall_mem_flatMap]

mutual

theorem annotates (style : Style) (depth : Nat) (cls : RouteClass) :
    Annotates (cls.lines style depth) (cls.undescribed.lines style depth)
      (∀ text ∈ cls.descriptions, Confined text) := by
  match cls with
  | ⟨name, segment, models, methods, children⟩ =>
      have nested := ((Declaration.annotates_models models).afterBlank.append
        (annotates_methods style depth methods)).append (annotates_children style (depth + 1) children)
      have members := Annotates.refl (memberLines style depth ⟨name, segment, models, methods, children⟩)
      have body := (members.append nested).block
        (style.access.modifier ++ "class " ++ name ++ ": TRPCClientData")
      rw [lines_eq, lines_eq, memberLines_undescribed]
      exact body.congr (by simp [descriptions, or_imp, forall_and, and_assoc])

theorem annotates_children (style : Style) (depth : Nat) (children : List RouteClass) :
    Annotates (childLines style depth children) (childLines style depth (undescribedChildren children))
      (∀ text ∈ childDescriptions children, Confined text) := by
  match children with
  | [] => exact (Annotates.refl []).congr (by simp [childDescriptions])
  | child :: more =>
      have rest := ((Annotates.refl [""]).append (annotates style depth child)).append
        (annotates_children style depth more)
      exact rest.congr (by simp [childDescriptions, or_imp, forall_and])

end

end RouteClass

end RouterClient.Code

namespace RouterClient.Client

open Code (Annotates Confined Declaration codeLines docComment isCode slashes strays swiftLines)

/-- The client without the descriptions of its models and methods. -/
def undescribed (client : Client) : Client :=
  { client with
    root := client.root.undescribed
    globals := { client.globals with
      models := client.globals.models.map fun entry =>
        (entry.1, { entry.2 with definition := entry.2.definition.undescribed }) } }

/-- The descriptions of all models and methods of a client. -/
def descriptions (client : Client) : List String :=
  client.globals.definitions.flatMap Declaration.descriptions ++ client.root.descriptions

theorem definitions_undescribed (client : Client) :
    client.undescribed.globals.definitions =
      client.globals.definitions.map Declaration.undescribed := by
  simp [Model.GlobalModels.definitions, Table.values, undescribed]

theorem annotates (settings : Settings) (client : Client) :
    Annotates (client.lines settings) (client.undescribed.lines settings)
      (∀ text ∈ client.descriptions, Confined text) := by
  have globals := Annotates.flatMap client.globals.definitions fun definition _ =>
    (Declaration.annotates definition).append (.refl [""])
  have aliases : client.undescribed.aliasLines settings = client.aliasLines settings := rfl
  have whole := (globals.append (.refl (if (client.aliasLines settings).isEmpty then []
    else client.aliasLines settings ++ [""]))).append
      (client.root.annotates { access := settings.access, shared := settings.createsShared } 0)
  rw [lines, lines, aliases, definitions_undescribed, List.flatMap_map]
  exact whole.congr (by simp only [descriptions, List.forall_mem_append, List.forall_mem_flatMap, and_true])

/-- A file is laid out as the template and then the lines of the client. -/
theorem codeLines_generation (settings : Settings) (template : String) :
    ∃ before, ∀ client : Client, codeLines (client.generation settings template).source =
      Code.codeFrom 0 (before ++ Code.rows (client.lines settings)) := by
  refine ⟨((Text.pieces '\n' template.toList).map Text.dropCarriageReturn ++ [[]]).map Text.trim,
    fun client => ?_⟩
  have written : (template ++ "\n\n" ++ (client.lines settings).text).toList =
      template.toList ++ '\n' :: ([] ++ '\n' :: (client.lines settings).text.toList) := by
    simp [String.toList_append]
  have blank : (Text.pieces '\n' []).map Text.dropCarriageReturn = [[]] := rfl
  rw [generation, Code.codeLines_indent, written, Text.lines_append_feed, Text.lines_append_feed, blank,
    ← List.append_assoc, List.map_append]
  rfl

/-- A doc comment consists of empty lines and lines behind slashes, as Swift counts lines, if and only if
what strays from it does.  A file has the code that it would have without any descriptions if and only if no
code strays from one of their comments. -/
theorem descriptions_confined_iff (settings : Settings) (template : String) (client : Client) :
    (∀ description : String,
      (∀ line ∈ swiftLines (docComment description).text.toList, line = [] ∨ slashes <+: line) ↔
        ∀ line ∈ strays description, line = [] ∨ slashes <+: line) ∧
    (∀ description : String,
      (∀ line ∈ Text.lines description.toList, '\r' ∉ Text.trimEnd line) → strays description = []) ∧
    (codeLines (client.generation settings template).source =
        codeLines (client.undescribed.generation settings template).source ↔
      ∀ description ∈ client.descriptions, ∀ line ∈ strays description, isCode line = false) := by
  refine ⟨Code.docComment_iff, fun _ => Code.strays_eq_nil, ?_⟩
  obtain ⟨before, file⟩ := codeLines_generation settings template
  have annotates := client.annotates settings
  rw [file, file, Code.codeFrom_append, Code.codeFrom_append, List.append_right_inj]
  constructor
  · intro same
    exact annotates.kept _ (Nat.le_of_eq (congrArg List.length same))
  · intro confined
    exact annotates.code confined _

/-- What follows a carriage return in a description is not in its comment. -/
theorem carriage_return_strays :
    ['b'] ∈ swiftLines (docComment "a\rb").text.toList ∧
      ¬ ∀ line ∈ swiftLines (docComment "a\rb").text.toList, line = [] ∨ slashes <+: line := by
  decide

end RouterClient.Client
