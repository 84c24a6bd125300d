import RouterClient.Document.Lowering
import RouterClient.Route.Tree
import RouterClient.Code.RouteClass
import RouterClient.Typing.Node

/-! # Assembling a client

A client is the root class of a router with everything below it, the global models that it needs,
and names for the types nested in it. The types of a procedure are tried on copies of the scope
and the models of its class; only when the whole procedure succeeds do the copies take their
place.
-/

namespace RouterClient

/-- A name at the top of the file for a type nested in a class. -/
structure Client.Alias where
  name : String
  /-- The names of the classes around the type and of the type, with points between them. -/
  target : String
  deriving DecidableEq, Repr

/-- The client of a router. -/
structure Client where
  root : Code.RouteClass
  globals : Model.GlobalModels Code.Declaration
  aliases : List Client.Alias
  diagnostics : List Diagnostic

namespace Client

open Model (GlobalModels LocalModels Scope)
open Route (Entry Procedure)
open Schema (NodeId Graph)
open Code (Declaration Method RouteClass Style memberName typeName)
open Typing (Outcome Position Typed TypingM)

/-- The end of a run before its client is complete. -/
structure Abort where
  failure : Failure
  /-- The procedure whose failure it is, where it is a procedure's. -/
  procedure : Option String := none
  diagnostics : List Diagnostic := []

/-- What assembly has brought up so far. -/
structure State where
  typing : Typing.State := {}
  /-- The names that nested types may get, in the order of the types. -/
  aliases : List Alias := []

/-- A step of assembly. -/
abbrev AssemblyM := EStateM Abort State

/-- What a client is assembled from. -/
structure Setting where
  graph : Graph
  settings : Settings

/-- Run a step of typing, and take its failure as a result. -/
def typing {α : Type} (step : TypingM α) : AssemblyM (Except Failure α) := fun state =>
  match step state.typing with
  | .ok result typing => .ok (.ok result) { state with typing }
  | .error failure typing => .ok (.error failure) { state with typing }

def report (location : String) (failure : Failure) : AssemblyM Unit := do
  let _ ← typing (Typing.report location failure)

def abort {α : Type} (failure : Failure) (procedure : Option String) : AssemblyM α := do
  throw { failure, procedure, diagnostics := (← get).typing.diagnostics }

def isIncluded (settings : Settings) (procedure : Procedure) : Bool :=
  procedure.remark.wanted.getD (settings.procedures == .all)

/-- A class as far as its entries have been assembled. -/
structure ClassDraft where
  scope : Scope
  models : LocalModels Declaration := []
  methods : List Method := []
  children : List RouteClass := []

def ClassDraft.toClass (draft : ClassDraft) (name segment : String) : RouteClass :=
  { name, segment, models := draft.models, methods := draft.methods, children := draft.children }

/-- Where a class stands: the segments that lead to it from the root, and the names of the classes
around it and of itself. -/
structure Place where
  segments : List String
  classes : List String

def Place.below (place : Place) (segment name : String) : Place :=
  ⟨place.segments ++ [segment], place.classes ++ [name]⟩

def Place.path (place : Place) (key : String) : String :=
  ".".intercalate (place.segments ++ [key])

/-- The name at the top of the file for a type nested in the class. -/
def Place.alias (place : Place) (name : String) : Alias where
  name := String.join (place.segments.map typeName) ++ name
  target := ".".intercalate (place.classes ++ [name])

def typeTop (setting : Setting) (id : Option NodeId) (scope : Scope) (fallback : String) :
    TypingM Outcome :=
  match id with
  | some id => Typing.typeAt setting.graph setting.settings id { scope, fallback }
  | none => pure ⟨none, scope⟩

/-- Nest the models of some types in a class, and name those that are new there. -/
def nest (models : LocalModels Declaration) :
    List Typed → Except Failure (LocalModels Declaration × List String)
  | [] => .ok (models, [])
  | typed :: more =>
    match typed.model with
    | none => nest models more
    | some model => do
      let grown ← models.absorb model
      let (all, introduced) ← nest grown more
      return (all, if models.hasOwner model.owner then introduced else model.name :: introduced)

/-- A procedure that has been typed: its method, the scope and the models of its class after it,
and the names of the models that it has brought there. -/
structure TypedProcedure where
  method : Method
  scope : Scope
  models : LocalModels Declaration
  introduced : List String

/-- A procedure whose input and output have been typed, in a class that has some models. -/
def typedProcedure (key : String) (procedure : Procedure) (models : LocalModels Declaration)
    (input output : Outcome) : Except Failure TypedProcedure := do
  let (models, introduced) ← nest models (input.typed.toList ++ output.typed.toList)
  let method : Method := {
    key
    kind := procedure.kind
    description := procedure.remark.description
    input := input.typed.map Typed.type
    output := output.typed.map Typed.type }
  return { method, scope := output.scope, models, introduced }

def typeProcedure (setting : Setting) (key : String) (procedure : Procedure) (scope : Scope)
    (models : LocalModels Declaration) : TypingM TypedProcedure := do
  if procedure.inputs.length > 1 then throw .multipleInputs
  let base := typeName key
  let input ← typeTop setting procedure.inputs.head? scope (base ++ "Input")
  let output ← typeTop setting procedure.output input.scope (base ++ "Output")
  match typedProcedure key procedure models input output with
  | .error failure => throw failure
  | .ok typed => return typed

/-- Add a procedure to a class. One that fails is left out and reported, or ends the run. -/
def addProcedure (setting : Setting) (place : Place) (draft : ClassDraft) (key : String)
    (procedure : Procedure) : AssemblyM ClassDraft := do
  if !isIncluded setting.settings procedure then return draft
  match ← typing (typeProcedure setting key procedure draft.scope draft.models) with
  | .error failure =>
    if failure.isFatal then abort failure (some (place.path key))
    else
      report (place.path key) failure
      return draft
  | .ok typed =>
    modify fun state =>
      { state with aliases := state.aliases ++ typed.introduced.map place.alias }
    return {
      scope := typed.scope
      models := typed.models
      methods := draft.methods ++ [typed.method]
      children := draft.children }

/-- The name of a namespace's class. -/
def spaceName (key : String) : String :=
  typeName key ++ "Route"

/-- Add entries to a class. The class of a namespace sees what is visible around it so far. -/
def addEntries (setting : Setting) (place : Place) (draft : ClassDraft) :
    List (String × Entry) → AssemblyM ClassDraft
  | [] => pure draft
  | (key, .procedure procedure) :: more => do
    let grown ← addProcedure setting place draft key procedure
    addEntries setting place grown more
  | (key, .space entries) :: more => do
    let child ← addEntries setting (place.below key (spaceName key)) { scope := draft.scope } entries
    addEntries setting place
      { draft with children := draft.children ++ [child.toClass (spaceName key) key] } more

/-- Declare a definition of the document at the root, if it is a model with a name. -/
def addDefinition (setting : Setting) (draft : ClassDraft) (definition : String × NodeId) :
    AssemblyM ClassDraft := do
  let (key, id) := definition
  let node := setting.graph.node id
  if node.label.name.isNone || !node.kind.isNominal then return draft
  match ← typing (typeTop setting (some id) draft.scope (typeName key)) with
  | .error failure =>
    if failure.isFatal then abort failure none
    else
      report ("schemas." ++ key) failure
      return draft
  | .ok outcome =>
    match draft.models.absorb? (outcome.typed.bind Typed.model) with
    | .error failure =>
      report ("schemas." ++ key) failure
      return draft
    | .ok models => return { draft with scope := outcome.scope, models }

/-- The root class of a router. -/
def assembleRoot (setting : Setting) (router : String) (tree : Route.Tree)
    (definitions : Table String NodeId) : AssemblyM RouteClass := do
  let start : ClassDraft := { scope := {} }
  let draft ← match setting.settings.models with
    | .all => definitions.foldlM (addDefinition setting) start
    | .referenced => pure start
  let name := typeName router
  let root ← addEntries setting ⟨[], [name]⟩ draft tree
  return root.toClass name router

/-- Keep the first alias under each name that is not among `taken`. -/
def distinctAliases (taken : List String) : List Alias → List Alias
  | [] => []
  | candidate :: more =>
    if taken.contains candidate.name then distinctAliases taken more
    else candidate :: distinctAliases (candidate.name :: taken) more

/-- The aliases of a client: none that is named like the root class, an alias before it or a
global model. -/
def chooseAliases (settings : Settings) (root : RouteClass) (globals : GlobalModels Declaration)
    (candidates : List Alias) : List Alias :=
  if settings.createsAliases then
    (distinctAliases [root.name] candidates).filter fun candidate =>
      !globals.containsName candidate.name
  else []

/-- The client of a router. -/
def assemble (settings : Settings) (graph : Graph) (router : String) (tree : Route.Tree)
    (definitions : Table String NodeId) : Except Abort Client :=
  match assembleRoot ⟨graph, settings⟩ router tree definitions {} with
  | .error abort _ => .error abort
  | .ok root state =>
    let globals := state.typing.globals
    .ok {
      root
      globals
      aliases := chooseAliases settings root globals state.aliases
      diagnostics := state.typing.diagnostics }

def Alias.line (settings : Settings) (entry : Alias) : String :=
  settings.access.modifier ++ "typealias " ++ entry.name ++ " = " ++ entry.target

def rootLines (settings : Settings) (client : Client) : Code.Lines :=
  client.root.lines { access := settings.access, shared := settings.createsShared } 0

def aliasLines (settings : Settings) (client : Client) : Code.Lines :=
  client.aliases.map (Alias.line settings)

/-- The declarations of a client: global models, aliases and the root class, with a blank line
after each model and after the aliases. -/
def lines (settings : Settings) (client : Client) : Code.Lines :=
  let aliases := client.aliasLines settings
  client.globals.definitions.flatMap (fun definition => definition.lines ++ [""]) ++
    (if aliases.isEmpty then [] else aliases ++ [""]) ++ client.rootLines settings

/-- A generated file, and what has been left out of it. -/
structure Generation where
  source : String
  diagnostics : List Diagnostic

/-- The file for a client, after a runtime text. -/
def generation (settings : Settings) (template : String) (client : Client) : Generation where
  source := Code.indent (template ++ "\n\n" ++ (client.lines settings).text)
  diagnostics := client.diagnostics

def ofDocument (settings : Settings) (document : Document) (router : String) :
    Except Abort Client := do
  let procedures ← (document.router router).mapError fun failure => { failure }
  let tree ← (Route.Tree.ofProcedures procedures).mapError fun failure => { failure }
  assemble settings document.graph router tree document.definitions

/-- Generate the file for a document's router. -/
def generate (settings : Settings) (document : Document) (router template : String) :
    Except Abort Generation :=
  (ofDocument settings document router).map (·.generation settings template)

end Client

end RouterClient
