import RouterClient.Typing.Union

/-! # The type of a schema node

A primitive has a Swift type, an empty node has none, wrappers and collections are typed around
what they hold. A nominal node is named once in a run and declared where it is first needed: for
the whole file, or as a local model of the declaration that mentions it.
-/

namespace RouterClient.Typing

open Model (Scope)
open Schema (NodeId Graph Kind Label Arrangement)
open Code (Declaration TypeExpr typeName)

/-- Typing steps may stand one inside the other this deep. -/
def maxDepth : Nat := 512

/-- The type of what an optional or nullable node wraps, marked unless that is done around it. -/
def Typed.mark (marked : Bool) (typed : Typed) : Typed :=
  if marked || typed.type.isOptional then typed
  else { typed with type := .optional typed.type }

/-- The type of a collection, given that of its elements. -/
def Typed.collect (arrangement : Arrangement) (typed : Typed) : Typed :=
  { typed with type := .collection arrangement typed.type }

/-- The type of an optional or nullable node: that of what it wraps, marked once. -/
def typeOptional (graph : Graph) (typer : Typer) (id : NodeId) (site : Site) :
    TypingM (Option Typed) := do
  match unwrap? graph graph.size id site.declared with
  | none => throw (.recursionLimit graph.size)
  | some (base, declared) =>
    let typed ← typer base (site.descend true declared)
    return typed.map (Typed.mark site.marked)

/-- The type of a collection of nodes. -/
def typeCollection (graph : Graph) (typer : Typer) (id : NodeId) (arrangement : Arrangement)
    (element : NodeId) (site : Site) : TypingM (Option Typed) := do
  let typed ← typer element (site.descend false (declaredBy graph id site.declared))
  return typed.map (Typed.collect arrangement)

/-- Whether a nominal node is declared for the whole file. It needs a name of its own or of the
wrapper that declares it, and the flag of either, or settings that say so. -/
def isGlobal (settings : Settings) (label : Label) (wrapper : Option Label) (depth : Nat) :
    Bool :=
  let named := label.name.isSome || (wrapper.bind Label.name).isSome
  let flagged := label.isGlobal || (wrapper.map Label.isGlobal).getD false
  let hoisted := match settings.hoisting with
    | .all => true
    | .top => depth == 0
    | .never => false
  named && (flagged || hoisted)

/-- The declaration of a nominal node; none when it stands for no value. -/
def declare (graph : Graph) (settings : Settings) (typer : Typer) (id : NodeId) (name : String)
    (description : Option String) (scope : Scope) (depth : Nat) :
    TypingM (Option Declaration) :=
  match graph.kind id with
  | .object fields =>
    some <$> declareRecord graph settings typer name description fields scope depth
  | .enumeration values => pure (declareEnum settings name description values)
  | .literal value => pure (declareEnum settings name description [value])
  | .union options => declareUnion graph settings typer name description options scope depth
  | _ => pure none

/-- Declare a node for the whole file. While its declaration is made, the node can be mentioned by
its name, and nothing else is visible. -/
def declareGlobal (graph : Graph) (settings : Settings) (typer : Typer) (id : NodeId)
    (name : String) (description : Option String) (depth : Nat) : TypingM (Option Typed) := do
  modifyGlobals (·.reserve id name)
  let own := Scope.insert {} id name
  match ← attempt (declare graph settings typer id name description own depth) with
  | .ok (some definition) =>
    register id name definition
    return some { type := .model id name .global }
  | .ok none =>
    modifyGlobals (·.abandon id)
    return none
  | .error failure =>
    modifyGlobals (·.abandon id)
    throw failure

/-- Declare a node as a local model. The node is visible inside its declaration, and after it if
there is one. -/
def declareLocal (graph : Graph) (settings : Settings) (typer : Typer) (id : NodeId)
    (name : String) (description : Option String) (depth : Nat) : TypingM (Option Typed) := do
  modifyScope (·.insert id name)
  let scope := (← get).scope
  match ← attempt (declare graph settings typer id name description scope depth) with
  | .ok (some definition) =>
    return some { type := .model id name .scope, model := some ⟨id, name, definition⟩ }
  | .ok none =>
    modifyScope (·.remove id)
    return none
  | .error failure =>
    modifyScope (·.remove id)
    throw failure

/-- The name that a nominal node gets if it has none: its own, that of the wrapper that declares
it, or the fallback of the site. -/
def proposedName (graph : Graph) (id : NodeId) (site : Site) : String :=
  let given := (graph.label id).name.or ((site.declared.map graph.label).bind Label.name)
  typeName (given.getD site.fallback)

/-- The description of a nominal node: its own, or that of the wrapper that declares it. -/
def describedAs (graph : Graph) (id : NodeId) (site : Site) : Option String :=
  (graph.label id).description.or ((site.declared.map graph.label).bind Label.description)

/-- The type of a nominal node: its name, and its declaration unless it can be mentioned
already. -/
def typeNominal (graph : Graph) (settings : Settings) (typer : Typer) (id : NodeId)
    (site : Site) : TypingM (Option Typed) := do
  let description := describedAs graph id site
  let name ← resolveName id (proposedName graph id site)
  let state ← get
  match state.globals.globalName id, state.scope.lookup id with
  | some known, _ => return some { type := .model id known .global }
  | none, some known => return some { type := .model id known .scope }
  | none, none =>
    if isGlobal settings (graph.label id) (site.declared.map graph.label) site.depth then
      declareGlobal graph settings typer id name description site.depth
    else declareLocal graph settings typer id name description site.depth

/-- The type of a node, given how the nodes that it refers to are typed. -/
def typeNode (graph : Graph) (settings : Settings) (typer : Typer) (id : NodeId)
    (site : Site) : TypingM (Option Typed) :=
  match graph.kind id with
  | .primitive p => pure (some { type := .primitive p })
  | .empty => pure none
  | .optional _ | .nullable _ => typeOptional graph typer id site
  | .collection arrangement element => typeCollection graph typer id arrangement element site
  | .transform inner =>
    typer inner (site.descend site.marked (declaredBy graph id site.declared))
  | .object _ | .enumeration _ | .literal _ | .union _ =>
    typeNominal graph settings typer id site
  | .unsupported typeName => throw (.unsupportedSchema typeName)

/-- The type of a node, in the scope of the state. No more than `maxDepth` steps stand one inside
the other; `budget` bounds how many more there can be. -/
def typeWithin (graph : Graph) (settings : Settings) : (budget : Nat) → Typer
  | 0 => fun _ _ => throw (.recursionLimit maxDepth)
  | budget + 1 => fun id site => do
    if (← get).callDepth ≥ maxDepth then throw (.recursionLimit maxDepth)
    else deeper (typeNode graph settings (typeWithin graph settings budget) id site)

/-- The type of a node, in the scope of the state. -/
def typeHere (graph : Graph) (settings : Settings) : Typer :=
  typeWithin graph settings maxDepth

/-- The type of a node at a position, and the scope after it. The scope of the state is left
alone. -/
def typeAt (graph : Graph) (settings : Settings) (id : NodeId) (position : Position) :
    TypingM Outcome :=
  onCopy position.scope do
    let typed ← typeHere graph settings id position.toSite
    return ⟨typed, (← get).scope⟩

end RouterClient.Typing
