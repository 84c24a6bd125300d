import RouterClient.Proofs.Client.Rules
import RouterClient.Proofs.Typing.Hygiene

/-! # The names in a client

The class of a namespace sees what its parent sees, and a procedure adds to the scope and the models
of its class.  Names come from the nodes throughout, so the names in every body of a client go
together, and only the name of a type from outside a body can be taken away there.
-/

namespace RouterClient.Client

open Model (GlobalModels LocalModel LocalModels Scope)
open Route (Entry Procedure)
open Schema (NodeId Graph)
open Code (Body Declaration RouteClass)
open Typing

def ClassDraft.body (draft : ClassDraft) : Body :=
  ⟨draft.methods.flatMap Code.Method.types, draft.models⟩

/-- The names in a class as far as it has been assembled. -/
structure DraftIn (globals : GlobalModels Declaration) (draft : ClassDraft) : Prop where
  scope : Faithful draft.scope globals
  body : BodyIn {} globals draft.body
  children : ∀ child ∈ draft.children, ∀ body ∈ child.bodies, body.Coherent

section

variable {before after : GlobalModels Declaration} {scope : Scope}

theorem DraftIn.mono {draft : ClassDraft} (facts : DraftIn before draft)
    (names : NamesKept before after) :
    DraftIn after draft :=
  ⟨facts.scope.mono names, facts.body.mono names, facts.children⟩

theorem DraftIn.start (faithful : Faithful scope after) : DraftIn after { scope } where
  scope := faithful
  body := .empty _ _
  children _ listed := by cases listed

/-- The names in all bodies of a finished class go together. -/
theorem DraftIn.coherent {draft : ClassDraft} (facts : DraftIn after draft)
    (name segment : String) :
    ∀ body ∈ (draft.toClass name segment).bodies, body.Coherent := by
  intro body inside
  simp only [ClassDraft.toClass, RouteClass.bodies, List.mem_cons, List.mem_append,
    Declaration.mem_modelBodies, RouteClass.mem_childBodies] at inside
  rcases inside with rfl | ⟨model, nested, inside⟩ | ⟨child, listed, inside⟩
  · exact facts.body.coherent
  · exact (facts.body.models model nested).coherent body inside
  · exact facts.children child listed body inside

end

/-- The types of a procedure join a class, and their models are nested there. -/
theorem nest_bodyIn {scope : Scope} {globals : GlobalModels Declaration}
    {types : List Code.TypeExpr} {models grown : LocalModels Declaration} {typeds : List Typed}
    {introduced : List String} (facts : BodyIn scope globals ⟨types, models⟩)
    (joins : ∀ typed ∈ typeds, TypedIn scope globals typed)
    (nested : Client.nest models typeds = .ok (grown, introduced)) :
    BodyIn scope globals ⟨types ++ typeds.map Typed.type, grown⟩ := by
  induction typeds generalizing types models introduced with
  | nil =>
      cases nested
      rw [List.map_nil, List.append_nil]
      exact facts
  | cons typed more ih =>
      obtain ⟨next, _, absorbed, rest⟩ := nest_cons nested
      obtain ⟨joined, later⟩ := List.forall_mem_cons.mp joins
      rw [List.map_cons, ← List.singleton_append, ← List.append_assoc]
      exact ih (facts.add joined rfl absorbed) later rest

section

variable {setting : Setting}

/-- A call in a scope whose names are those of the nodes. -/
theorem TopTyped.faithful {id : Option NodeId} {scope : Scope} {fallback : String}
    {state next : Typing.State} {verdict : Except Failure Outcome}
    (typed : TopTyped setting id scope fallback state verdict next) (sound : Sound state.globals)
    (faithful : Faithful scope state.globals) :
    Advances state.globals next.globals ∧
      ∀ outcome, verdict = .ok outcome → Faithful outcome.scope next.globals ∧
        ∀ typed, outcome.typed = some typed → TypedIn {} next.globals typed := by
  cases typed with
  | absent =>
      refine ⟨.refl _, ?_⟩
      intro outcome same
      cases same
      exact ⟨faithful, nofun⟩
  | @present _ _ _ _ events verdict next derived =>
      have evolves := derived.evolves
      have facts := derived.named sound.consistent
      have later := faithful.mono evolves.names
      refine ⟨⟨evolves.names, fun sound => derived.sound sound⟩, ?_⟩
      intro outcome same
      cases verdict with
      | error failure => cases same
      | ok typed =>
          cases same
          refine ⟨later.effect facts.typed derived.scopeEffect, ?_⟩
          intro typed found
          exact (facts.typed typed (congrArg Except.ok found)).outside later

theorem typedProcedure_bodyIn {key : String} {procedure : Procedure} {types : List Code.TypeExpr}
    {models : LocalModels Declaration} {globals : GlobalModels Declaration}
    {input output : Outcome} {typed : TypedProcedure} (facts : BodyIn {} globals ⟨types, models⟩)
    (taken : ∀ typed, input.typed = some typed → TypedIn {} globals typed)
    (given : ∀ typed, output.typed = some typed → TypedIn {} globals typed)
    (made : typedProcedure key procedure models input output = .ok typed) :
    BodyIn {} globals ⟨types ++ typed.method.types, typed.models⟩ := by
  have joins : ∀ typed ∈ input.typed.toList ++ output.typed.toList, TypedIn {} globals typed := by
    intro typed listed
    rcases List.mem_append.mp listed with listed | listed
    · exact taken typed (Option.mem_toList.mp listed)
    · exact given typed (Option.mem_toList.mp listed)
  obtain ⟨nested, _, method⟩ := typedProcedure_ok made
  have joined := nest_bodyIn facts joins nested
  rw [List.map_append, ← Option.toList_map, ← Option.toList_map] at joined
  rw [method]
  exact joined

theorem ProcedureTyped.faithful {key : String} {procedure : Procedure} {scope : Scope}
    {types : List Code.TypeExpr} {models : LocalModels Declaration} {state next : Typing.State}
    {verdict : Except Failure TypedProcedure}
    (typed : ProcedureTyped setting key procedure scope models state verdict next)
    (sound : Sound state.globals) (faithful : Faithful scope state.globals)
    (facts : BodyIn {} state.globals ⟨types, models⟩) :
    Advances state.globals next.globals ∧
      ∀ typed, verdict = .ok typed → Faithful typed.scope next.globals ∧
        BodyIn {} next.globals ⟨types ++ typed.method.types, typed.models⟩ := by
  cases typed with
  | crowded _ => exact ⟨.refl _, nofun⟩
  | inputFailed _ input => exact ⟨(input.faithful sound faithful).1, nofun⟩
  | outputFailed _ input output =>
      obtain ⟨first, seen⟩ := input.faithful sound faithful
      obtain ⟨second, _⟩ := output.faithful (first.sound sound) (seen _ rfl).1
      exact ⟨first.trans second, nofun⟩
  | typed _ input output =>
      obtain ⟨first, seen⟩ := input.faithful sound faithful
      obtain ⟨visible, taken⟩ := seen _ rfl
      obtain ⟨second, seen⟩ := output.faithful (first.sound sound) visible
      obtain ⟨visible, given⟩ := seen _ rfl
      refine ⟨first.trans second, ?_⟩
      intro typed made
      obtain ⟨_, same, _⟩ := typedProcedure_ok made
      rw [same]
      exact ⟨visible, typedProcedure_bodyIn (facts.mono (first.trans second).names)
        (fun typed found => (taken typed found).mono second.names) given made⟩

theorem Settles.draftIn {place : Place} {draft grown : ClassDraft} {key : String}
    {procedure : Procedure} {state next : State} {fate : Fate} {noted : List Diagnostic}
    (settled : Settles setting place draft key procedure state fate noted grown next)
    (sound : Sound state.typing.globals) (facts : DraftIn state.typing.globals draft) :
    Advances state.typing.globals next.typing.globals ∧ DraftIn next.typing.globals grown := by
  cases settled with
  | excluded _ => exact ⟨.refl _, facts⟩
  | failed _ run _ _ =>
      obtain ⟨advances, _⟩ := (typeProcedure_error run).faithful sound facts.scope facts.body
      exact ⟨advances, facts.mono advances.names⟩
  | offered _ run _ =>
      obtain ⟨advances, typed⟩ := (typeProcedure_ok run).faithful sound facts.scope facts.body
      obtain ⟨faithful, body⟩ := typed _ rfl
      refine ⟨advances, faithful, ?_, facts.children⟩
      rw [ClassDraft.body, ClassDraft.offer, List.flatMap_append, List.flatMap_singleton]
      exact body

/-- A namespace's class starts with the scope of the class around it, and is finished when it joins
that class. -/
theorem Assembles.draftIn {place : Place} {draft final : ClassDraft}
    {entries : List (String × Entry)} {state last : State} {log : List Account}
    (assembled : Assembles setting place draft entries state log final last)
    (sound : Sound state.typing.globals) (facts : DraftIn state.typing.globals draft) :
    Advances state.typing.globals last.typing.globals ∧ DraftIn last.typing.globals final := by
  induction assembled with
  | done => exact ⟨.refl _, facts⟩
  | procedure settled _ ih =>
      obtain ⟨advances, kept⟩ := settled.draftIn sound facts
      obtain ⟨later, finished⟩ := ih (advances.sound sound) kept
      exact ⟨advances.trans later, finished⟩
  | space _ _ below ih =>
      -- What the child adds to its scope is not seen in the class around it.
      obtain ⟨advances, inner⟩ := below sound (.start facts.scope)
      have kept := facts.mono advances.names
      obtain ⟨later, finished⟩ := ih (advances.sound sound) ⟨kept.scope, kept.body, by
        intro other listed
        rcases List.mem_append.mp listed with listed | listed
        · exact kept.children other listed
        · obtain rfl := List.mem_singleton.mp listed
          exact inner.coherent _ _⟩
      exact ⟨advances.trans later, finished⟩

theorem Defines.draftIn {draft grown : ClassDraft} {key : String} {id : NodeId} {state next : State}
    (defines : Defines setting draft key id state grown next)
    (sound : Sound state.typing.globals) (facts : DraftIn state.typing.globals draft) :
    Advances state.typing.globals next.typing.globals ∧ DraftIn next.typing.globals grown := by
  cases defines with
  | skipped _ => exact ⟨.refl _, facts⟩
  | failed _ typed _ | refused _ typed _ =>
      obtain ⟨advances, _⟩ := typed.faithful sound facts.scope
      exact ⟨advances, facts.mono advances.names⟩
  | declared _ typed absorbed =>
      obtain ⟨advances, seen⟩ := typed.faithful sound facts.scope
      obtain ⟨faithful, types⟩ := seen _ rfl
      have kept := facts.mono advances.names
      refine ⟨advances, faithful, ?_, kept.children⟩
      refine kept.body.absorb ?_ absorbed
      intro model holds
      obtain ⟨result, same, holds⟩ := Option.bind_eq_some_iff.mp holds
      exact (types result same).model model holds

theorem addDefinitions_draftIn {definitions : List (String × NodeId)} {draft grown : ClassDraft}
    {state next : State} (sound : Sound state.typing.globals)
    (facts : DraftIn state.typing.globals draft)
    (run : definitions.foldlM (addDefinition setting) draft state = .ok grown next) :
    Advances state.typing.globals next.typing.globals ∧ DraftIn next.typing.globals grown := by
  refine addDefinitions_chain (R := fun draft state grown next => Sound state.typing.globals →
    DraftIn state.typing.globals draft →
    Advances state.typing.globals next.typing.globals ∧ DraftIn next.typing.globals grown)
    ?_ ?_ ?_ run sound facts
  · exact fun _ _ _ facts => ⟨.refl _, facts⟩
  · intro _ _ _ _ _ _ first second sound facts
    obtain ⟨advances, kept⟩ := first sound facts
    obtain ⟨later, finished⟩ := second (advances.sound sound) kept
    exact ⟨advances.trans later, finished⟩
  · exact fun defines sound facts => defines.draftIn sound facts

end

/-- All bodies of a client: those of its global models and those of its classes. -/
def bodies (client : Client) : List Body :=
  client.globals.definitions.flatMap Declaration.bodies ++ client.root.bodies

theorem assemble_coherent {settings : Settings} {graph : Graph} {router : String}
    {tree : Route.Tree} {definitions : Table String NodeId} {client : Client}
    (assembled : assemble settings graph router tree definitions = .ok client) :
    ∀ body ∈ client.bodies, body.Coherent := by
  obtain ⟨start, middle, log, final, last, defined, filled, root, globals, _⟩ :=
    assemble_follows assembled
  have sound : Sound ({} : State).typing.globals := .empty
  obtain ⟨first, declared⟩ := addDefinitions_draftIn sound (.start (.empty _)) defined
  obtain ⟨second, finished⟩ := filled.draftIn (first.sound sound) declared
  intro body inside
  rcases List.mem_append.mp inside with inside | inside
  · rw [globals] at inside
    obtain ⟨definition, listed, inside⟩ := List.mem_flatMap.mp inside
    obtain ⟨model, valued, rfl⟩ := List.mem_map.mp listed
    obtain ⟨entry, member, rfl⟩ := List.mem_map.mp valued
    exact ((first.trans second).sound sound).held entry member body inside
  · rw [root] at inside
    exact finished.coherent _ _ body inside

/-- In every body that calls or a client bring up, the names go together, and a nested model takes a
name away from a member if and only if it is called like something that a member takes from outside:
a model declared elsewhere or a primitive type. -/
theorem bodies_hygienic_iff (graph : Graph) (settings : Settings) :
    (∀ calls, ∀ entry ∈ (afterCalls graph settings calls).globals.models,
      ∀ body ∈ entry.2.definition.bodies, body.Coherent ∧ (body.Hygienic ↔ body.Clear)) ∧
    (∀ calls id position outcome next typed model,
      typeAt graph settings id position (afterCalls graph settings calls) = .ok outcome next →
      outcome.typed = some typed → typed.model = some model →
      ∀ body ∈ model.definition.bodies, body.Coherent ∧ (body.Hygienic ↔ body.Clear)) ∧
    ∀ router tree definitions client,
      assemble settings graph router tree definitions = .ok client →
      ∀ body ∈ client.bodies, body.Coherent ∧ (body.Hygienic ↔ body.Clear) := by
  have told {body : Body} (coherent : body.Coherent) :
      body.Coherent ∧ (body.Hygienic ↔ body.Clear) :=
    ⟨coherent, coherent.hygienic_iff⟩
  refine ⟨?_, ?_, ?_⟩
  · intro calls entry member body inside
    obtain ⟨log, run⟩ := exists_run graph settings calls {}
    exact told ((run.sound .empty).held entry member body inside)
  · intro calls id position outcome next typed model ran found holds body inside
    obtain ⟨log, run⟩ := exists_run graph settings calls {}
    obtain ⟨events, verdict, last, derived, typing⟩ := typeAt_derives graph settings id position
      (afterCalls graph settings calls)
    have facts := derived.named (run.sound .empty).consistent
    cases verdict with
    | error failure => cases typing.symm.trans ran
    | ok result =>
        cases typing.symm.trans ran
        have nestable := (facts.typed typed (congrArg Except.ok found)).model model holds
        exact told (nestable.coherent body inside)
  · intro router tree definitions client assembled body inside
    exact told (assemble_coherent assembled body inside)

/-- A field of `Root` is a global `Person`, and the next field holds an object that nobody has
named, so that it is called after the field. -/
def namesakeGraph : Graph where
  nodes := #[
    { kind := .primitive .string },
    { kind := .object [("name", ⟨0⟩)], label := { name := some "Person" } },
    { kind := .object [("age", ⟨0⟩)] },
    { kind := .object [("owner", ⟨1⟩), ("person", ⟨2⟩)], label := { name := some "Root" } }]

/-- The object is nested in `Root` as `Person` and takes the name away from the first field. -/
theorem namesake_not_hygienic :
    let call : Call := ⟨⟨3⟩, { fallback := "Root", scope := {} }⟩
    ∃ entry ∈ (afterCalls namesakeGraph {} [call]).globals.models,
      ¬ entry.2.definition.body.Hygienic := by
  decide +kernel

end RouterClient.Client
