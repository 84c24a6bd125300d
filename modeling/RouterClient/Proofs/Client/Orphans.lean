import RouterClient.Proofs.Client.Hygiene
import RouterClient.Proofs.Client.InStep
import RouterClient.Proofs.Client.Ledger
import RouterClient.Proofs.Typing.Citations
import RouterClient.Proofs.Typing.Emptiness

/-! # Global models that nothing cites

A procedure that cannot join its class leaves the class as it was, but not the global models: what has been
declared for it stays.  Where no name is taken and nothing is nested too deep, no such model is left behind:
whatever is declared on the way is cited by the class that is being filled, or by what is declared beside
it.
-/

namespace RouterClient.Typing

open Schema (Graph NodeId)

/-- Failures other than a name that is taken and a nesting that is too deep. -/
def harmless : Set Failure :=
  {failure | (∀ name, failure ≠ .nameCollision name) ∧ ∀ limit, failure ≠ .recursionLimit limit}

theorem spares_harmless : Spares Set.univ harmless :=
  ⟨fun name free => free.1 name rfl, fun limit free => free.2 limit rfl, fun _ _ => Set.mem_univ _⟩

/-- Typing fails because a name is taken or the run has to end. -/
theorem Derives.fatal_of_error {graph : Graph} {settings : Settings} {budget : Nat} {id : NodeId}
    {site : Site} {state next : State} {events : List Event} {failure : Failure}
    (derived : Derives graph settings budget id site state events (.error failure) next)
    (free : failure ∈ harmless) : failure.isFatal = true := by
  rcases derived.fatal_or_taken with fatal | ⟨name, rfl⟩
  · exact fatal
  · exact absurd rfl (free.1 name)

end RouterClient.Typing

namespace RouterClient.Client

open Model (GlobalModels LocalModel LocalModels Scope)
open Route (Entry Procedure)
open Schema (Graph NodeId)
open Code (Body Declaration RouteClass typeName)
open Typing

/-- No node without a value can be mentioned. -/
structure Discreet (graph : Graph) (globals : GlobalModels Declaration) (scope : Scope) : Prop where
  promoted : ∀ id, graph.Valueless Set.univ id → globals.globalName id = none
  visible : ∀ id, graph.Valueless Set.univ id → scope.lookup id = none

/-- What a part of a run does to the global models. -/
structure Adds (setting : Setting) (before : GlobalModels Declaration) (log : List Event)
    (after : GlobalModels Declaration) : Prop where
  evolves : Evolves setting.graph before after
  logged : Logged setting.graph setting.settings before log after

section

variable {setting : Setting} {before middle after : GlobalModels Declaration}
  {first second : List Event}

theorem Adds.refl (setting : Setting) (globals : GlobalModels Declaration) :
    Adds setting globals [] globals :=
  ⟨.refl _ _, .of_models rfl⟩

theorem Adds.trans (left : Adds setting before first middle) (right : Adds setting middle second after) :
    Adds setting before (first ++ second) after :=
  ⟨left.evolves.trans right.evolves, left.logged.trans right.logged right.evolves⟩

theorem TopTyped.cited {id : Option NodeId} {scope : Scope} {fallback : String}
    {state next : Typing.State} {outcome : Outcome}
    (typed : TopTyped setting id scope fallback state (.ok outcome) next)
    (discreet : Discreet setting.graph state.globals scope) (consistent : Consistent state.globals)
    (clean : next.Clean harmless) :
    ∃ log, Adds setting state.globals log next.globals ∧
      Discreet setting.graph next.globals outcome.scope ∧ Cited log (.ok outcome.typed) := by
  generalize verdictOf : (Except.ok outcome : Except Failure Outcome) = verdict at typed
  cases typed with
  | absent =>
      cases verdictOf
      exact ⟨[], .refl _ _, discreet, .of_silent .nil⟩
  | @present node _ _ _ events verdict last derived =>
      cases verdict with
      | error failure => cases verdictOf
      | ok typed =>
          cases verdictOf
          have unseen : Unseen setting.graph Set.univ node (state.within scope) :=
            fun other _ valueless => ⟨discreet.promoted other valueless, discreet.visible other valueless⟩
          have respects := derived.respects unseen
          refine ⟨events, ⟨derived.evolves, derived.logged consistent⟩, ⟨?_, ?_⟩,
            derived.cited spares_harmless unseen clean nofun⟩
          · exact fun other valueless =>
              respects.unpromoted other valueless (discreet.promoted other valueless)
          · exact fun other valueless =>
              respects.hidden other valueless (discreet.visible other valueless)

end

/-! ## Classes -/

/-- A class under way cites the model of a node: by a method, by one of its models, or by a class in it. -/
def ClassDraft.CitesWithin (draft : ClassDraft) (id : NodeId) : Prop :=
  draft.body.CitesWithin id ∨ ∃ child ∈ draft.children, ∃ body ∈ child.bodies, body.Cites id

theorem ClassDraft.CitesWithin.toClass {draft : ClassDraft} {id : NodeId} (cites : draft.CitesWithin id)
    (name segment : String) : ∃ body ∈ (draft.toClass name segment).bodies, body.Cites id := by
  simp only [ClassDraft.toClass, RouteClass.bodies, List.mem_cons, List.mem_append,
    Declaration.mem_modelBodies, RouteClass.mem_childBodies]
  rcases cites with (cites | ⟨model, nested, body, inside, cites⟩) | ⟨child, listed, body, inside, cites⟩
  · exact ⟨_, .inl rfl, cites⟩
  · exact ⟨body, .inr (.inl ⟨model, nested, inside⟩), cites⟩
  · exact ⟨body, .inr (.inr ⟨child, listed, inside⟩), cites⟩

/-- A class that has grown. -/
structure ClassDraft.Grows (draft grown : ClassDraft) : Prop where
  methods : draft.methods ⊆ grown.methods
  models : draft.models ⊆ grown.models
  children : draft.children ⊆ grown.children

namespace ClassDraft.Grows

variable {draft grown last : ClassDraft}

theorem refl (draft : ClassDraft) : draft.Grows draft :=
  ⟨List.Subset.refl _, List.Subset.refl _, List.Subset.refl _⟩

theorem trans (first : draft.Grows grown) (second : grown.Grows last) : draft.Grows last :=
  ⟨List.Subset.trans first.methods second.methods, List.Subset.trans first.models second.models,
    List.Subset.trans first.children second.children⟩

theorem cites {id : NodeId} (grows : draft.Grows grown) (cites : draft.CitesWithin id) :
    grown.CitesWithin id := by
  rcases cites with (⟨type, listed, owned⟩ | ⟨model, nested, cites⟩) | ⟨child, listed, cites⟩
  · obtain ⟨method, offered, written⟩ := List.mem_flatMap.mp listed
    exact .inl (.inl ⟨type, List.mem_flatMap.mpr ⟨method, grows.methods offered, written⟩, owned⟩)
  · exact .inl (.inr ⟨model, grows.models nested, cites⟩)
  · exact .inr ⟨child, grows.children listed, cites⟩

end ClassDraft.Grows

section

variable {inherited before middle after : Scope} {models grown : LocalModels Declaration}

theorem absorb?_subset {model? : Option (LocalModel Declaration)}
    (absorbed : models.absorb? model? = .ok grown) : models ⊆ grown := by
  cases model? with
  | none =>
      cases absorbed
      exact List.Subset.refl _
  | some model =>
      rcases LocalModels.absorb_ok absorbed with ⟨rfl, _⟩ | ⟨rfl, _⟩
      · exact List.Subset.refl _
      · exact List.subset_append_left _ _

/-- A class that is in step with its scope takes in every model that comes with a type. -/
theorem InStep.mem_absorb (inStep : InStep inherited before models) {typed : Option Typed}
    {model : LocalModel Declaration} (effect : ScopeEffect before (.ok typed) after)
    (absorbed : models.absorb? (typed.bind Typed.model) = .ok grown)
    (holds : typed.bind Typed.model = some model) : model ∈ grown := by
  obtain ⟨typed, rfl, carried⟩ := Option.bind_eq_some_iff.mp holds
  simp only [ScopeEffect, carried] at effect
  rw [holds] at absorbed
  rcases LocalModels.absorb_ok absorbed with ⟨_, other, nested, same⟩ | ⟨rfl, _, _⟩
  · have seen := (inStep.visible other.owner other.name).mpr (.inr ⟨other, nested, rfl, rfl⟩)
    rw [same, effect.1] at seen
    cases seen
  · exact List.mem_append_right _ (List.mem_singleton_self _)

end

section

variable {setting : Setting} {place : Place} {draft grown final : ClassDraft} {key : String}
  {procedure : Procedure} {state next : State} {fate : Fate} {noted : List Diagnostic}
  {inherited : Scope}

theorem Settles.grows
    (settled : Settles setting place draft key procedure state fate noted grown next) :
    draft.Grows grown := by
  cases settled with
  | excluded _ | failed _ _ _ _ => exact .refl draft
  | offered _ run _ =>
      obtain ⟨_, _, _, _, _, _, made⟩ := (typeProcedure_ok run).of_ok
      obtain ⟨between, absorbed, absorbed'⟩ := nest_pair (typedProcedure_ok made).1
      have models := List.Subset.trans (absorb?_subset absorbed) (absorb?_subset absorbed')
      exact ⟨List.subset_append_left _ _, models, List.Subset.refl _⟩

/-- A procedure that fails without a clash of names has not been typed at all. -/
theorem ProcedureTyped.unmoved {scope : Scope} {models : LocalModels Declaration}
    {state next : Typing.State} {failure : Failure}
    (typed : ProcedureTyped setting key procedure scope models state (.error failure) next)
    (survived : failure.isFatal = false) (free : failure ∈ harmless) : next = state := by
  generalize verdictOf : (Except.error failure : Except Failure TypedProcedure) = verdict at typed
  cases typed with
  | crowded _ => rfl
  | inputFailed _ ended | outputFailed _ _ ended =>
      cases verdictOf
      obtain ⟨_, _, _, _, derived⟩ := ended.of_error
      simp [derived.fatal_of_error free] at survived
  | @typed input _ output _ _ _ _ =>
      cases nested : nest models (input.typed.toList ++ output.typed.toList) with
      | ok result => simp [typedProcedure, bind, Except.bind, nested, pure, Except.pure] at verdictOf
      | error refused =>
          obtain ⟨name, rfl⟩ := nest_error nested
          simp only [typedProcedure, bind, Except.bind, nested] at verdictOf
          cases verdictOf
          exact absurd rfl (free.1 name)

/-- What is declared for the input or the output of a method is cited in the class. -/
theorem ClassDraft.cited_offer (draft : ClassDraft) {made : TypedProcedure} {typed : Option Typed}
    {log : List Event} (cited : Cited log (.ok typed))
    (written : ∀ given, typed = some given → given.type ∈ made.method.types)
    (nested : ∀ model, typed.bind Typed.model = some model → model ∈ made.models) :
    CitedBy (draft.offer made).CitesWithin log := by
  intro id definition declared
  obtain ⟨given, ⟨⟩, (owned | ⟨model, holds, cites⟩) | beside⟩ := cited id definition declared
  · have listed : given.type ∈ (draft.offer made).body.types :=
      List.mem_flatMap.mpr ⟨_, List.mem_append_right _ (List.mem_singleton_self _), written _ rfl⟩
    exact .inl (.inl (.inl ⟨_, listed, owned⟩))
  · exact .inl (.inl (.inr ⟨model, nested model holds, cites⟩))
  · exact .inr beside

/-- What is declared for a procedure is cited in its class, where no name is taken. -/
theorem Settles.cited
    (settled : Settles setting place draft key procedure state fate noted grown next)
    (inStep : InStep inherited draft.scope draft.models)
    (discreet : Discreet setting.graph state.typing.globals draft.scope)
    (consistent : Consistent state.typing.globals) (clean : next.typing.Clean harmless) :
    ∃ log, Adds setting state.typing.globals log next.typing.globals ∧
      Discreet setting.graph next.typing.globals grown.scope ∧ CitedBy grown.CitesWithin log := by
  cases settled with
  | excluded _ => exact ⟨[], .refl _ _, discreet, nofun⟩
  | failed _ run survived _ =>
      have free := clean.of_note.2 _ rfl
      have same := (typeProcedure_error run).unmoved survived free
      subst same
      exact ⟨[], .refl _ _, discreet, nofun⟩
  | @offered made _ _ _ run _ =>
      obtain ⟨_, input, middle, output, taken, given, ended⟩ := (typeProcedure_ok run).of_ok
      obtain ⟨nested, scope, method⟩ := typedProcedure_ok ended
      obtain ⟨between, absorbed, absorbed'⟩ := nest_pair nested
      obtain ⟨first, adds, veiled, cited⟩ :=
        taken.cited discreet consistent (clean.of_prefix given.diagnostics_prefix)
      obtain ⟨second, adds', veiled', cited'⟩ :=
        given.cited veiled (adds.evolves.consistent consistent) clean
      refine ⟨first ++ second, adds.trans adds', ?_, .append ?_ ?_⟩
      · rw [ClassDraft.offer, scope]
        exact veiled'
      · have written (typed : Typed) (present : input.typed = some typed) :
            typed.type ∈ made.method.types := by
          simp [method, Code.Method.types, present]
        refine draft.cited_offer cited written fun model holds => ?_
        exact absorb?_subset absorbed' (inStep.mem_absorb taken.scopeEffect absorbed holds)
      · have written (typed : Typed) (present : output.typed = some typed) :
            typed.type ∈ made.method.types := by
          simp [method, Code.Method.types, present]
        refine draft.cited_offer cited' written fun model holds => ?_
        exact (inStep.absorb taken.scopeEffect absorbed).mem_absorb given.scopeEffect absorbed' holds

/-- Entries only add to a class. -/
theorem Assembles.grows {entries : List (String × Entry)} {last : State} {log : List Account}
    (assembled : Assembles setting place draft entries state log final last) : draft.Grows final := by
  induction assembled with
  | done => exact .refl _
  | procedure settled _ ih => exact settled.grows.trans ih
  | @space _ draft _ _ _ _ _ _ _ _ _ _ _ _ _ ih =>
      have nests (child : RouteClass) : draft.Grows (draft.nest child) :=
        ⟨List.Subset.refl _, List.Subset.refl _, List.subset_append_left _ _⟩
      exact (nests _).trans ih

/-- What is declared while a class is filled is cited in the class, where no name is taken. -/
theorem Assembles.cited {entries : List (String × Entry)} {last : State} {log : List Account}
    (assembled : Assembles setting place draft entries state log final last)
    (inStep : InStep inherited draft.scope draft.models)
    (discreet : Discreet setting.graph state.typing.globals draft.scope)
    (consistent : Consistent state.typing.globals) (clean : last.typing.Clean harmless) :
    ∃ events, Adds setting state.typing.globals events last.typing.globals ∧
      Discreet setting.graph last.typing.globals final.scope ∧ CitedBy final.CitesWithin events := by
  induction assembled generalizing inherited with
  | done => exact ⟨[], .refl _ _, discreet, nofun⟩
  | procedure settled rest ih =>
      have before := clean.of_prefix ⟨_, rest.diagnostics_eq.symm⟩
      obtain ⟨first, adds, veiled, cited⟩ := settled.cited inStep discreet consistent before
      obtain ⟨second, adds', veiled', cited'⟩ :=
        ih (settled.inStep inStep) veiled (adds.evolves.consistent consistent) clean
      exact ⟨first ++ second, adds.trans adds', veiled',
        (cited.imp fun id cites => rest.grows.cites cites).append cited'⟩
  | @space _ _ key _ _ _ _ _ _ _ _ _ _ rest below ih =>
      have before := clean.of_prefix ⟨_, rest.diagnostics_eq.symm⟩
      obtain ⟨first, adds, veiled, cited⟩ := below (.start _) discreet consistent before
      -- What the child adds to its scope is not seen in the class around it.
      obtain ⟨second, adds', veiled', cited'⟩ := ih inStep ⟨veiled.promoted, discreet.visible⟩
        (adds.evolves.consistent consistent) clean
      refine ⟨first ++ second, adds.trans adds', veiled', .append (cited.imp fun id cites => ?_) cited'⟩
      have nested := cites.toClass (spaceName key) key
      exact rest.grows.cites (.inr ⟨_, List.mem_append_right _ (List.mem_singleton_self _), nested⟩)

end

/-- A method of the client, a model that is nested in one of its classes or the declaration of another
node for the whole file comes down to the model of a node. -/
def Cites (settings : Settings) (graph : Graph) (client : Client) (id : NodeId) : Prop :=
  (∃ body ∈ client.root.bodies, body.Cites id) ∨
  ∃ other definition, other ≠ id ∧ Stands graph settings client.globals other definition ∧
    definition.Cites id

/-- Where no name is taken and nothing is nested too deep, a client that takes only what its router refers
to has no global model that nothing cites. -/
theorem globals_cited {settings : Settings} {graph : Graph} {router : String} {tree : Route.Tree}
    {definitions : Table String NodeId} {client : Client} (referenced : settings.models = .referenced)
    (assembled : assemble settings graph router tree definitions = .ok client)
    (untaken : ∀ diagnostic ∈ client.diagnostics, diagnostic.failure ∈ harmless) :
    ∀ entry ∈ client.globals.models, client.Cites settings graph entry.2.owner := by
  obtain ⟨start, middle, log, final, last, defined, filled, root, globals, diagnostics⟩ :=
    assemble_follows assembled
  have unwanted : wantedDefinitions settings definitions = [] := by
    rw [wantedDefinitions, referenced]
  rw [unwanted] at defined
  cases defined
  have bare : Discreet graph ({} : State).typing.globals {} := ⟨fun _ _ => rfl, fun _ _ => rfl⟩
  obtain ⟨events, adds, _, cited⟩ := filled.cited (.start _) bare .empty
    fun diagnostic reported => untaken diagnostic (diagnostics ▸ reported)
  intro entry listed
  rw [globals] at listed
  rcases adds.logged.held entry listed with listed | declared
  · cases listed
  rcases cited _ _ declared with cites | ⟨other, definition, stands, apart, cites⟩
  · rw [Cites, root]
    exact .inl (cites.toClass _ _)
  · rw [Cites, globals]
    exact .inr ⟨other, definition, apart, adds.logged.stands _ _ stands, cites⟩

/-- Two objects of one name, and an object that stands alone or in a holder. -/
def takenGraph : Graph where
  nodes := #[
    { kind := .primitive .string },
    { kind := .object [("a", ⟨0⟩)], label := { name := some "Taken" } },
    { kind := .object [("x", ⟨0⟩)], label := { name := some "Extra" } },
    { kind := .object [("b", ⟨0⟩)], label := { name := some "Taken" } },
    { kind := .object [("extra", ⟨2⟩)], label := { name := some "Holder" } }]

def holderTree : Route.Tree :=
  [("first", .procedure { kind := .query, output := some ⟨4⟩ })]

/-- The method cites the holder, which cites the other object. -/
theorem holder_globals_cited :
    ∃ client, assemble {} takenGraph "app" holderTree [] = .ok client ∧
      client.globals.models.map (fun entry => entry.2.owner) = [⟨2⟩, ⟨4⟩] ∧
      client.diagnostics = [] ∧
      ∀ entry ∈ client.globals.models, client.Cites {} takenGraph entry.2.owner := by
  have ran : endsIn (assembleRoot ⟨takenGraph, {}⟩ "app" holderTree [] {})
      (fun _ last => last.typing.globals.models.map (fun entry => entry.2.owner) == [⟨2⟩, ⟨4⟩] &&
        last.typing.diagnostics.isEmpty) = true := by
    simp only [assembleRoot, holderTree, addEntries]
    decide +kernel
  obtain ⟨root, last, run, found⟩ := exists_of_endsIn ran
  rw [Bool.and_eq_true, beq_iff_eq, List.isEmpty_iff] at found
  obtain ⟨client, assembled, _, globals, diagnostics⟩ := assemble_of_run run
  have quiet : client.diagnostics = [] := diagnostics.trans found.2
  refine ⟨client, assembled, globals ▸ found.1, quiet, ?_⟩
  refine globals_cited rfl assembled fun diagnostic reported => ?_
  rw [quiet] at reported
  exact absurd reported List.not_mem_nil

/-- The output of the second procedure is refused, since the first has taken its name. -/
def takenTree : Route.Tree :=
  [("first", .procedure { kind := .query, output := some ⟨1⟩ }),
    ("second", .procedure { kind := .mutation, inputs := [⟨2⟩], output := some ⟨3⟩ })]

/-- The input of a procedure that is left out stays among the global models, although nothing in the client
comes down to it. -/
theorem extra_not_cited :
    ∃ client, assemble {} takenGraph "app" takenTree [] = .ok client ∧
      ∃ entry ∈ client.globals.models, ∀ body ∈ client.bodies, ¬ body.Cites entry.2.owner := by
  have ran : endsIn (assembleRoot ⟨takenGraph, {}⟩ "app" takenTree [] {})
      (fun root last => decide (∃ entry ∈ last.typing.globals.models,
        ∀ body ∈ last.typing.globals.definitions.flatMap Declaration.bodies ++ root.bodies,
          ¬ body.Cites entry.2.owner)) = true := by
    simp only [assembleRoot, takenTree, addEntries]
    decide +kernel
  obtain ⟨root, last, run, found⟩ := exists_of_endsIn ran
  obtain ⟨client, assembled, same, globals, _⟩ := assemble_of_run run
  refine ⟨client, assembled, ?_⟩
  rw [bodies, same, globals]
  exact of_decide_eq_true found

end RouterClient.Client
