import RouterClient.Proofs.Client.Ledger

/-! # The turns of procedures

A run takes the procedures of a tree one after the other, and each turn starts from what the turns before
it have left.  The run fails exactly in a turn that ends it.  A procedure with a type that nothing stands
for ends the run in its turn, with one exception: its input has been refused because of a taken name, so
the output has not been looked at.
-/

namespace RouterClient.Client

open Model (Scope)
open Route (Entry Leaf Procedure Tree join segments)
open Schema (Graph NodeId)
open Code (typeName)
open Typing

/-- A procedure and all that assembly starts from when it comes to it. -/
structure Turn where
  place : Place
  draft : ClassDraft
  key : String
  procedure : Procedure
  state : State

namespace Turn

variable (setting : Setting) (turn : Turn)

def steps : List String :=
  turn.place.segments ++ [turn.key]

def run : EStateM.Result Abort State ClassDraft :=
  addProcedure setting turn.place turn.draft turn.key turn.procedure turn.state

/-- The procedure ends the run. -/
def Ends : Prop :=
  ∃ abort last, turn.run setting = .error abort last

/-- The input of the procedure is refused, since another model has its name. -/
def InputTaken (name : String) : Prop :=
  ∃ next, typeTop setting turn.procedure.inputs.head? turn.draft.scope
    (typeName turn.key ++ "Input") turn.state.typing = .error (.nameCollision name) next

end Turn

/-- The wrappers and collections of a type end in something that no Swift type stands for. -/
def Unsupported (graph : Graph) (id : NodeId) : Prop :=
  ∃ steps core typeName, graph.Spine id steps core ∧ graph.kind core = .unsupported typeName

/-- A procedure that is to be in the client, and has a type that nothing stands for. -/
structure Hopeless (setting : Setting) (procedure : Procedure) : Prop where
  included : isIncluded setting.settings procedure = true
  few : procedure.inputs.length ≤ 1
  unsupported : ∃ id ∈ procedure.inputs ++ procedure.output.toList, Unsupported setting.graph id

section

variable (setting : Setting)

/-- A run over entries comes to a turn: all that stands before it among and above them has been
assembled. -/
inductive Comes : Place → ClassDraft → List (String × Entry) → State → Turn → Prop where
  | here {place draft key procedure more state} :
      Comes place draft ((key, .procedure procedure) :: more) state
        ⟨place, draft, key, procedure, state⟩
  | after {place draft key procedure more state grown next turn} :
      addProcedure setting place draft key procedure state = .ok grown next →
      Comes place grown more next turn →
      Comes place draft ((key, .procedure procedure) :: more) state turn
  | inside {place draft key entries more state turn} :
      Comes (place.below key (spaceName key)) { scope := draft.scope } entries state turn →
      Comes place draft ((key, .space entries) :: more) state turn
  | past {place draft key entries more state child next turn} :
      addEntries setting (place.below key (spaceName key)) { scope := draft.scope } entries state =
        .ok child next →
      Comes place (draft.nest (child.toClass (spaceName key) key)) more next turn →
      Comes place draft ((key, .space entries) :: more) state turn

/-- The run over a router's tree comes to a turn, after the definitions. -/
def HasTurn (definitions : Table String NodeId) (router : String) (tree : Tree) (turn : Turn) : Prop :=
  ∃ start middle,
    (wantedDefinitions setting.settings definitions).foldlM (addDefinition setting)
      { scope := {} } {} = .ok start middle ∧
    Comes setting ⟨[], [typeName router]⟩ start tree middle turn

end

section

variable {setting : Setting} {place : Place} {draft grown : ClassDraft}
  {entries : List (String × Entry)} {state next last : State} {abort : Abort} {turn : Turn}

/-- A run over entries that fails has come to a turn that ends it. -/
theorem exists_turn_of_error
    (run : addEntries setting place draft entries state = .error abort last) :
    ∃ turn, Comes setting place draft entries state turn ∧ turn.run setting = .error abort last := by
  induction place, draft, entries using addEntries.induct generalizing state with
  | case1 place draft =>
      rw [addEntries] at run
      cases run
  | case2 place draft key procedure more ih =>
      rw [addEntries] at run
      rcases bind_error run with ended | ⟨grown, next, settled, run⟩
      · exact ⟨_, .here, ended⟩
      · obtain ⟨turn, comes, ended⟩ := ih grown run
        exact ⟨turn, .after settled comes, ended⟩
  | case3 place draft key entries more below ih =>
      rw [addEntries] at run
      rcases bind_error run with run | ⟨child, next, filled, run⟩
      · obtain ⟨turn, comes, ended⟩ := below run
        exact ⟨turn, .inside comes, ended⟩
      · obtain ⟨turn, comes, ended⟩ := ih child run
        exact ⟨turn, .past filled comes, ended⟩

/-- A turn that ends the run ends it for good. -/
theorem Comes.error_of_run (comes : Comes setting place draft entries state turn)
    (ended : turn.run setting = .error abort last) :
    addEntries setting place draft entries state = .error abort last := by
  induction comes with
  | here =>
      rw [addEntries]
      exact bind_of_error ended
  | after settled _ ih =>
      rw [addEntries, bind_of_ok settled]
      exact ih ended
  | inside _ ih =>
      rw [addEntries]
      exact bind_of_error (ih ended)
  | past filled _ ih =>
      rw [addEntries, bind_of_ok filled]
      exact ih ended

/-- A run over entries that comes to its end has come to every procedure among and below them, and keeps
what has been reported by then. -/
theorem exists_turn_of_leaf (run : addEntries setting place draft entries state = .ok grown last)
    {leaf : Leaf} (listed : leaf ∈ Tree.leaves entries) :
    ∃ turn settled next, Comes setting place draft entries state turn ∧
      turn.steps = place.segments ++ leaf.1 ∧ turn.procedure = leaf.2 ∧
      turn.run setting = .ok settled next ∧ next.typing.diagnostics ⊆ last.typing.diagnostics := by
  have kept {place draft entries state final last}
      (run : addEntries setting place draft entries state = .ok final last) :
      state.typing.diagnostics ⊆ last.typing.diagnostics := by
    obtain ⟨log, assembled⟩ := addEntries_follows run
    rw [assembled.diagnostics_eq]
    exact List.subset_append_left _ _
  induction place, draft, entries using addEntries.induct generalizing state leaf grown last with
  | case1 place draft => cases listed
  | case2 place draft key procedure more ih =>
      rw [addEntries] at run
      obtain ⟨between, middle, first, run⟩ := bind_ok run
      rcases List.mem_cons.mp listed with rfl | listed
      · exact ⟨_, between, middle, .here, rfl, rfl, first, kept run⟩
      · obtain ⟨turn, settled, next, comes, found⟩ := ih between run listed
        exact ⟨turn, settled, next, .after first comes, found⟩
  | case3 place draft key entries more below ih =>
      rw [addEntries] at run
      obtain ⟨child, middle, first, run⟩ := bind_ok run
      rw [Tree.leaves, Entry.leaves, List.mem_append] at listed
      rcases listed with under | listed
      · obtain ⟨inner, member, rfl⟩ := List.mem_map.mp under
        obtain ⟨turn, settled, next, comes, steps, same, ran, reported⟩ := below first member
        refine ⟨turn, settled, next, .inside comes, ?_, same, ran,
          List.Subset.trans reported (kept run)⟩
        simpa [Place.below, Leaf.under] using steps
      · obtain ⟨turn, settled, next, comes, found⟩ := ih child run listed
        exact ⟨turn, settled, next, .past first comes, found⟩

/-- A type that nothing stands for is given up only with the whole run. -/
theorem Unsupported.ending {id : NodeId} (unsupported : Unsupported setting.graph id) (scope : Scope)
    (fallback : String) (state : Typing.State) :
    ∃ failure next, typeTop setting (some id) scope fallback state = .error failure next ∧
      failure.isFatal = true := by
  obtain ⟨steps, core, typeName, spine, kind⟩ := unsupported
  obtain ⟨events, verdict, next, derived, run⟩ :=
    typeAt_derives setting.graph setting.settings id { scope, fallback } state
  obtain ⟨failure, rfl, fatal⟩ := derived.fatal_of_spine spine kind
  exact ⟨failure, _, run, fatal⟩

/-- What a turn does when the typing of the procedure fails. -/
theorem Turn.run_of_error {failure : Failure} {next : Typing.State}
    (included : isIncluded setting.settings turn.procedure = true)
    (failed : typeProcedure setting turn.key turn.procedure turn.draft.scope turn.draft.models
      turn.state.typing = .error failure next) :
    turn.run setting =
      if failure.isFatal then
        .error ⟨failure, some (join turn.steps), next.diagnostics⟩ { turn.state with typing := next }
      else .ok turn.draft { turn.state with typing := next.note (join turn.steps) (some failure) } :=
  addProcedure_of_error turn.place included failed

theorem Turn.ends_of_fatal {failure : Failure} {next : Typing.State}
    (included : isIncluded setting.settings turn.procedure = true)
    (failed : typeProcedure setting turn.key turn.procedure turn.draft.scope turn.draft.models
      turn.state.typing = .error failure next) (fatal : failure.isFatal = true) :
    turn.Ends setting :=
  ⟨_, _, by rw [Turn.run_of_error included failed, if_pos fatal]⟩

theorem head?_of_few {ids : List NodeId} {id : NodeId} (few : ids.length ≤ 1) (listed : id ∈ ids) :
    ids.head? = some id := by
  match ids with
  | [only] =>
      obtain rfl := List.mem_singleton.mp listed
      rfl
  | _ :: _ :: _ => simp at few

/-- The turn of a hopeless procedure leaves it out or ends the run.  It is left out only for an input
whose name is taken, and then nothing has been asked of its output. -/
theorem Hopeless.run_cases (hopeless : Hopeless setting turn.procedure) :
    (∃ name, ∃ next : Typing.State, turn.InputTaken setting name ∧
      (∀ id ∈ turn.procedure.inputs, ¬ Unsupported setting.graph id) ∧
      turn.run setting = .ok turn.draft
        { turn.state with typing := next.note (join turn.steps) (some (.nameCollision name)) }) ∨
    (∀ name, ¬ turn.InputTaken setting name) ∧ turn.Ends setting := by
  obtain ⟨included, few, id, mentioned, unsupported⟩ := hopeless
  obtain ⟨verdict, middle, taken, typed⟩ := typeTop_follows setting turn.procedure.inputs.head?
    turn.draft.scope (typeName turn.key ++ "Input") turn.state.typing
  have fatal_of_listed {id : NodeId} (listed : id ∈ turn.procedure.inputs)
      (unsupported : Unsupported setting.graph id) :
      ∃ failure, verdict = .error failure ∧ failure.isFatal = true := by
    obtain ⟨failure, next, run, fatal⟩ := unsupported.ending turn.draft.scope
      (typeName turn.key ++ "Input") turn.state.typing
    rw [head?_of_few few listed] at taken
    obtain ⟨rfl, _⟩ := ending_inj (taken.symm.trans (show _ = ending (.error failure) next from run))
    exact ⟨failure, rfl, fatal⟩
  cases verdict with
  | error failure =>
      have failed := typeProcedure_of_input turn.draft.models few taken
      cases fatal : failure.isFatal with
      | true =>
          refine .inr ⟨fun name => ?_, Turn.ends_of_fatal included failed fatal⟩
          rintro ⟨next, refused⟩
          cases taken.symm.trans refused
          cases fatal
      | false =>
          -- What is left over of the ways to fail is that a name is taken.
          obtain ⟨_, _, _, _, derived⟩ := typed.of_error
          rcases derived.fatal_or_taken with fatal' | ⟨name, rfl⟩
          · simp [fatal'] at fatal
          refine .inl ⟨name, middle, ⟨middle, taken⟩, fun id listed unsupported => ?_, ?_⟩
          · obtain ⟨_, ⟨⟩, ends⟩ := fatal_of_listed listed unsupported
            cases ends
          · rw [Turn.run_of_error included failed]
            rfl
  | ok input =>
      refine .inr ⟨fun name => ?_, ?_⟩
      · rintro ⟨next, refused⟩
        cases taken.symm.trans refused
      rcases List.mem_append.mp mentioned with listed | given
      · obtain ⟨_, ⟨⟩, _⟩ := fatal_of_listed listed unsupported
      · obtain ⟨failure, next, run, fatal⟩ := unsupported.ending input.scope
          (typeName turn.key ++ "Output") middle
        rw [← Option.mem_toList.mp given] at run
        have failed := typeProcedure_of_output turn.draft.models few taken run
        exact Turn.ends_of_fatal included failed fatal

theorem Hopeless.ends_iff (hopeless : Hopeless setting turn.procedure) :
    turn.Ends setting ↔ ∀ name, ¬ turn.InputTaken setting name := by
  rcases hopeless.run_cases with ⟨name, _, taken, _, ran⟩ | ⟨free, ends⟩
  · refine iff_of_false ?_ fun free => free name taken
    rintro ⟨abort, last, ended⟩
    cases ran.symm.trans ended
  · exact iff_of_true ends free

end

section

variable {settings : Settings} {document : Document} {router template : String}
  {procedures : Table String Procedure} {tree : Tree}

/-- The file is that of the client that is assembled. -/
theorem generate_eq (found : document.router router = .ok procedures)
    (built : Tree.ofProcedures procedures = .ok tree) :
    generate settings document router template =
      (assemble settings document.graph router tree document.definitions).map
        (·.generation settings template) := by
  simp only [generate, ofDocument, found, built, Except.mapError, bind, Except.bind]

/-- A file is generated exactly when no turn of the run ends it. -/
theorem generated_iff (found : document.router router = .ok procedures)
    (built : Tree.ofProcedures procedures = .ok tree) :
    (∃ generation, generate settings document router template = .ok generation) ↔
      ∀ turn, HasTurn ⟨document.graph, settings⟩ document.definitions router tree turn →
        ¬ turn.Ends ⟨document.graph, settings⟩ := by
  have begun : ({} : State).typing.callDepth = 0 := rfl
  obtain ⟨start, middle, defined, _⟩ := addDefinitions_total ⟨document.graph, settings⟩
    (wantedDefinitions settings document.definitions) { scope := {} } begun
  have root : assembleRoot ⟨document.graph, settings⟩ router tree document.definitions {} =
      (addEntries ⟨document.graph, settings⟩ ⟨[], [typeName router]⟩ start tree >>= fun root =>
        pure (root.toClass (typeName router) router)) middle := by
    rw [assembleRoot_eq, bind_of_ok defined]
  rw [generate_eq found built]
  unfold assemble
  cases run : addEntries ⟨document.graph, settings⟩ ⟨[], [typeName router]⟩ start tree middle with
  | error abort last =>
      rw [root, bind_of_error run]
      obtain ⟨turn, comes, ended⟩ := exists_turn_of_error run
      refine iff_of_false ?_ fun endless => ?_
      · rintro ⟨generation, drawn⟩
        cases drawn
      · exact endless turn ⟨start, middle, defined, comes⟩ ⟨abort, last, ended⟩
  | ok final last =>
      rw [root, bind_of_ok run]
      refine iff_of_true ⟨_, rfl⟩ ?_
      rintro turn ⟨start', middle', defined', comes⟩ ⟨abort, last', ended⟩
      cases defined.symm.trans defined'
      cases run.symm.trans (comes.error_of_run ended)

/-- A run over a router's tree that comes to its end has come to all procedures of the router. -/
theorem exists_turn_of_procedure (found : document.router router = .ok procedures)
    (built : Tree.ofProcedures procedures = .ok tree) {generation : Generation}
    (generated : generate settings document router template = .ok generation)
    {entry : String × Procedure} (listed : entry ∈ procedures) :
    ∃ turn settled next,
      HasTurn ⟨document.graph, settings⟩ document.definitions router tree turn ∧
      join turn.steps = entry.1 ∧ turn.procedure = entry.2 ∧
      turn.run ⟨document.graph, settings⟩ = .ok settled next ∧
      next.typing.diagnostics ⊆ generation.diagnostics := by
  rw [generate_eq found built] at generated
  obtain ⟨client, assembled, rfl⟩ :
      ∃ client, assemble settings document.graph router tree document.definitions = .ok client ∧
        client.generation settings template = generation := by
    cases assembled : assemble settings document.graph router tree document.definitions with
    | error abort =>
        rw [assembled] at generated
        cases generated
    | ok client =>
        rw [assembled] at generated
        cases generated
        exact ⟨client, rfl, rfl⟩
  obtain ⟨last, run, _, diagnostics⟩ := assemble_run assembled
  rw [assembleRoot_eq] at run
  obtain ⟨start, middle, defined, run⟩ := bind_ok run
  obtain ⟨final, last', entered, made⟩ := bind_ok run
  obtain ⟨_, rfl⟩ := EStateM.Result.ok.inj made
  have leaf : (segments entry.1, entry.2) ∈ tree.leaves :=
    (Route.ofProcedures_holds built).2.perm.mem_iff.mpr (List.mem_map.mpr ⟨entry, listed, rfl⟩)
  obtain ⟨turn, settled, next, comes, steps, same, ran, reported⟩ :=
    exists_turn_of_leaf entered leaf
  refine ⟨turn, settled, next, ⟨start, middle, defined, comes⟩, ?_, same, ran, ?_⟩
  · rw [steps]
    exact Route.join_segments entry.1
  · rw [Client.generation, diagnostics]
    exact reported

/-- No file is generated for a router whose paths make a tree exactly when some turn of the run ends it.
A procedure with a type that nothing stands for ends the run in its turn, whatever has been assembled
before it, unless the name of its input is taken there.  So if a file is generated all the same, it is the
output that nothing stands for, and the taken name of the input is what has been reported. -/
theorem unsupported_ends_run (settings : Settings) (document : Document) (router template : String)
    {procedures : Table String Procedure} {tree : Tree}
    (found : document.router router = .ok procedures) (built : Tree.ofProcedures procedures = .ok tree) :
    let setting : Setting := ⟨document.graph, settings⟩
    ((∃ generation, generate settings document router template = .ok generation) ↔
      ∀ turn, HasTurn setting document.definitions router tree turn → ¬ turn.Ends setting) ∧
    (∀ turn : Turn, Hopeless setting turn.procedure →
      (turn.Ends setting ↔ ∀ name, ¬ turn.InputTaken setting name)) ∧
    ∀ generation, generate settings document router template = .ok generation →
      ∀ entry ∈ procedures, Hopeless setting entry.2 →
        (∀ id ∈ entry.2.inputs, ¬ Unsupported setting.graph id) ∧
        ∃ turn, HasTurn setting document.definitions router tree turn ∧
          join turn.steps = entry.1 ∧ turn.procedure = entry.2 ∧
          ∃ name, turn.InputTaken setting name ∧
            ⟨entry.1, .nameCollision name⟩ ∈ generation.diagnostics := by
  intro setting
  refine ⟨generated_iff found built, fun turn hopeless => hopeless.ends_iff, ?_⟩
  intro generation generated entry listed hopeless
  obtain ⟨turn, settled, next, hasTurn, path, same, ran, reported⟩ :=
    exists_turn_of_procedure found built generated listed
  rw [← same] at hopeless
  rcases hopeless.run_cases with ⟨name, last, taken, fine, left⟩ | ⟨_, abort, last, ended⟩
  · cases left.symm.trans ran
    refine ⟨same ▸ fine, turn, hasTurn, path, same, name, taken, reported ?_⟩
    rw [path]
    exact List.mem_append_right _ (List.mem_singleton_self _)
  · cases ended.symm.trans ran

end

/-- A procedure whose output nothing stands for, and whose input may find its name taken. -/
def hopelessProcedure : Procedure where
  kind := .mutation
  inputs := [⟨2⟩]
  output := some ⟨3⟩

def collidingProcedures : Table String Procedure :=
  [("first", { kind := .query, output := some ⟨1⟩ }), ("second", hopelessProcedure)]

/-- Two objects of one name and a tuple.  In one router the output of the first procedure takes the name
before the input of the second asks for it, in the other nothing comes before. -/
def collidingDocument : Document where
  graph := ⟨#[
    { kind := .primitive .string },
    { kind := .object [("a", ⟨0⟩)], label := { name := some "Taken" } },
    { kind := .object [("b", ⟨0⟩)], label := { name := some "Taken" } },
    { kind := .unsupported "tuple" }]⟩
  routers := [("app", collidingProcedures), ("lone", [("second", hopelessProcedure)])]

def collidingTree : Tree :=
  [("first", .procedure { kind := .query, output := some ⟨1⟩ }), ("second", .procedure hopelessProcedure)]

theorem hopeless_procedure : Hopeless ⟨collidingDocument.graph, {}⟩ hopelessProcedure :=
  ⟨rfl, by decide, ⟨3⟩, by decide, 0, ⟨3⟩, "tuple", .core rfl, rfl⟩

theorem colliding_document_generated :
    ∃ generation, generate {} collidingDocument "app" "" = .ok generation := by
  have ran : (assemble {} collidingDocument.graph "app" collidingTree []).toOption.any
      (fun _ => true) = true := by
    simp only [assemble, assembleRoot, collidingTree, addEntries]
    decide +kernel
  obtain ⟨client, assembled, _⟩ := exists_of_passed ran
  have built : Tree.ofProcedures collidingProcedures = .ok collidingTree := rfl
  have same : collidingDocument.definitions = [] := rfl
  refine ⟨client.generation {} "", ?_⟩
  rw [generate_eq rfl built, same, assembled]
  rfl

/-- Where the name of the input is taken, the run goes on and says nothing of the output; where it is free,
there is no file. -/
theorem hopeless_procedure_turns :
    let setting : Setting := ⟨collidingDocument.graph, {}⟩
    (∃ generation, generate {} collidingDocument "app" "" = .ok generation ∧
      ∃ turn, HasTurn setting [] "app" collidingTree turn ∧ turn.procedure = hopelessProcedure ∧
        ¬ turn.Ends setting ∧ ∃ name, turn.InputTaken setting name ∧
          ⟨"second", .nameCollision name⟩ ∈ generation.diagnostics) ∧
    ¬ ∃ generation, generate {} collidingDocument "lone" "" = .ok generation := by
  intro setting
  have built : Tree.ofProcedures collidingProcedures = .ok collidingTree := rfl
  have alone : Tree.ofProcedures [("second", hopelessProcedure)] =
      .ok [("second", .procedure hopelessProcedure)] := rfl
  obtain ⟨endless, ends, left⟩ := unsupported_ends_run {} collidingDocument "app" "" rfl built
  refine ⟨?_, fun generated => ?_⟩
  · obtain ⟨generation, generated⟩ := colliding_document_generated
    obtain ⟨_, turn, hasTurn, _, same, reported⟩ :=
      left generation generated ("second", hopelessProcedure) (by decide) hopeless_procedure
    have survives := endless.mp ⟨generation, generated⟩ turn hasTurn
    exact ⟨generation, generated, turn, hasTurn, same, survives, reported⟩
  · obtain ⟨endless, ends, _⟩ := unsupported_ends_run {} collidingDocument "lone" "" rfl alone
    let turn : Turn := ⟨⟨[], ["Lone"]⟩, { scope := {} }, "second", hopelessProcedure, {}⟩
    obtain ⟨outcome, next, free⟩ : ∃ outcome next,
        typeTop setting (some ⟨2⟩) {} (typeName "second" ++ "Input") {} = .ok outcome next :=
      ⟨_, _, rfl⟩
    refine endless.mp generated turn ⟨_, _, rfl, .here⟩ ((ends turn hopeless_procedure).mpr ?_)
    rintro name ⟨_, refused⟩
    cases free.symm.trans refused

/-- A tuple at the top of an output does not keep the file from being generated, if the name of the input is
taken. -/
theorem collision_hides_unsupported :
    collidingDocument.router "app" = .ok collidingProcedures ∧
    Tree.ofProcedures collidingProcedures = .ok collidingTree ∧
    ("second", hopelessProcedure) ∈ collidingProcedures ∧
    Hopeless ⟨collidingDocument.graph, {}⟩ hopelessProcedure ∧
    hopelessProcedure.output = some ⟨3⟩ ∧ collidingDocument.graph.Spine ⟨3⟩ 0 ⟨3⟩ ∧
    collidingDocument.graph.kind ⟨3⟩ = .unsupported "tuple" ∧
    ∃ generation, generate {} collidingDocument "app" "" = .ok generation := by
  obtain ⟨generation, generated⟩ := colliding_document_generated
  exact ⟨rfl, rfl, by decide, hopeless_procedure, rfl, .core rfl, rfl, generation, generated⟩

end RouterClient.Client
