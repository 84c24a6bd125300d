import RouterClient.Proofs.Client.Classes
import RouterClient.Proofs.Typing.Emptiness
import RouterClient.Proofs.Typing.Plain

/-! # Clients in balance

The layout of a file counts braces, line by line, with a reader of its own for literals and comments.
Where the protocols of the settings are identifiers, every declaration and every class that is generated is
balanced for that reader, whatever the document says.
-/

namespace RouterClient.Client

open Model (Scope)
open Schema (Graph NodeId)
open Code (Balanced Declaration Plain RouteClass Steady typeName_plain)
open Typing

section

variable {graph : Graph} {settings : Settings}

theorem carries_plain (protocols : settings.NamesProtocols) :
    Carries ⟨graph, settings⟩ (fun _ => True) PlainGlobals PlainScope Typed.IsPlain where
  input _ := trivial
  output _ := trivial
  fresh := PlainScope.empty
  typing _ derived kept visible := by
    obtain ⟨after, types⟩ := derived.plain protocols ⟨kept, visible⟩
    exact ⟨after.globals, after.scope, types⟩

theorem Classed.isSteady {draft : ClassDraft} {name : String}
    (classed : Classed PlainScope Typed.IsPlain RouteClass.IsSteady draft) (plain : Plain name)
    (segment : String) : (draft.toClass name segment).IsSteady := by
  refine RouteClass.isSteady plain (fun model listed => ?_) (fun method listed type written => ?_)
    classed.children
  · obtain ⟨typed, facts, holds⟩ := classed.models model listed
    exact facts.steady model holds
  · obtain ⟨typed, facts, rfl⟩ := classed.types method listed type written
    exact facts.type

theorem spaceName_plain (key : String) : Plain (spaceName key) :=
  (typeName_plain key).append (by decide)

/-- Only a nominal node has a declaration. -/
theorem nominal_of_declare {typer : Typer} {id : NodeId} {name : String}
    {description : Option String} {scope : Scope} {depth : Nat} {state next : Typing.State}
    {definition : Declaration}
    (declared : declare graph settings typer id name description scope depth state =
      .ok (some definition) next) :
    (graph.kind id).isNominal = true := by
  cases kind : graph.kind id with
  | object | enumeration | literal | union => rfl
  | primitive | empty | optional | nullable | collection | transform | unsupported =>
      simp only [declare, kind] at declared
      cases declared

/-- Where the protocols are identifiers, every declaration that is made in a plain state is balanced.  A
run starts in a plain state, typing leads from plain states to plain states, whether it succeeds or not,
and names nodes plainly.  So all global models of a client, and its root class, are balanced. -/
theorem generated_balanced (graph : Graph) (settings : Settings)
    (protocols : settings.NamesProtocols) :
    (∀ budget id name description scope depth state definition next,
      state.IsPlain → PlainScope scope → Plain name →
      declare graph settings (typeWithin graph settings budget) id name description scope depth state =
        .ok (some definition) next →
      Balanced definition.text) ∧
    State.IsPlain {} ∧
    (∀ budget id site (state : Typing.State), state.IsPlain →
      Plain (state.nameFor id (proposedName graph id site)) ∧
      (stateAfter (typeWithin graph settings budget id site) state).IsPlain) ∧
    ∀ router tree definitions root last,
      assembleRoot ⟨graph, settings⟩ router tree definitions {} = .ok root last →
      (∀ definition ∈ last.typing.globals.definitions, Balanced definition.text) ∧
      ∀ style, Balanced (root.lines style 0).text := by
  refine ⟨?_, ⟨.empty, .empty⟩, fun budget id site state plain => ⟨?_, ?_⟩, ?_⟩
  · intro budget id name description scope depth state definition next plain visible named declared
    obtain ⟨events, result, last, run, declares⟩ :=
      declare_follows settings (typeWithin_follows graph settings budget) name description scope depth
        state (nominal_of_declare declared)
    cases declared.symm.trans run
    have made := declares.plain (fun derived => derived.plain protocols) protocols visible named plain
    exact (made.2 definition rfl).balanced
  · exact plain.globals.nameFor id (proposedName_plain graph id site)
  · obtain ⟨events, verdict, _, derived⟩ := typeWithin_derives graph settings budget id site state
    exact (derived.plain protocols plain).1
  · intro router tree definitions root last run
    obtain ⟨globals, final, classed, rfl⟩ := assembleRoot_carried run (carries_plain protocols)
      (fun key _ classed => classed.isSteady (spaceName_plain key) key) .empty
    refine ⟨fun definition listed => ?_, fun style => ?_⟩
    · obtain ⟨model, valued, rfl⟩ := List.mem_map.mp listed
      obtain ⟨entry, member, rfl⟩ := List.mem_map.mp valued
      exact (globals.held entry member).balanced
    · exact ((classed.isSteady (typeName_plain router) router).lines style 0).balanced

end

/-- Braces, quotes and slashes wherever a document may have them. -/
def unrulyGraph : Graph where
  nodes := #[
    { kind := .literal (.string "\x7d\"\x7b"), label := { name := some "Brace \x7b" } },
    { kind := .object [("\"\x7b //", ⟨0⟩)], label := { description := some "\x7d\x7d\n\" \x7b" } },
    { kind := .union [⟨1⟩, ⟨0⟩], label := { description := some "// \x7b\"", name := some "\\" } }]

def unrulyTree : Route.Tree :=
  [("\x7d\"", .space [
    ("\\\x7b", .procedure { kind := .query, inputs := [⟨1⟩], output := some ⟨2⟩ })])]

/-- A declaration in an empty state, and a client with two global models and nested ones. -/
theorem unrulyGraph_balanced :
    (∃ definition next,
      declare unrulyGraph {} (typeWithin unrulyGraph {} 2) ⟨1⟩ "Root" (some "\x7d") {} 0 {} =
        .ok (some definition) next ∧
      Balanced definition.text) ∧
    ∃ root last, assembleRoot ⟨unrulyGraph, {}⟩ "\x7d" unrulyTree [] {} = .ok root last ∧
      last.typing.globals.size = 2 ∧ last.typing.diagnostics = [] ∧
      (∀ definition ∈ last.typing.globals.definitions, Balanced definition.text) ∧
      Balanced (root.lines ⟨.published, true⟩ 0).text := by
  have protocols : Settings.NamesProtocols {} := ⟨by decide, by decide⟩
  have balanced := generated_balanced unrulyGraph {} protocols
  constructor
  · have ran : endsIn (declare unrulyGraph {} (typeWithin unrulyGraph {} 2) ⟨1⟩ "Root" (some "\x7d")
        {} 0 {}) (fun definition _ => definition.isSome) = true := by
      decide +kernel
    obtain ⟨definition, next, run, some⟩ := exists_of_endsIn ran
    obtain ⟨definition, rfl⟩ := Option.isSome_iff_exists.mp some
    exact ⟨definition, next, run, balanced.1 2 ⟨1⟩ "Root" _ {} 0 {} definition next ⟨.empty, .empty⟩
      .empty (by decide) run⟩
  · have ran : endsIn (assembleRoot ⟨unrulyGraph, {}⟩ "\x7d" unrulyTree [] {})
        (fun _ last => last.typing.globals.size == 2 && last.typing.diagnostics.isEmpty) = true := by
      simp only [assembleRoot, unrulyTree, addEntries]
      decide +kernel
    obtain ⟨root, last, run, found⟩ := exists_of_endsIn ran
    rw [Bool.and_eq_true, beq_iff_eq, List.isEmpty_iff] at found
    obtain ⟨held, written⟩ := balanced.2.2.2 "\x7d" unrulyTree [] root last run
    exact ⟨root, last, run, found.1, found.2, held, written _⟩

end RouterClient.Client
