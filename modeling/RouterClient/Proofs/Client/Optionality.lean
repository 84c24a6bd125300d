import RouterClient.Proofs.Client.Names
import RouterClient.Proofs.Typing.Emptiness
import RouterClient.Proofs.Typing.QuestionMarks
import RouterClient.Proofs.Typing.Wrappers

/-! # Optional values in a client

Wrappers are typed in one step where the chain of them starts at an optional or nullable node, and one by
one where it starts at a transform.  Both come to the same: the node under the chain is typed at the site
that the chain leaves for it, and one question mark tells that a value may be absent.
-/

namespace RouterClient.Client

open Code (Declaration RouteClass Single)
open Model (GlobalModels Scope)
open Schema (Graph NodeId)
open Typing

/-- The types that a client writes for the members of its declarations and for its methods. -/
def signatures (client : Client) : List String :=
  client.declarations.flatMap Declaration.signatures ++
    (client.root.reached []).flatMap fun item => item.2.signatures

/-- A class that writes single question marks, in its models as for its methods. -/
structure MarkedClass (cls : RouteClass) : Prop where
  models : ∀ model ∈ cls.models, SinglyMarked model.definition
  methods : ∀ signature ∈ cls.signatures, Single signature

section

variable {graph : Graph} {settings : Settings} {router : String} {tree : Route.Tree}
  {definitions : Table String NodeId} {client : Client}

theorem Classed.singlyMarked {draft : ClassDraft}
    (classed : Classed tidy.OfScope tidy.OfTyped (RouteClass.Everywhere MarkedClass) draft)
    (name segment : String) : (draft.toClass name segment).Everywhere MarkedClass := by
  refine .intro ⟨fun model listed => ?_, fun signature written => ?_⟩ classed.children
  · obtain ⟨typed, met, same⟩ := classed.models model listed
    exact met.model model same
  · obtain ⟨method, listed, written⟩ := List.mem_flatMap.mp written
    obtain ⟨type, given, rfl⟩ := List.mem_map.mp written
    obtain ⟨typed, met, rfl⟩ := classed.types method listed type given
    exact met.type.single

theorem assemble_singlyMarked
    (assembled : assemble settings graph router tree definitions = .ok client) :
    ∀ signature ∈ client.signatures, Single signature := by
  obtain ⟨last, run, globals, _⟩ := assemble_run assembled
  obtain ⟨kept, final, classed, root⟩ := assembleRoot_carried run
    (carries_of_met (tidy_met _ _) (fun _ => trivial) fun _ => trivial)
    (fun key _ classed => classed.singlyMarked (spaceName key) key) (.empty tidy)
  have everywhere := classed.singlyMarked (Code.typeName router) router
  rw [← root] at everywhere
  rw [← globals] at kept
  intro signature written
  rcases List.mem_append.mp written with written | written
  · obtain ⟨declaration, listed, written⟩ := List.mem_flatMap.mp written
    refine forall_declarations (P := fun inner => ∀ signature ∈ inner.signatures, Single signature)
      kept.held (fun item reached => ?_) declaration listed signature written
    exact (everywhere.reached reached).models
  · obtain ⟨item, reached, written⟩ := List.mem_flatMap.mp written
    exact (everywhere.reached reached).methods signature written

/-- Where typing is clear of the limit, a node is typed like the node under its chain of wrappers, at the
site that the chain leaves for it and with the same state after it, but for one mark on a type that is
there: where some wrapper is optional or nullable and the site is not marked around it.  A transform
without a name and a flag changes nothing.  A type is optional, and ends in a question mark where the names
of the state have none, just where a value may be absent and the site is not marked.  And nothing that a
client writes for a type has two question marks side by side. -/
theorem wrappers_marked_once (graph : Graph) (settings : Settings) :
    (∀ id b path, graph.Chain id path b → ∀ site state verdict next,
      typeHere graph settings id site state = ending verdict next → Clears state verdict next →
      ∃ inner, typeHere graph settings b (site.under graph path) state = ending inner next ∧
        verdict = Verdict.marked (!site.marked && graph.marks path) inner) ∧
    (∀ id inner, graph.kind id = .transform inner → (graph.label id).name = none →
      (graph.label id).isGlobal = false → ∀ site state verdict next,
      typeHere graph settings id site state = ending verdict next → Clears state verdict next →
      typeHere graph settings inner site state = ending verdict next) ∧
    (∀ id site state typed next, typeHere graph settings id site state = .ok (some typed) next →
      (typed.type.isOptional = true ↔ site.marked = false ∧ admitsNull graph id = true) ∧
      (tidy.OfState state → tidy.OfState next ∧ Single typed.type.text ∧
        (typed.type.text.toList.getLast? = some '?' ↔
          site.marked = false ∧ admitsNull graph id = true))) ∧
    tidy.OfState {} ∧
    ∀ router tree definitions client,
      assemble settings graph router tree definitions = .ok client →
      ∀ signature ∈ client.signatures, Single signature := by
  refine ⟨?_, ?_, ?_, .empty tidy, fun _ _ _ _ => assemble_singlyMarked⟩
  · intro id b path chain site state verdict next run clears
    obtain ⟨events, derived⟩ := typeHere_iff.mp run
    obtain ⟨inner, derived, same⟩ := derived.of_chain chain clears
    exact ⟨inner, typeHere_iff.mpr ⟨events, derived⟩, same⟩
  · intro id inner kind unnamed unflagged site state verdict next run clears
    obtain ⟨events, derived⟩ := typeHere_iff.mp run
    exact typeHere_iff.mpr ⟨events, derived.of_plain_transform kind unnamed unflagged clears⟩
  · intro id site state typed next run
    have ending : typeHere graph settings id site state = ending (.ok (some typed)) next := run
    obtain ⟨events, derived⟩ := typeHere_iff.mp ending
    have optional : typed.type.isOptional = true ↔ site.marked = false ∧ admitsNull graph id = true := by
      rw [derived.unwraps.isOptional_eq rfl, Bool.and_eq_true, Bool.not_eq_true']
    refine ⟨optional, fun met => ?_⟩
    obtain ⟨after, types⟩ := derived.upheld (tidy_met graph settings) met
    have written : Code.TypeExpr.IsTidy typed.type := (types typed rfl).type
    exact ⟨after, written.single, written.ends_iff.trans optional⟩

end

/-- An object under a transform without a name, an optional node, a transform with a name and a nullable
node. -/
def wrappedGraph : Graph where
  nodes := #[
    { kind := .primitive .string },
    { kind := .object [("name", ⟨0⟩), ("parent", ⟨5⟩)] },
    { kind := .nullable ⟨1⟩ },
    { kind := .transform ⟨2⟩, label := { name := some "Person" } },
    { kind := .optional ⟨3⟩ },
    { kind := .transform ⟨4⟩ }]

/-- Seen from outside, the type of the object has the name and one question mark; seen from inside it has
the name only. -/
theorem wrappedGraph_marked :
    let site : Site := { fallback := "Root" }
    let inside : Site := site.descend true (some ⟨3⟩)
    wrappedGraph.Chain ⟨5⟩ [⟨5⟩, ⟨4⟩, ⟨3⟩, ⟨2⟩] ⟨1⟩ ∧
    (∃ typed next,
      typeHere wrappedGraph {} ⟨5⟩ site {} = .ok (some typed) next ∧
      typeHere wrappedGraph {} ⟨4⟩ site {} = .ok (some typed) next ∧
      typed.type.text = "Person?" ∧ typed.type.isOptional = true ∧ Single typed.type.text ∧
      ∃ inner, typeHere wrappedGraph {} ⟨1⟩ inside {} = .ok (some inner) next ∧
        inner.type.text = "Person" ∧ typed = { inner with type := .optional inner.type }) ∧
    ∃ client, assemble {} wrappedGraph "app"
        [("find", .procedure { kind := .query, output := some ⟨5⟩ })] [] = .ok client ∧
      client.signatures = ["String", "Person?", "Person?"] ∧
      ∀ signature ∈ client.signatures, Single signature := by
  intro site inside
  obtain ⟨chains, transparent, optional, met, client⟩ := wrappers_marked_once wrappedGraph {}
  have chain : wrappedGraph.Chain ⟨5⟩ [⟨5⟩, ⟨4⟩, ⟨3⟩, ⟨2⟩] ⟨1⟩ :=
    .around rfl (.around rfl (.around rfl (.around rfl (.bare rfl))))
  refine ⟨chain, ?_, ?_⟩
  · have ran : endsIn (typeHere wrappedGraph {} ⟨5⟩ site {}) (fun result next =>
        result.any (fun typed => typed.type.text = "Person?") && next.diagnostics.isEmpty) = true := by
      decide +kernel
    have ran' : endsIn (typeHere wrappedGraph {} ⟨1⟩ inside {}) (fun result _ =>
        result.any fun inner => inner.type.text = "Person") = true := by
      decide +kernel
    obtain ⟨result, next, run, found⟩ := exists_of_endsIn ran
    obtain ⟨other, last, run', found'⟩ := exists_of_endsIn ran'
    simp only [Bool.and_eq_true, List.isEmpty_iff, Option.any_eq_true, decide_eq_true_eq] at found
    simp only [Option.any_eq_true, decide_eq_true_eq] at found'
    obtain ⟨⟨typed, rfl, text⟩, silent⟩ := found
    obtain ⟨inner, rfl, text'⟩ := found'
    have clears : Clears {} (.ok (some typed)) next := ⟨nofun, ⟨[], silent, nofun⟩⟩
    obtain ⟨verdict, derived, marked⟩ := chains _ _ _ chain site {} (.ok (some typed)) next run clears
    have both : ending (.ok (some inner)) last = ending verdict next := run'.symm.trans derived
    obtain ⟨rfl, rfl⟩ := ending_inj both
    obtain ⟨same, held⟩ := optional _ _ _ _ _ run
    exact ⟨typed, last, run,
      transparent _ _ rfl rfl rfl site {} (.ok (some typed)) last run clears, text,
      same.mpr ⟨rfl, rfl⟩, (held met).2.1, inner, run', text', Option.some.inj (Except.ok.inj marked)⟩
  · have ran : (assemble {} wrappedGraph "app"
        [("find", .procedure { kind := .query, output := some ⟨5⟩ })] []).toOption.any (fun client =>
        client.signatures = ["String", "Person?", "Person?"]) = true := by
      simp only [assemble, assembleRoot, addEntries]
      decide +kernel
    obtain ⟨found, assembled, signatures⟩ := exists_of_passed ran
    exact ⟨found, assembled, of_decide_eq_true signatures, client _ _ _ _ assembled⟩

end RouterClient.Client
