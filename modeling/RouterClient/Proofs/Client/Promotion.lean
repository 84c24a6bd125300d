import RouterClient.Proofs.Client.Classes
import RouterClient.Proofs.Client.Hygiene
import RouterClient.Proofs.Typing.Promotion

/-! # The policy of promotion

What the settings say about promotion, over whole runs: nothing is promoted where nothing asks for it,
nothing is nested where everything does, and no node without a name is promoted at all.
-/

namespace RouterClient.Client

open Model (GlobalModels Scope)
open Schema (NodeId Graph)
open Code (Body Declaration RouteClass)
open Typing

section

variable {graph : Graph} {settings : Settings}

/-- Every named node asks for a promotion. -/
theorem promotes_of_all (all : settings.hoisting = .all)
    (named : ∀ id, (graph.kind id).isNominal = true → (graph.label id).name.isSome = true)
    (id : NodeId) (site : Site) (nominal : (graph.kind id).isNominal = true) :
    promotes graph settings id site = true := by
  simp [promotes, isGlobal, all, named id nominal]

/-- The global models have no models in them. -/
def AllFlat (globals : GlobalModels Declaration) : Prop :=
  ∀ entry ∈ globals.models, entry.2.definition.models = []

theorem carries_flat
    (all : ∀ id site, (graph.kind id).isNominal = true → promotes graph settings id site = true) :
    Carries ⟨graph, settings⟩ (fun _ => True) AllFlat (fun _ => True) fun typed =>
      typed.model = none where
  input _ := trivial
  output _ := trivial
  fresh := trivial
  typing _ derived flat _ := by
    have after := derived.flat all
    refine ⟨fun entry listed => ?_, trivial, after.typed⟩
    exact (after.models entry listed).elim (flat entry) id

theorem bodies_of_flat {definition : Declaration} (flat : definition.models = []) :
    ∀ body ∈ definition.bodies, body.models = [] := by
  rw [Declaration.forall_bodies, flat]
  exact ⟨flat, nofun⟩

theorem Classed.flat {draft : ClassDraft} {V : Scope → Prop}
    (classed : Classed V (fun typed => typed.model = none)
      (fun child => ∀ body ∈ child.bodies, body.models = []) draft) (name segment : String) :
    ∀ body ∈ (draft.toClass name segment).bodies, body.models = [] := by
  have empty : draft.models = [] := by
    refine List.eq_nil_iff_forall_not_mem.mpr fun model listed => ?_
    obtain ⟨typed, none, some⟩ := classed.models model listed
    exact absurd (none.symm.trans some) nofun
  intro body inside
  simp only [ClassDraft.toClass, RouteClass.bodies, empty, Declaration.modelBodies, List.nil_append,
    List.mem_cons, RouteClass.mem_childBodies] at inside
  rcases inside with rfl | ⟨child, listed, inside⟩
  · rfl
  · exact classed.children child listed body inside

/-- Where every nominal node is promoted, no body of a client has models in it. -/
theorem assemble_flat
    (all : ∀ id site, (graph.kind id).isNominal = true → promotes graph settings id site = true)
    {router : String} {tree : Route.Tree} {definitions : Table String NodeId} {client : Client}
    (assembled : assemble settings graph router tree definitions = .ok client) :
    ∀ body ∈ client.bodies, body.models = [] := by
  obtain ⟨last, run, globals, _⟩ := assemble_run assembled
  obtain ⟨flat, final, classed, root⟩ := assembleRoot_carried run (carries_flat all)
    (fun _ _ classed => classed.flat _ _) nofun
  intro body inside
  rcases List.mem_append.mp inside with inside | inside
  · obtain ⟨definition, listed, inside⟩ := List.mem_flatMap.mp inside
    obtain ⟨model, valued, rfl⟩ := List.mem_map.mp listed
    obtain ⟨entry, member, rfl⟩ := List.mem_map.mp valued
    exact bodies_of_flat (flat entry (globals ▸ member)) body inside
  · rw [root] at inside
    exact classed.flat _ _ body inside

/-- What is promoted in a run, by what the settings say.  Where nothing asks for it, nothing is declared
for the whole file.  Where every nominal node has a name and all named ones are promoted, typing leaves no
model to be nested, at any depth, and no struct, union or class of a client holds one.  Where only the top
is promoted, typing below it neither declares nor promotes anything.  And a node that is promoted has a
name, or is reached through a wrapper or a collection that has one. -/
theorem promotion_policy (graph : Graph) (settings : Settings) :
    (settings.hoisting = .never → (∀ id, (graph.label id).isGlobal = false) → ∀ calls,
      (afterCalls graph settings calls).globals.models = [] ∧
      ∀ id, (afterCalls graph settings calls).globals.globalName id = none) ∧
    (settings.hoisting = .all →
      (∀ id, (graph.kind id).isNominal = true → (graph.label id).name.isSome = true) →
      (∀ budget id site state typed next,
        typeWithin graph settings budget id site state = .ok (some typed) next →
        typed.model = none) ∧
      (∀ calls, ∀ entry ∈ (afterCalls graph settings calls).globals.models,
        ∀ body ∈ entry.2.definition.bodies, body.models = []) ∧
      ∀ router tree definitions client,
        assemble settings graph router tree definitions = .ok client →
        ∀ body ∈ client.bodies, body.models = []) ∧
    (settings.hoisting = .top → (∀ id, (graph.label id).isGlobal = false) →
      ∀ budget id site state, 0 < site.depth →
        let next := stateAfter (typeWithin graph settings budget id site) state
        next.globals.models = state.globals.models ∧
        ∀ other, next.globals.globalName other = state.globals.globalName other) ∧
    ∀ calls id name, (afterCalls graph settings calls).globals.globalName id = some name →
      (graph.label id).name.isSome = true ∨
      ∃ call ∈ calls, ∃ w, (graph.label w).name.isSome = true ∧
        ReachedThrough graph (call.id, call.position.toSite) w id := by
  refine ⟨fun never unflagged calls => ?_, fun hoisted named => ⟨?_, ?_, ?_⟩,
    fun top unflagged budget id site state deep => ?_, fun calls id name known => ?_⟩
  · obtain ⟨log, run⟩ := exists_run graph settings calls {}
    have kept := run.unpromoting fun _ _ => secluded_of_never never unflagged _
    exact ⟨kept.models, kept.promoted⟩
  · intro budget id site state typed next ran
    obtain ⟨events, verdict, run, derived⟩ := typeWithin_derives graph settings budget id site state
    cases verdict with
    | error failure => cases run.symm.trans ran
    | ok result =>
        cases run.symm.trans ran
        exact (derived.flat (promotes_of_all hoisted named)).typed typed rfl
  · intro calls entry listed
    obtain ⟨log, run⟩ := exists_run graph settings calls {}
    exact bodies_of_flat (run.flat (promotes_of_all hoisted named) nofun entry listed)
  · exact fun router tree definitions client => assemble_flat (promotes_of_all hoisted named)
  · obtain ⟨events, verdict, _, derived⟩ := typeWithin_derives graph settings budget id site state
    have kept := derived.unpromoting (secluded_of_top top unflagged deep)
    exact ⟨kept.models, kept.promoted⟩
  · obtain ⟨log, run⟩ := exists_run graph settings calls {}
    rcases run.promotion known with ⟨_, earlier⟩ | ⟨call, listed, promoted⟩
    · cases earlier
    · exact promoted.named.imp_right fun ⟨w, named, reached⟩ => ⟨call, listed, w, named, reached⟩

end

/-- An object without a name in a collection with one, and a union of objects. -/
def rowsGraph : Graph where
  nodes := #[
    { kind := .primitive .string },
    { kind := .object [("x", ⟨0⟩)], label := { name := some "Item" } },
    { kind := .collection .array ⟨3⟩, label := { name := some "Rows" } },
    { kind := .object [("y", ⟨0⟩), ("item", ⟨1⟩)] },
    { kind := .union [⟨1⟩, ⟨3⟩], label := { name := some "Choice" } }]

/-- A union of objects that all have names. -/
def namedGraph : Graph where
  nodes := #[
    { kind := .primitive .string },
    { kind := .object [("x", ⟨0⟩)], label := { name := some "Item" } },
    { kind := .union [⟨1⟩, ⟨0⟩], label := { name := some "Choice" } }]

/-- Each part of the policy where it applies.  The object in the collection is promoted under the
collection's name. -/
theorem rowsGraph_promotion :
    let call : Call := ⟨⟨4⟩, { fallback := "Root", scope := {} }⟩
    let rows : Call := ⟨⟨2⟩, { fallback := "Root", scope := {} }⟩
    (afterCalls rowsGraph { hoisting := .never } [call]).globals.models = [] ∧
    (∀ budget site state typed next,
      typeWithin namedGraph {} budget ⟨2⟩ site state = .ok (some typed) next →
      typed.model = none) ∧
    (∀ budget site state, 0 < site.depth →
      (stateAfter (typeWithin rowsGraph { hoisting := .top } budget ⟨4⟩ site) state).globals.models =
        state.globals.models) ∧
    (afterCalls rowsGraph {} [rows]).globals.globalName ⟨3⟩ = some "Rows" ∧
    ((rowsGraph.label ⟨3⟩).name.isSome = true ∨
      ∃ call ∈ [rows], ∃ w, (rowsGraph.label w).name.isSome = true ∧
        ReachedThrough rowsGraph (call.id, call.position.toSite) w ⟨3⟩) := by
  intro call rows
  have unflagged : ∀ id, (rowsGraph.label id).isGlobal = false :=
    Graph.forall_node (P := fun node => node.label.isGlobal = false) (by decide) rfl
  have named : ∀ id, (namedGraph.kind id).isNominal = true →
      (namedGraph.label id).name.isSome = true :=
    Graph.forall_node (P := fun node => node.kind.isNominal = true → node.label.name.isSome = true)
      (by decide) nofun
  have promoted : (afterCalls rowsGraph {} [rows]).globals.globalName ⟨3⟩ = some "Rows" := by
    decide +kernel
  refine ⟨((promotion_policy rowsGraph { hoisting := .never }).1 rfl unflagged [call]).1, ?_, ?_,
    promoted, (promotion_policy rowsGraph {}).2.2.2 [rows] ⟨3⟩ "Rows" promoted⟩
  · intro budget site state typed next
    exact ((promotion_policy namedGraph {}).2.1 rfl named).1 budget ⟨2⟩ site state typed next
  · intro budget site state deep
    exact ((promotion_policy rowsGraph { hoisting := .top }).2.2.1 rfl unflagged budget ⟨4⟩ site state
      deep).1

end RouterClient.Client
