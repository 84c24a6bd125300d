import RouterClient.Proofs.Client.Rules
import RouterClient.Proofs.Code.Address

/-! # Addresses that a client calls

The classes of a client follow the tree of its procedures: the class of a namespace keeps the
namespace's own name as its segment, and a method the name of its procedure.  So the address that a
method calls is that of its procedure's path, whatever the names in Swift have become.
-/

namespace RouterClient.Client

open Route (Entry Leaf Procedure join segments)
open Code (Method RouteClass Style calledAddress? pathSegments)
open Model (Scope)
open Schema (NodeId Graph)

/-- A method that makes the call which a procedure offers. -/
structure Serves (method : Method) (procedure : Procedure) : Prop where
  kind : method.kind = procedure.kind
  description : method.description = procedure.remark.description

/-- Classes, of which the first is the root, that are named after the segments of a leaf and lead to a
method for its procedure. -/
def LeadsTo (leaves : List Leaf) (chain : List RouteClass) (method : Method) : Prop :=
  ∃ procedure, (pathSegments chain method, procedure) ∈ leaves ∧ Serves method procedure ∧
    ∀ cls ∈ chain.tail, cls.name = spaceName cls.segment

/-- A class draft whose methods and nested classes come from the entries of a namespace. -/
structure DraftOf (entries : List (String × Entry)) (draft : ClassDraft) : Prop where
  methods : ∀ method ∈ draft.methods, ∃ procedure,
    (method.key, Entry.procedure procedure) ∈ entries ∧ Serves method procedure
  children : ∀ child ∈ draft.children, child.name = spaceName child.segment ∧
    ∃ below, (child.segment, Entry.space below) ∈ entries ∧
      ∀ chain method, child.Offers chain method → LeadsTo (Route.Tree.leaves below) chain method

theorem DraftOf.empty (entries : List (String × Entry)) (scope : Scope) :
    DraftOf entries { scope } where
  methods _ listed := by cases listed
  children _ listed := by cases listed

/-- The methods of a finished class are those of leaves of its namespace. -/
theorem DraftOf.offers {entries : List (String × Entry)} {draft : ClassDraft}
    (drafted : DraftOf entries draft) {name segment : String} {chain : List RouteClass}
    {method : Method} (offers : (draft.toClass name segment).Offers chain method) :
    LeadsTo (Route.Tree.leaves entries) chain method := by
  cases offers with
  | own listed =>
      obtain ⟨procedure, member, serves⟩ := drafted.methods method listed
      refine ⟨procedure, Route.Tree.mem_leaves.mpr ?_, serves, by simp⟩
      exact ⟨method.key, _, [], member, rfl, List.mem_singleton.mpr rfl⟩
  | @nested _ child inner _ listed offers =>
      obtain ⟨named, below, member, served⟩ := drafted.children child listed
      obtain ⟨procedure, leaf, serves, others⟩ := served inner method offers
      obtain ⟨more, rfl⟩ := offers.exists_cons
      refine ⟨procedure, Route.Tree.mem_leaves.mpr ?_, serves, ?_⟩
      · exact ⟨child.segment, _, _, member, rfl, leaf⟩
      · exact List.forall_mem_cons.mpr ⟨named, others⟩

section

variable {setting : Setting} {place : Place}

/-- A procedure adds one method, under its own name, or none. -/
theorem Settles.serves {draft grown : ClassDraft} {key : String} {procedure : Procedure}
    {state next : State} {fate : Fate} {noted : List Diagnostic} {method : Method}
    (settled : Settles setting place draft key procedure state fate noted grown next)
    (offered : fate.method? = some method) : method.key = key ∧ Serves method procedure := by
  cases settled with
  | excluded _ | failed _ _ _ _ => cases offered
  | offered _ run _ =>
      cases offered
      obtain ⟨_, _, _, _, _, _, made⟩ := (typeProcedure_ok run).of_ok
      obtain ⟨_, _, method⟩ := typedProcedure_ok made
      rw [method]
      exact ⟨rfl, rfl, rfl⟩

theorem Assembles.draftOf {draft final : ClassDraft} {all entries : List (String × Entry)}
    {state last : State} {log : List Account}
    (assembled : Assembles setting place draft entries state log final last)
    (within : entries ⊆ all) (drafted : DraftOf all draft) : DraftOf all final := by
  induction assembled generalizing all with
  | done => exact drafted
  | @procedure _ _ key procedure _ _ _ _ _ _ _ _ _ settled _ ih =>
      obtain ⟨member, later⟩ := List.cons_subset.mp within
      obtain ⟨methods, children⟩ := settled.members
      refine ih later ⟨?_, children ▸ drafted.children⟩
      intro method listed
      rw [methods] at listed
      rcases List.mem_append.mp listed with listed | single
      · exact drafted.methods method listed
      · obtain ⟨same, serves⟩ := settled.serves (Option.mem_toList.mp single)
        exact ⟨procedure, same.symm ▸ member, serves⟩
  | @space _ _ key entries _ _ _ _ _ _ _ _ _ _ below ih =>
      obtain ⟨member, later⟩ := List.cons_subset.mp within
      have inner := below (List.Subset.refl _) (.empty entries _)
      refine ih later ⟨drafted.methods, ?_⟩
      intro other listed
      rcases List.mem_append.mp listed with listed | single
      · exact drafted.children other listed
      · obtain rfl := List.mem_singleton.mp single
        exact ⟨rfl, entries, member, fun chain method offers => inner.offers offers⟩

end

theorem assemble_offers {settings : Settings} {graph : Graph} {router : String}
    {tree : Route.Tree} {definitions : Table String NodeId} {client : Client}
    (assembled : assemble settings graph router tree definitions = .ok client)
    {chain : List RouteClass} {method : Method} (offers : client.root.Offers chain method) :
    LeadsTo tree.leaves chain method := by
  obtain ⟨start, middle, log, final, last, defined, filled, root, _⟩ := assemble_follows assembled
  obtain ⟨unused, childless⟩ := addDefinitions_members defined
  have drafted := filled.draftOf (List.Subset.refl _) ⟨by simp [unused], by simp [childless]⟩
  rw [root] at offers
  exact drafted.offers offers

/-- The style in which a client is written. -/
def styleOf (settings : Settings) : Style where
  access := settings.access
  shared := settings.createsShared

/-- A method for a procedure: the classes around it are named after the segments of its path, they
and the method are written in the root class, and what they write comes to the path after the base
address. -/
structure Calls (settings : Settings) (client : Client) (path : String) (procedure : Procedure)
    (chain : List RouteClass) (method : Method) : Prop where
  segments : pathSegments chain method = segments path
  serves : Serves method procedure
  named : ∀ cls ∈ chain.tail, cls.name = spaceName cls.segment
  classes : ∀ (i : Nat) (cls : RouteClass), chain[i]? = some cls →
    cls.lines (styleOf settings) i <:+: client.rootLines settings
  written : method.lines (styleOf settings) (chain.length - 1) <:+: client.rootLines settings
  address : ∀ base, calledAddress? (styleOf settings) method 0 base chain =
    some (base ++ "/" ++ path)

/-- A procedure two namespaces deep; the second segment has to be escaped in a literal. -/
def quotedProcedures : Table String Procedure :=
  [("a.\"b.c", { kind := .mutation })]

def quotedTree : Route.Tree :=
  [("a", .space [("\"b", .space [("c", .procedure { kind := .mutation })])])]

def quotedMethod : Method where
  key := "c"
  kind := .mutation
  description := none
  input := none
  output := none

def quotedInner : RouteClass where
  name := spaceName "\"b"
  segment := "\"b"
  models := []
  methods := [quotedMethod]
  children := []

def quotedOuter : RouteClass where
  name := spaceName "a"
  segment := "a"
  models := []
  methods := []
  children := [quotedInner]

def quotedClient : Client where
  root := {
    name := Code.typeName "app", segment := "app", models := [], methods := []
    children := [quotedOuter] }
  globals := {}
  aliases := []
  diagnostics := []

end RouterClient.Client
