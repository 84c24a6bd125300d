import RouterClient.Proofs.Client.Names
import RouterClient.Proofs.Typing.Determined
import RouterClient.Proofs.Typing.Identifiers

/-! # Names that a client declares

Whatever the document says, a client declares its types and members under identifiers that Swift does not
reserve.  What is left to the document is whether they can be declared at all: a router, a key or a model
without an ASCII letter or digit in its name comes down to the wildcard, and only the cases of enums and the
classes of namespaces are told apart from it.
-/

namespace RouterClient.Client

open Code (Admissible Declaration IsWorded Method RouteClass Usable memberName reservedMembers
  reservedTypes typeName)
open Schema (Graph NodeId)
open Typing

/-- The names of the types that a client declares: its classes and its models. -/
def typeNames (client : Client) : List String :=
  client.root.name ::
    ((client.root.reached []).flatMap fun item => item.2.children.map RouteClass.name) ++
      client.declarations.map fun declaration => declaration.heading.name

/-- The names of the members that a client declares: accessors and their backing variables, methods,
properties and cases. -/
def memberNames (client : Client) : List String :=
  ((client.root.reached []).flatMap fun item =>
      item.2.accessorNames ++ item.2.keys.map (fun key => "_" ++ memberName key) ++
        item.2.methods.map fun method => memberName method.key) ++
    client.declarations.flatMap Declaration.memberNames

/-- The keys that members of a client are called after: the segments of paths, and the keys of
properties. -/
def memberKeys (client : Client) : List String :=
  ((client.root.reached []).flatMap fun item => item.2.keys ++ item.2.methods.map Method.key) ++
    client.declarations.flatMap Declaration.memberKeys

/-- The names of the models that a client declares, and of those that its unions hold. -/
def titles (client : Client) : List String :=
  client.declarations.flatMap fun declaration => declaration.heading.name :: declaration.memberModels

section

variable {settings : Settings} {graph : Graph} {router : String} {tree : Route.Tree}
  {definitions : Table String NodeId} {client : Client}

theorem OfCall.isWorded {text : String} (called : OfCall text) : IsWorded text := by
  obtain ⟨key, rfl | rfl⟩ := called
  · exact Code.isWorded_append.mpr (.inr (by decide))
  · exact Code.isWorded_append.mpr (.inr (by decide))

theorem forall_typeNames {P : String → Prop}
    (assembled : assemble settings graph router tree definitions = .ok client) :
    (∀ name ∈ client.typeNames, P name) ↔
      P (typeName router) ∧
      (∀ item ∈ client.root.reached [], ∀ key ∈ item.2.keys, P (spaceName key)) ∧
      ∀ declaration ∈ client.declarations, P declaration.heading.name := by
  obtain ⟨root, classes⟩ := assemble_classNames assembled
  rw [typeNames, root, List.cons_append, List.forall_mem_cons, List.forall_mem_append,
    List.forall_mem_flatMap, List.forall_mem_map]
  refine and_congr_right fun _ => and_congr_left fun _ => forall₂_congr fun item reached => ?_
  rw [classes item reached, List.forall_mem_map]

theorem forall_memberNames {P : String → Prop} (backing : ∀ key, P ("_" ++ memberName key)) :
    (∀ name ∈ client.memberNames, P name) ↔
      (∀ item ∈ client.root.reached [], (∀ key ∈ item.2.keys, P (memberName key)) ∧
        ∀ method ∈ item.2.methods, P (memberName method.key)) ∧
      ∀ declaration ∈ client.declarations, ∀ name ∈ declaration.memberNames, P name := by
  simp only [memberNames, RouteClass.accessorNames, RouteClass.keys, List.forall_mem_append,
    List.forall_mem_flatMap, List.forall_mem_map, backing, implies_true, and_true]

theorem typeNames_usable_iff
    (assembled : assemble settings graph router tree definitions = .ok client) :
    (∀ name ∈ client.typeNames, Usable reservedTypes name) ↔
      IsWorded router ∧ ∀ declaration ∈ client.declarations, IsWorded declaration.heading.name := by
  have spaces : ∀ item ∈ client.root.reached [], ∀ key ∈ item.2.keys,
      Usable reservedTypes (spaceName key) :=
    fun _ _ key _ => Code.typeName_route_usable key
  rw [forall_typeNames assembled, Code.typeName_usable_iff, and_iff_right spaces]
  exact and_congr_right fun _ => forall₂_congr fun declaration listed =>
    (assemble_spelled assembled declaration listed).titled.usable_iff

theorem memberNames_usable_iff
    (assembled : assemble settings graph router tree definitions = .ok client) :
    (∀ name ∈ client.memberNames, Usable reservedMembers name) ↔
      (∀ key ∈ client.memberKeys, IsWorded key) ∧
        ∀ declaration ∈ client.declarations, ∀ title ∈ declaration.memberModels, IsWorded title := by
  have members : (∀ declaration ∈ client.declarations, ∀ name ∈ declaration.memberNames,
      Usable reservedMembers name) ↔
        (∀ declaration ∈ client.declarations, ∀ key ∈ declaration.memberKeys, IsWorded key) ∧
          ∀ declaration ∈ client.declarations, ∀ title ∈ declaration.memberModels, IsWorded title :=
    (forall₂_congr fun declaration listed =>
      (assemble_spelled assembled declaration listed).usable_iff).trans forall₂_and
  rw [forall_memberNames Code.backing_usable, members, ← and_assoc]
  simp only [memberKeys, List.forall_mem_append, List.forall_mem_flatMap, List.forall_mem_map,
    Code.memberName_usable_iff]

theorem forall_titles {P : String → Prop} :
    (∀ title ∈ client.titles, P title) ↔
      (∀ declaration ∈ client.declarations, P declaration.heading.name) ∧
        ∀ declaration ∈ client.declarations, ∀ title ∈ declaration.memberModels, P title := by
  simp only [titles, List.forall_mem_flatMap, List.forall_mem_cons, forall₂_and]

/-- Whatever texts typing is called with, it makes the names of models from those, from names that are given
and from what it makes up, and declares models and their members under identifiers that Swift does not
reserve.  So does a client with its classes, accessors and methods, and its lines declare these names.  None
of them is the wildcard, and all of them can be declared, if and only if the router, the keys that members
are called after, and the names of the models that are declared or held by unions have letters or digits.
The names of models do where the names that are given and the keys of the objects do. -/
theorem names_usable_iff (graph : Graph) (settings : Settings) :
    (∀ (fallbacks : String → Prop) id (site : Site) state verdict next, fallbacks site.fallback →
      typeHere graph settings id site state = ending verdict next →
      (spelled graph fallbacks).OfState state →
      (spelled graph fallbacks).OfState next ∧ (spelled graph fallbacks).OfVerdict verdict) ∧
    (∀ fallbacks, (spelled graph fallbacks).OfState {}) ∧
    (∀ fallbacks declaration, IsSpelled graph fallbacks declaration →
      Admissible reservedTypes declaration.heading.name ∧
      (∀ name ∈ declaration.memberNames, Admissible reservedMembers name) ∧
      (Usable reservedTypes declaration.heading.name ↔ IsWorded declaration.heading.name) ∧
      ((∀ name ∈ declaration.memberNames, Usable reservedMembers name) ↔
        (∀ key ∈ declaration.memberKeys, IsWorded key) ∧
          ∀ title ∈ declaration.memberModels, IsWorded title)) ∧
    ∀ router tree definitions client,
      assemble settings graph router tree definitions = .ok client →
      (∀ name ∈ client.typeNames, Admissible reservedTypes name) ∧
      (∀ name ∈ client.memberNames, Admissible reservedMembers name) ∧
      ((∀ name ∈ client.typeNames, Usable reservedTypes name) ∧
          (∀ name ∈ client.memberNames, Usable reservedMembers name) ↔
        IsWorded router ∧ (∀ key ∈ client.memberKeys, IsWorded key) ∧
          ∀ title ∈ client.titles, IsWorded title) ∧
      (∀ title ∈ client.titles, Titled graph OfCall title) ∧
      ((∀ id text, (graph.label id).name = some text → IsWorded text) →
        (∀ id fields, graph.kind id = .object fields → ∀ field ∈ fields, IsWorded field.1) →
        ∀ title ∈ client.titles, IsWorded title) ∧
      client.Written settings := by
  refine ⟨?_, fun _ => .empty _, ?_, ?_⟩
  · intro fallbacks id site state verdict next handed run met
    obtain ⟨events, derived⟩ := typeHere_iff.mp run
    exact derived.upheld_of_supplied (spelled_met graph settings fallbacks) (fun _ => .fallback handed) met
  · intro fallbacks declaration spelled
    exact ⟨spelled.titled.admissible, spelled.members, spelled.titled.usable_iff, spelled.usable_iff⟩
  · intro router tree definitions client assembled
    have spelled := assemble_spelled assembled
    have titled : ∀ title ∈ client.titles, Titled graph OfCall title :=
      forall_titles.mpr ⟨fun declaration listed => (spelled declaration listed).titled,
        fun declaration listed => (spelled declaration listed).held⟩
    refine ⟨?_, ?_, ?_, titled, fun given keys title listed => ?_, assemble_written assembled⟩
    · refine (forall_typeNames assembled).mpr ⟨Code.typeName_admissible router, ?_, ?_⟩
      · exact fun _ _ key _ => (Code.typeName_route_usable key).toAdmissible
      · exact fun declaration listed => (spelled declaration listed).titled.admissible
    · refine (forall_memberNames fun key => (Code.backing_usable key).toAdmissible).mpr ⟨?_, ?_⟩
      · exact fun _ _ => ⟨fun key _ => Code.memberName_admissible key,
          fun method _ => Code.memberName_admissible method.key⟩
      · exact fun declaration listed => (spelled declaration listed).members
    · rw [typeNames_usable_iff assembled, memberNames_usable_iff assembled, forall_titles]
      tauto
    · obtain ⟨text, made, rfl⟩ := titled title listed
      exact Code.isWorded_typeName.mpr (made.isWorded given keys fun _ => OfCall.isWorded)

end

/-- A union of a string and a struct without a name, with a key that is reserved and a value without
letters. -/
def searchGraph : Graph where
  nodes := #[
    { kind := .primitive .string },
    { kind := .enumeration [.string "in progress", .string "!"] },
    { kind := .object [("first-name", ⟨0⟩), ("class", ⟨1⟩)] },
    { kind := .union [⟨0⟩, ⟨2⟩], label := { name := some "search result" } }]

def searchTree : Route.Tree :=
  [("user info", .space [("find", .procedure { kind := .query, output := some ⟨3⟩ })])]

theorem searchTree_usable :
    ∃ client, assemble {} searchGraph "app" searchTree [] = .ok client ∧
      client.typeNames = ["App", "UserInfoRoute", "SearchResult", "Option2", "_Class"] ∧
      client.memberNames = ["userInfo", "_userInfo", "find", "string", "option2", "firstName", "_class",
        "inProgress", "value2"] ∧
      (∀ name ∈ client.typeNames, Usable reservedTypes name) ∧
      (∀ name ∈ client.memberNames, Usable reservedMembers name) ∧
      ∀ title ∈ client.titles, IsWorded title := by
  have ran : (assemble {} searchGraph "app" searchTree []).toOption.any (fun client =>
      client.typeNames = ["App", "UserInfoRoute", "SearchResult", "Option2", "_Class"] ∧
      client.memberNames = ["userInfo", "_userInfo", "find", "string", "option2", "firstName", "_class",
        "inProgress", "value2"] ∧
      client.memberKeys = ["user info", "find", "first-name", "class"]) = true := by
    simp only [assemble, assembleRoot, searchTree, addEntries]
    decide +kernel
  obtain ⟨client, assembled, found⟩ := exists_of_passed ran
  obtain ⟨types, members, keys⟩ := of_decide_eq_true found
  obtain ⟨_, _, _, clients⟩ := names_usable_iff searchGraph {}
  obtain ⟨_, _, usable, _, worded, _⟩ := clients _ _ _ _ assembled
  have given : ∀ id text, (searchGraph.label id).name = some text → IsWorded text := by
    rintro ⟨_ | _ | _ | _ | more⟩ text named
    · cases named
    · cases named
    · cases named
    · cases named
      decide
    · simp [searchGraph, Graph.label, Graph.node, default] at named
  have fields : ∀ id fields, searchGraph.kind id = .object fields → ∀ field ∈ fields, IsWorded field.1 := by
    rintro ⟨_ | _ | _ | _ | more⟩ fields kind
    · cases kind
    · cases kind
    · cases kind
      decide
    · cases kind
    · simp [searchGraph, Graph.kind, Graph.node, default] at kind
  have titles := worded given fields
  have router : IsWorded "app" := by decide
  have segments : ∀ key ∈ client.memberKeys, IsWorded key := by
    rw [keys]
    decide
  obtain ⟨declared, named⟩ := usable.mpr ⟨router, segments, titles⟩
  exact ⟨client, assembled, types, members, declared, named, titles⟩

/-- An object whose only key has neither letters nor digits. -/
def bareGraph : Graph where
  nodes := #[
    { kind := .primitive .string },
    { kind := .object [("!", ⟨0⟩)], label := { name := some "Root" } }]

/-- The struct declares its property as a wildcard. -/
theorem bareGraph_wildcard :
    ∃ client, assemble {} bareGraph "app"
        [("get", .procedure { kind := .query, output := some ⟨1⟩ })] [] = .ok client ∧
      client.memberNames = ["get", "_"] ∧ ¬ (∀ name ∈ client.memberNames, Usable reservedMembers name) ∧
      client.diagnostics = [] := by
  have ran : (assemble {} bareGraph "app"
      [("get", .procedure { kind := .query, output := some ⟨1⟩ })] []).toOption.any (fun client =>
        client.memberNames = ["get", "_"] ∧ client.diagnostics = []) = true := by
    simp only [assemble, assembleRoot, addEntries]
    decide +kernel
  obtain ⟨client, assembled, found⟩ := exists_of_passed ran
  obtain ⟨members, silent⟩ := of_decide_eq_true found
  refine ⟨client, assembled, members, fun usable => ?_, silent⟩
  exact (usable "_" (by rw [members]; decide)).named rfl

end RouterClient.Client
