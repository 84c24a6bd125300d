import RouterClient.Proofs.Client.Address
import RouterClient.Proofs.Client.Hygiene
import RouterClient.Proofs.Client.Classes
import RouterClient.Proofs.Client.Ledger
import RouterClient.Proofs.Typing.Identifiers
import RouterClient.Proofs.Typing.Names

/-! # Names that clash in a client

A struct leaves a field out when its name is taken, but a class takes in every namespace below it.  So the
names that a class declares are distinct only when those of its namespaces are, and when none of these is
the name of a model or a member that the class has anyway.  A client writes every class and declaration into
its lines, where their names can be read.
-/

namespace RouterClient.Route.Tree

/-- The names of the namespaces directly in a namespace. -/
def spaceKeys (entries : List (String × Entry)) : List String :=
  (spaces entries).map Prod.fst

/-- The namespaces below one that some segments lead to, each with its segments and the names of the
namespaces directly in it. -/
def namespacesBelow (here : List String) : List (String × Entry) → List (List String × List String)
  | [] => []
  | (_, .procedure _) :: more => namespacesBelow here more
  | (key, .space entries) :: more =>
    (here ++ [key], spaceKeys entries) :: namespacesBelow (here ++ [key]) entries ++
      namespacesBelow here more

/-- The root and all namespaces, each with its segments and the names of the namespaces directly in
it. -/
def namespaces (tree : Tree) : List (List String × List String) :=
  ([], spaceKeys tree) :: namespacesBelow [] tree

end RouterClient.Route.Tree

namespace RouterClient.Code.RouteClass

theorem reachedBelow_append (here : List String) (children more : List RouteClass) :
    reachedBelow here (children ++ more) = reachedBelow here children ++ reachedBelow here more := by
  induction children with
  | nil => rfl
  | cons child others ih => simp [reachedBelow, ih]

theorem mem_reachedBelow {here : List String} {children : List RouteClass}
    {item : List String × RouteClass} :
    item ∈ reachedBelow here children ↔
      ∃ child ∈ children, item ∈ child.reached (here ++ [child.segment]) := by
  induction children with
  | nil => simp [reachedBelow]
  | cons child more ih =>
      rw [reachedBelow, List.mem_append, ih]
      simp only [List.mem_cons, exists_eq_or_imp]

/-- What holds of a class and of all classes below it. -/
inductive Everywhere (P : RouteClass → Prop) : RouteClass → Prop where
  | intro {cls} : P cls → (∀ child ∈ cls.children, Everywhere P child) → Everywhere P cls

theorem Everywhere.reached {P : RouteClass → Prop} {cls : RouteClass} (everywhere : Everywhere P cls)
    {here : List String} {item : List String × RouteClass} (listed : item ∈ cls.reached here) :
    P item.2 := by
  induction everywhere generalizing here with
  | intro own _ ih =>
      rw [reached_eq, List.mem_cons, mem_reachedBelow] at listed
      rcases listed with rfl | ⟨child, nested, listed⟩
      · exact own
      · exact ih child nested listed

mutual

/-- The body of a class that is reached, and those of its models, are in the class that it is reached
from. -/
theorem mem_bodies_of_reached {cls : RouteClass} {here : List String}
    {item : List String × RouteClass} (listed : item ∈ cls.reached here) {body : Body}
    (inside : body ∈ item.2.body :: Declaration.modelBodies item.2.models) : body ∈ cls.bodies := by
  obtain ⟨name, segment, models, methods, children⟩ := cls
  rw [reached, List.mem_cons] at listed
  rw [bodies, ← List.cons_append, List.mem_append]
  rcases listed with rfl | listed
  · exact .inl inside
  · exact .inr (mem_childBodies_of_reached listed inside)

theorem mem_childBodies_of_reached {children : List RouteClass} {here : List String}
    {item : List String × RouteClass} (listed : item ∈ reachedBelow here children) {body : Body}
    (inside : body ∈ item.2.body :: Declaration.modelBodies item.2.models) :
    body ∈ childBodies children := by
  cases children with
  | nil => cases listed
  | cons child more =>
      rw [reachedBelow, List.mem_append] at listed
      rw [childBodies, List.mem_append]
      exact listed.imp (mem_bodies_of_reached · inside) (mem_childBodies_of_reached · inside)

end

/-- The segments of the classes nested in a class. -/
def keys (cls : RouteClass) : List String :=
  cls.children.map RouteClass.segment

/-- The classes below one that some segments lead to, each with its segments and those of the classes
nested in it. -/
def outline (here : List String) (children : List RouteClass) : List (List String × List String) :=
  (reachedBelow here children).map fun item => (item.1, item.2.keys)

theorem outline_concat (here : List String) (children : List RouteClass) (child : RouteClass) :
    outline here (children ++ [child]) = outline here children ++
      (here ++ [child.segment], child.keys) :: outline (here ++ [child.segment]) child.children := by
  simp [outline, reachedBelow_append, reachedBelow, reached_eq]

end RouterClient.Code.RouteClass

namespace RouterClient.Client

open Code (Body Declaration IsWorded RouteClass isNameChar memberName nameChars_of_isIdentifier plumbing
  type? typeName typeName_nameChars)
open Model (GlobalModels Scope)
open Route (Entry Tree)
open Schema (Graph NodeId)
open Typing

section

variable {setting : Setting} {place : Place}

/-- A class has a class nested in it for every namespace below it, and so on. -/
theorem Assembles.namespaces {draft final : ClassDraft} {entries : List (String × Entry)}
    {state last : State} {log : List Account}
    (assembled : Assembles setting place draft entries state log final last) (here : List String) :
    final.children.map RouteClass.segment =
        draft.children.map RouteClass.segment ++ Tree.spaceKeys entries ∧
      RouteClass.outline here final.children =
        RouteClass.outline here draft.children ++ Tree.namespacesBelow here entries := by
  induction assembled generalizing here with
  | done => simp [Tree.spaceKeys, Tree.spaces, Tree.namespacesBelow]
  | procedure settled _ ih =>
      have ih := ih here
      rw [settled.members.2] at ih
      simpa [Tree.spaceKeys, Tree.spaces, Tree.namespacesBelow] using ih
  | @space place draft key entries _ _ _ child _ _ _ _ _ _ below ih =>
      obtain ⟨segments, classes⟩ := ih here
      obtain ⟨nested, inner⟩ := below (here ++ [key])
      have children : (draft.nest (child.toClass (spaceName key) key)).children =
          draft.children ++ [child.toClass (spaceName key) key] := rfl
      have keys : (child.toClass (spaceName key) key).keys = Tree.spaceKeys entries := nested
      have named : (child.toClass (spaceName key) key).segment = key := rfl
      have outlined : RouteClass.outline (here ++ [key])
          (child.toClass (spaceName key) key).children =
            Tree.namespacesBelow (here ++ [key]) entries := inner
      rw [children] at segments classes
      constructor
      · simp [segments, named, Tree.spaceKeys, Tree.spaces]
      · rw [classes, RouteClass.outline_concat, keys, named, outlined]
        simp [Tree.namespacesBelow]

/-- A declaration whose properties have distinct names, like those of everything nested in it. -/
def Distinct (declaration : Declaration) : Prop :=
  Throughout (fun inner => inner.propertyNames.Nodup) declaration

/-- Every declaration in a class has distinct properties, and the classes nested in it are called after
their segments. -/
structure NamesKnown (cls : RouteClass) : Prop where
  models : ∀ model ∈ cls.models, Distinct model.definition
  children : ∀ child ∈ cls.children, child.name = spaceName child.segment

/-- The global models have distinct properties throughout. -/
def DistinctGlobals (globals : GlobalModels Declaration) : Prop :=
  ∀ entry ∈ globals.models, Distinct entry.2.definition

/-- A type with a model to be nested that has distinct properties throughout. -/
def DistinctTyped (typed : Typed) : Prop :=
  ∀ model, typed.model = some model → Distinct model.definition

theorem carries_distinct (setting : Setting) :
    Carries setting (fun _ => True) DistinctGlobals (fun _ => True) DistinctTyped where
  input _ := trivial
  output _ := trivial
  fresh := trivial
  typing _ derived kept _ := by
    have makes := derived.makes (P := fun inner => inner.propertyNames.Nodup)
      fun declares => declares.propertyNames_nodup
    refine ⟨fun entry listed => (makes.models entry listed).elim (kept entry) id, trivial, ?_⟩
    exact fun typed outcome model => makes.nested typed model outcome

/-- A class below the root, whose name and names are known. -/
structure KnownBelow (cls : RouteClass) : Prop where
  named : cls.name = spaceName cls.segment
  everywhere : cls.Everywhere NamesKnown

theorem Classed.everywhere {draft : ClassDraft}
    (classed : Classed (fun _ => True) DistinctTyped KnownBelow draft) (name segment : String) :
    (draft.toClass name segment).Everywhere NamesKnown := by
  refine .intro ⟨fun model listed => ?_, fun child listed => (classed.children child listed).named⟩
    fun child listed => (classed.children child listed).everywhere
  obtain ⟨typed, distinct, same⟩ := classed.models model listed
  exact distinct model same

end

/-- What the models of the inputs and outputs of procedures are called after. -/
def OfCall (text : String) : Prop :=
  ∃ key, text = typeName key ++ "Input" ∨ text = typeName key ++ "Output"

/-- The declarations of a client, with everything nested in them. -/
def declarations (client : Client) : List Declaration :=
  client.globals.definitions.flatMap Declaration.everything ++
    (client.root.reached []).flatMap fun item =>
      item.2.models.flatMap fun model => model.definition.everything

section

variable {settings : Settings} {graph : Graph} {router : String} {tree : Route.Tree}
  {definitions : Table String NodeId} {client : Client}

theorem mem_declarations {declaration : Declaration} : declaration ∈ client.declarations ↔
    (∃ outer ∈ client.globals.definitions, declaration ∈ outer.everything) ∨
      ∃ item ∈ client.root.reached [], ∃ model ∈ item.2.models,
        declaration ∈ model.definition.everything := by
  simp only [declarations, List.mem_append, List.mem_flatMap]

/-- What holds throughout the global models and the models of all classes holds of every declaration. -/
theorem forall_declarations {P : Declaration → Prop}
    (globals : ∀ entry ∈ client.globals.models, Throughout P entry.2.definition)
    (classes : ∀ item ∈ client.root.reached [], ∀ model ∈ item.2.models, Throughout P model.definition) :
    ∀ declaration ∈ client.declarations, P declaration := by
  intro declaration listed
  rcases mem_declarations.mp listed with ⟨outer, held, nested⟩ | ⟨item, reached, model, held, nested⟩
  · obtain ⟨model, valued, rfl⟩ := List.mem_map.mp held
    obtain ⟨entry, member, rfl⟩ := List.mem_map.mp valued
    exact globals entry member declaration nested
  · exact classes item reached model held declaration nested

theorem mem_bodies_of_mem_declarations {declaration : Declaration}
    (listed : declaration ∈ client.declarations) : declaration.body ∈ client.bodies := by
  have inside {outer : Declaration} (nested : declaration ∈ outer.everything) :
      declaration.body ∈ outer.bodies := by
    rw [Declaration.bodies_eq]
    exact List.mem_map_of_mem nested
  rw [bodies, List.mem_append]
  rcases mem_declarations.mp listed with ⟨outer, held, nested⟩ | ⟨item, reached, model, held, nested⟩
  · exact .inl (List.mem_flatMap.mpr ⟨outer, held, inside nested⟩)
  · refine .inr (RouteClass.mem_bodies_of_reached reached (List.mem_cons_of_mem _ ?_))
    exact Declaration.mem_modelBodies.mpr ⟨model, held, inside nested⟩

theorem assemble_distinct
    (assembled : assemble settings graph router tree definitions = .ok client) :
    client.root.Everywhere NamesKnown ∧ DistinctGlobals client.globals := by
  obtain ⟨last, run, globals, _⟩ := assemble_run assembled
  obtain ⟨kept, final, classed, root⟩ := assembleRoot_carried (C := KnownBelow) run
    (carries_distinct _) (fun key _ classed => ⟨rfl, classed.everywhere _ key⟩) nofun
  rw [root, globals]
  exact ⟨classed.everywhere _ _, kept⟩

theorem assemble_namespaces
    (assembled : assemble settings graph router tree definitions = .ok client) :
    (client.root.reached []).map (fun item => (item.1, item.2.keys)) = tree.namespaces := by
  obtain ⟨start, middle, log, final, last, defined, filled, root, _⟩ := assemble_follows assembled
  obtain ⟨_, childless⟩ := addDefinitions_members defined
  obtain ⟨segments, classes⟩ := filled.namespaces []
  rw [childless] at segments classes
  have own : (final.toClass (typeName router) router).keys = Tree.spaceKeys tree := segments
  rw [root, RouteClass.reached_eq, List.map_cons, own, Tree.namespaces]
  exact congrArg _ classes

/-! ## What a client writes -/

/-- The models of a class are spelled with titles. -/
def SpelledClass (graph : Graph) (cls : RouteClass) : Prop :=
  ∀ model ∈ cls.models, Spelled graph OfCall model.definition

theorem Classed.spelled {draft : ClassDraft}
    (classed : Classed (spelled graph OfCall).OfScope (spelled graph OfCall).OfTyped
      (RouteClass.Everywhere (SpelledClass graph)) draft)
    (name segment : String) : (draft.toClass name segment).Everywhere (SpelledClass graph) := by
  refine .intro (fun model listed => ?_) classed.children
  obtain ⟨typed, met, same⟩ := classed.models model listed
  exact met.model model same

theorem assemble_spelled
    (assembled : assemble settings graph router tree definitions = .ok client) :
    ∀ declaration ∈ client.declarations, IsSpelled graph OfCall declaration := by
  obtain ⟨last, run, globals, _⟩ := assemble_run assembled
  obtain ⟨kept, final, classed, root⟩ := assembleRoot_carried run
    (carries_of_met (spelled_met graph settings OfCall) (fun key => .fallback ⟨key, .inl rfl⟩)
      fun key => .fallback ⟨key, .inr rfl⟩)
    (fun key _ classed => classed.spelled (spaceName key) key) (.empty _)
  have everywhere := classed.spelled (typeName router) router
  rw [← root] at everywhere
  rw [← globals] at kept
  exact forall_declarations kept.held fun item reached => everywhere.reached reached

/-- The root is called after the router, and the classes below it after their segments. -/
theorem assemble_classNames
    (assembled : assemble settings graph router tree definitions = .ok client) :
    client.root.name = typeName router ∧
      ∀ item ∈ client.root.reached [], item.2.children.map RouteClass.name =
        item.2.keys.map spaceName := by
  obtain ⟨_, _, _, _, _, _, _, root, _⟩ := assemble_follows assembled
  refine ⟨by rw [root]; rfl, fun item reached => ?_⟩
  rw [RouteClass.keys, List.map_map]
  exact List.map_congr_left ((assemble_distinct assembled).1.reached reached).children

theorem everywhere_nameChars {cls : RouteClass} (everywhere : cls.Everywhere NamesKnown)
    (own : ∀ c ∈ cls.name.toList, isNameChar c = true) :
    cls.Everywhere fun cls => ∀ c ∈ cls.name.toList, isNameChar c = true := by
  induction everywhere with
  | intro known _ ih =>
      refine .intro own fun child listed => ih child listed ?_
      rw [known.children child listed]
      exact spaceName_nameChars child.segment

theorem reached_lines {item : List String × RouteClass} (reached : item ∈ client.root.reached []) :
    item.2.lines (styleOf settings) item.1.length <:+: client.rootLines settings := by
  obtain ⟨rest, split, inside⟩ := RouteClass.reached_infix (styleOf settings) 0 [] _ reached
  rw [Nat.zero_add] at inside
  rw [split, List.nil_append]
  exact inside

theorem declaration_lines {declaration : Declaration} (listed : declaration ∈ client.declarations) :
    declaration.lines <:+: client.lines settings := by
  rw [Client.lines]
  rcases mem_declarations.mp listed with ⟨outer, held, nested⟩ | ⟨item, reached, model, held, nested⟩
  · have inside := List.infix_of_mem_flatten
      (List.mem_map_of_mem (f := fun definition : Declaration => definition.lines ++ [""]) held)
    refine ((Declaration.everything_lines nested).trans (List.prefix_append _ [""]).isInfix).trans ?_
    rw [List.flatMap_def, List.append_assoc]
    exact inside.trans (List.prefix_append _ _).isInfix
  · have inside := Declaration.nestedIn_lines (Declaration.mem_nestedIn.mpr ⟨model, held, .head _⟩)
    have written := RouteClass.modelLines_written (styleOf settings) item.1.length item.2
    refine (Declaration.everything_lines nested).trans (inside.trans (written.trans ?_))
    exact (reached_lines reached).trans (List.suffix_append _ _).isInfix

/-- What is nested in a declaration of a client is one of its declarations. -/
theorem models_declared {declaration : Declaration} (listed : declaration ∈ client.declarations)
    {model : Model.LocalModel Declaration} (nested : model ∈ declaration.models) :
    model.definition ∈ client.declarations := by
  rcases mem_declarations.mp listed with ⟨outer, held, inside⟩ | ⟨item, reached, outer, held, inside⟩
  · exact mem_declarations.mpr (.inl ⟨outer, held, Declaration.models_everything inside nested⟩)
  · have further := Declaration.models_everything inside nested
    exact mem_declarations.mpr (.inr ⟨item, reached, outer, held, further⟩)

/-- The classes and the declarations of a client stand in its lines, and the names that they declare can be
read off these. -/
structure Written (settings : Settings) (client : Client) : Prop where
  classes : ∀ item ∈ client.root.reached [],
    item.2.lines (styleOf settings) item.1.length <:+: client.lines settings ∧
    item.2.Written (styleOf settings) item.1.length ∧
    ((item.2.ownLines (styleOf settings) item.1.length).filterMap type?).Perm item.2.typeNames
  declarations : ∀ declaration ∈ client.declarations,
    declaration.lines <:+: client.lines settings ∧ declaration.Written

theorem assemble_written (assembled : assemble settings graph router tree definitions = .ok client) :
    client.Written settings := by
  have spelled := assemble_spelled assembled
  have titled {declaration : Declaration} (listed : declaration ∈ client.declarations) :
      ∀ c ∈ declaration.heading.name.toList, isNameChar c = true :=
    nameChars_of_isIdentifier (spelled declaration listed).titled.admissible.identifier
  obtain ⟨root, children⟩ := assemble_classNames assembled
  constructor
  · intro item reached
    have everywhere := everywhere_nameChars (assemble_distinct assembled).1
      (by rw [root]; exact typeName_nameChars router)
    refine ⟨(reached_lines reached).trans (List.suffix_append _ _).isInfix,
      RouteClass.written_of_nameChars _ _ (everywhere.reached reached), RouteClass.ownLines_types _ _ ?_⟩
    refine List.forall_mem_append.mpr ⟨?_, List.forall_mem_map.mpr fun model held => titled ?_⟩
    · rw [children item reached, List.forall_mem_map]
      exact fun key _ => spaceName_nameChars key
    · exact mem_declarations.mpr (.inr ⟨item, reached, model, held, .head _⟩)
  · intro declaration listed
    refine ⟨declaration_lines listed, Declaration.written_of_nameChars (titled listed) ?_ ?_⟩
    · intro name member
      exact nameChars_of_isIdentifier ((spelled declaration listed).members name member).identifier
    · exact List.forall_mem_map.mpr fun model nested => titled (models_declared listed nested)

/-- The names that a body of a client declares.  Every namespace of the router has its class, and none is
left out for its name.  So the types of a class have distinct names if and only if the names of its
namespaces give distinct names of classes, none of them that of a model in the class, and its properties
do if and only if they give distinct accessors, none of them called like a member that every class has.
In a declaration, at any depth, the properties always have distinct names, and the types do unless a
nested model is called like the enum of the coding keys.  All these names are read off the lines of the
client. -/
theorem names_distinct_iff
    (assembled : assemble settings graph router tree definitions = .ok client) :
    (client.root.reached []).map (fun item => (item.1, item.2.keys)) = tree.namespaces ∧
    (∀ item ∈ client.root.reached [],
      item.2.memberLines (styleOf settings) item.1.length <:+: client.rootLines settings ∧
      (item.2.typeNames.Nodup ↔ (item.2.keys.map spaceName).Nodup ∧
        ∀ key ∈ item.2.keys, spaceName key ∉ Declaration.titles item.2.models) ∧
      ((item.2.propertyNames (styleOf settings) item.1.length).Nodup ↔
        (item.2.keys.map memberName).Nodup ∧
          ∀ key ∈ item.2.keys, memberName key ∉ plumbing (styleOf settings) item.1.length)) ∧
    (∀ declaration ∈ client.declarations,
      declaration.propertyNames.Nodup ∧
      (declaration.typeNames.Nodup ↔ (declaration.writesCodingKeys = true →
        "CodingKeys" ∉ Declaration.titles declaration.models))) ∧
    client.Written settings := by
  have coherent := assemble_coherent assembled
  obtain ⟨everywhere, globals⟩ := assemble_distinct assembled
  obtain ⟨_, children⟩ := assemble_classNames assembled
  refine ⟨assemble_namespaces assembled, fun item listed => ⟨?_, ?_, ?_⟩,
    fun declaration listed => ⟨?_, ?_⟩, assemble_written assembled⟩
  · exact (RouteClass.memberLines_infix _ _ _).trans (reached_lines listed)
  · have body : item.2.body ∈ client.bodies :=
      List.mem_append_right _ (RouteClass.mem_bodies_of_reached listed List.mem_cons_self)
    have titles : (Declaration.titles item.2.models).Nodup := (coherent _ body).titles_nodup
    rw [RouteClass.typeNames, children item listed, List.nodup_append]
    simp only [titles, true_and, List.forall_mem_map]
    grind
  · have names : item.2.accessorNames = item.2.keys.map memberName := by
      rw [RouteClass.accessorNames, RouteClass.keys, List.map_map]
      rfl
    rw [RouteClass.nodup_propertyNames_iff, names, List.forall_mem_map]
  · exact forall_declarations globals (fun item reached => (everywhere.reached reached).models)
      declaration listed
  · exact Declaration.nodup_typeNames_iff
      (coherent _ (mem_bodies_of_mem_declarations listed)).titles_nodup

end

/-- An object with a key that is no name in Swift, in a class with two namespaces. -/
def tidyGraph : Graph where
  nodes := #[{ kind := .primitive .string }, { kind := .object [("first-name", ⟨0⟩)] }]

def tidyTree : Tree :=
  [("user-info", .space [("get", .procedure { kind := .query })]),
    ("find", .procedure { kind := .query, output := some ⟨1⟩ }),
    ("users", .space [])]

theorem tidyTree_names :
    ∃ client, assemble {} tidyGraph "app" tidyTree [] = .ok client ∧
      client.root.typeNames = ["UserInfoRoute", "UsersRoute", "FindOutput"] ∧
      client.root.typeNames.Nodup ∧ (client.root.propertyNames (styleOf {}) 0).Nodup ∧
      ∃ declaration ∈ client.declarations,
        declaration.writesCodingKeys = true ∧ declaration.typeNames.Nodup := by
  have ran : (assemble {} tidyGraph "app" tidyTree []).toOption.any (fun client =>
      client.root.typeNames = ["UserInfoRoute", "UsersRoute", "FindOutput"] ∧
      client.root.keys = ["user-info", "users"] ∧
      Declaration.titles client.root.models = ["FindOutput"] ∧
      client.declarations.any (fun inner => inner.writesCodingKeys && inner.models.isEmpty)) =
        true := by
    simp only [assemble, assembleRoot, tidyTree, addEntries]
    decide +kernel
  obtain ⟨client, assembled, found⟩ := exists_of_passed ran
  obtain ⟨names, keys, titles, coded⟩ := of_decide_eq_true found
  obtain ⟨_, classes, declared, _⟩ := names_distinct_iff assembled
  obtain ⟨_, types, properties⟩ := classes ([], client.root) (by simp [RouteClass.reached_eq])
  obtain ⟨inner, listed, passed⟩ := List.any_eq_true.mp coded
  rw [Bool.and_eq_true, List.isEmpty_iff] at passed
  refine ⟨client, assembled, names, types.mpr ?_, properties.mpr ?_, inner, listed, passed.1,
    (declared inner listed).2.mpr ?_⟩
  · rw [keys, titles]
    decide
  · rw [keys, List.length_nil]
    decide
  · simp [passed.2, Declaration.titles]

/-- Two namespaces that are told apart by the router and not by the names of their classes. -/
def kebabDocument : Document where
  routers := [("app", [("user-info.get", { kind := .query }), ("userInfo.get", { kind := .query })])]

def kebabTree : Tree :=
  [("user-info", .space [("get", .procedure { kind := .query })]),
    ("userInfo", .space [("get", .procedure { kind := .query })])]

/-- Both classes and both accessors are written, and nothing is reported. -/
theorem kebabDocument_clashes :
    ∃ client, ofDocument {} kebabDocument "app" = .ok client ∧
      generate {} kebabDocument "app" "" = .ok (client.generation {} "") ∧
      client.root.typeNames = ["UserInfoRoute", "UserInfoRoute"] ∧
      ¬ client.root.typeNames.Nodup ∧ ¬ (client.root.propertyNames (styleOf {}) 0).Nodup ∧
      client.diagnostics = [] := by
  have built : Tree.ofProcedures [("user-info.get", { kind := .query }),
      ("userInfo.get", { kind := .query })] = .ok kebabTree := rfl
  have ran : (assemble {} kebabDocument.graph "app" kebabTree []).toOption.any (fun client =>
      client.root.typeNames = ["UserInfoRoute", "UserInfoRoute"] ∧
      ¬ (client.root.propertyNames (styleOf {}) 0).Nodup ∧ client.diagnostics = []) = true := by
    simp only [assemble, assembleRoot, kebabTree, addEntries]
    decide +kernel
  obtain ⟨client, assembled, passed⟩ := exists_of_passed ran
  obtain ⟨types, properties, silent⟩ := of_decide_eq_true passed
  have drawn : ofDocument {} kebabDocument "app" = .ok client := by
    have found : kebabDocument.router "app" =
        .ok [("user-info.get", { kind := .query }), ("userInfo.get", { kind := .query })] := rfl
    simp only [ofDocument, found, built, Except.mapError, bind, Except.bind]
    exact assembled
  refine ⟨client, drawn, by simp only [generate, drawn, Except.map], types, ?_, properties, silent⟩
  rw [types]
  decide

end RouterClient.Client
