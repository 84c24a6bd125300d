import RouterClient.Proofs.Document.Routers

/-! # Lowered documents say what was written

Every schema of a written document has a place: a root, which is a definition or a procedure, and the
steps from there through schemas in place.  The nodes of a lowered document and the schemas in place of
the written one are the same in number, and each node says what the schema at its place says.
-/

namespace RouterClient

open Schema (NodeId Graph)
open Lowering (Leads bodyKeys)

/-- Where schemas are written that no other schema is around. -/
inductive Root where
  | definition (key : String)
  | procedure (router path : String)
  deriving DecidableEq

/-- A root and some steps from there, each the number of a part. -/
structure Place where
  root : Root
  steps : List Nat
  deriving DecidableEq

/-- The place of a part of the schema that is at a place. -/
def Place.inside (place : Place) (i : Nat) : Place :=
  { place with steps := place.steps ++ [i] }

namespace Written.Document

def procedure? (written : Written.Document) (router path : String) : Option Written.Procedure :=
  (written.routers.get? router).bind fun router => router.procedures.get? path

/-- The schemas at a root. -/
def parts? (written : Written.Document) : Root → Option (List Schema)
  | .definition key => (written.schemas.get? key).map fun schema => [schema]
  | .procedure router path => (written.procedure? router path).map Procedure.parts

/-- A schema in place is at a place of the document. -/
def Stands (written : Written.Document) (place : Place) (schema : Schema) : Prop :=
  ∃ parts, written.parts? place.root = some parts ∧ InPlace parts place.steps schema

section

variable {written : Written.Document} {steps : List Nat} {schema : Schema}

theorem stands_definition {key : String} (distinct : written.Distinct) :
    written.Stands ⟨.definition key, steps⟩ schema ↔
      ∃ body, (key, body) ∈ written.schemas ∧ InPlace [body] steps schema := by
  constructor
  · rintro ⟨parts, found, stands⟩
    obtain ⟨body, here, rfl⟩ := Option.map_eq_some_iff.mp found
    exact ⟨body, Table.mem_of_get? here, stands⟩
  · rintro ⟨body, member, stands⟩
    refine ⟨[body], ?_, stands⟩
    simp [parts?, Table.get?_of_mem distinct.schemas member]

theorem stands_procedure {name path : String} (distinct : written.Distinct) :
    written.Stands ⟨.procedure name path, steps⟩ schema ↔
      ∃ router procedure, (name, router) ∈ written.routers ∧ (path, procedure) ∈ router.procedures ∧
        InPlace procedure.parts steps schema := by
  constructor
  · rintro ⟨parts, found, stands⟩
    obtain ⟨procedure, here, rfl⟩ := Option.map_eq_some_iff.mp found
    obtain ⟨router, outer, inner⟩ := Option.bind_eq_some_iff.mp here
    exact ⟨router, procedure, Table.mem_of_get? outer, Table.mem_of_get? inner, stands⟩
  · rintro ⟨router, procedure, member, member', stands⟩
    refine ⟨procedure.parts, ?_, stands⟩
    have found := Table.get?_of_mem distinct.routers member
    have found' := Table.get?_of_mem (distinct.procedures _ _ member) member'
    simp [parts?, procedure?, found, found']

end

end Written.Document

namespace Document

def procedure? (document : Document) (router path : String) : Option Route.Procedure :=
  (document.routers.get? router).bind fun procedures => procedures.get? path

/-- The nodes of the schemas at a root. -/
def nodes? (document : Document) : Root → Option (List NodeId)
  | .definition key => (document.definitions.get? key).map fun id => [id]
  | .procedure router path => (document.procedure? router path).map Route.Procedure.nodes

/-- The node of the schema in place at a place. -/
def node? (document : Document) (place : Place) : Option NodeId :=
  (document.nodes? place.root).bind fun ids => document.graph.below? ids place.steps

/-- The node of a schema at a place, which may be a reference. -/
def resolve? (document : Document) (place : Place) (schema : Written.Schema) : Option NodeId :=
  schema.reference.elim (document.node? place) document.definitions.get?

/-- All the positions that a document stores. -/
def stored (document : Document) : List NodeId :=
  (List.range document.graph.size).flatMap (fun n => (document.graph.kind ⟨n⟩).children) ++
    document.definitions.values ++
    document.routers.values.flatMap fun procedures =>
      procedures.values.flatMap Route.Procedure.nodes

end Document

/-- A document is what was written. -/
structure Document.Faithful (written : Written.Document) (document : Document) : Prop where
  /-- No stored position is outside the graph. -/
  bounded : ∀ id ∈ document.stored, id.index < document.graph.size
  keys : document.definitions.keys = written.schemas.keys
  /-- The routers have their procedures, in order. -/
  paths : document.routers.map (fun entry => (entry.1, entry.2.keys)) =
    written.routers.map fun entry => (entry.1, entry.2.procedures.keys)
  procedures : ∀ router path, Option.Rel Route.Procedure.Agrees
    (written.procedure? router path) (document.procedure? router path)
  /-- Every definition leads to one that has a body, and has the node of that one. -/
  aliases : ∀ key ∈ written.schemas.keys, ∃ target, Leads written.schemas key target ∧
    ∃ id, document.definitions.get? key = some id ∧ document.definitions.get? target = some id
  /-- The schemas at a root have their nodes. -/
  roots : ∀ root parts, written.parts? root = some parts → ∃ ids, document.nodes? root = some ids ∧
    ids.length = parts.length ∧
    ∀ (i : Nat) part, parts[i]? = some part → ids[i]? = document.resolve? ⟨root, [i]⟩ part
  /-- Every schema in place has one node, and every node is that of one schema in place. -/
  places : ∃ places : List Place, places.Nodup ∧
    (∀ place, place ∈ places ↔ ∃ schema, written.Stands place schema) ∧
    places.map document.node? = (List.range document.graph.size).map fun n => some ⟨n⟩
  /-- A node says what its schema says, and the nodes below it are those of the schemas inside. -/
  nodes : ∀ place schema, written.Stands place schema → ∃ id, document.node? place = some id ∧
    document.graph.label id = schema.label ∧
    schema.kindOver? (document.graph.kind id).children = some (document.graph.kind id) ∧
    (document.graph.kind id).children.length = schema.parts.length ∧
    ∀ (i : Nat) part, schema.parts[i]? = some part →
      (document.graph.kind id).children[i]? = document.resolve? (place.inside i) part

namespace Lowering

/-- How the nodes of a document are laid out: the bodies of the definitions, then the schemas inside
them, then those of the procedures. -/
structure Arranged (written : Written.Document) (document : Document) (middle : Nat) : Prop where
  numbers : Numbers written.schemas document.definitions
  filled : Filled document.definitions document.graph written.schemas (bodyKeys written.schemas).length
    middle
  routed : Chained (RouterLaid document.definitions document.graph) written.routers middle
    document.routers document.graph.size

section

variable {written : Written.Document} {document : Document} {origin : String}

theorem size_reserved (schemas : Table String Written.Schema) :
    (reserved schemas).size = (bodyKeys schemas).length := by
  simp [reserved, Schema.Graph.size]

theorem document_ok (distinct : written.Distinct)
    (run : Lowering.document origin written = .ok document) :
    ∃ middle, Arranged written document middle := by
  obtain ⟨definitions, defined, later⟩ := Json.Decode.bind_ok run
  obtain ⟨⟨routers, graph⟩, lowered, ended⟩ := Json.Decode.bind_ok later
  cases ended
  obtain ⟨_, between, first, rest⟩ := lower_bind_ok lowered
  have numbers := numbers defined
  have inside : ∀ id ∈ stretch 0 (bodyKeys written.schemas).length,
      id.index < (reserved written.schemas).size := by
    intro id member
    rw [size_reserved]
    exact (mem_stretch.mp member).2
  have fills := fillBodies_ok (numbers.bodies distinct.schemas) (nodup_stretch _ _) inside first
  obtain ⟨grows, routed⟩ := routers_ok rest
  have below : ∀ key id, definitions.get? key = some id → id.index < between.size := by
    intro key id found
    exact (numbers.below found).trans_le (size_reserved written.schemas ▸ fills.size)
  have filled := fills.filled.keeps grows below (Nat.le_refl _)
  rw [size_reserved] at filled
  exact ⟨_, numbers, filled, routed⟩

namespace Arranged

variable {middle : Nat}

theorem le (arranged : Arranged written document middle) : middle ≤ document.graph.size :=
  (stable_router document.definitions).chained_le arranged.routed

theorem defined (arranged : Arranged written document middle) {key : String} {id : NodeId}
    (found : document.definitions.get? key = some id) : id.index < document.graph.size :=
  (arranged.numbers.below found).trans_le (arranged.filled.le.trans arranged.le)

/-- A procedure has the nodes of the written one. -/
theorem procedure (arranged : Arranged written document middle) (router path : String) :
    Option.Rel (fun written procedure => ∃ low high,
      ProcedureLaid document.definitions document.graph written low procedure high)
      (written.procedure? router path) (document.procedure? router path) := by
  have found := arranged.routed.paired.get? router
  rw [Written.Document.procedure?, Document.procedure?]
  generalize written.routers.get? router = expected, document.routers.get? router = actual at found ⊢
  cases found with
  | none => exact .none
  | some chained =>
      obtain ⟨_, _, chained⟩ := chained
      exact chained.paired.get? path

/-- An alias has the node of the definition that it refers to. -/
theorem alias_eq (arranged : Arranged written document middle) {key next : String}
    {schema : Written.Schema} (found : written.schemas.get? key = some schema)
    (referred : schema.reference = some next) :
    document.definitions.get? key = document.definitions.get? next := by
  have member : key ∈ written.schemas.keys :=
    List.mem_map.mpr ⟨(key, schema), Table.mem_of_get? found, rfl⟩
  obtain ⟨target, leads⟩ := arranged.numbers.ends key member
  cases leads with
  | body found' bare =>
      obtain rfl := Option.some.inj (found.symm.trans found')
      simp [bare] at referred
  | onward found' referred' more =>
      obtain rfl := Option.some.inj (found.symm.trans found')
      obtain rfl := Option.some.inj (referred.symm.trans referred')
      rw [arranged.numbers.lead _ _ (.onward found referred more), arranged.numbers.lead _ _ more]

theorem carries_definition (arranged : Arranged written document middle) {key : String}
    {schema : Written.Schema} (found : written.schemas.get? key = some schema) :
    ∃ id, document.definitions.get? key = some id ∧
      Carries document.definitions document.graph [schema] [id] := by
  have member := Table.mem_of_get? found
  cases referred : schema.reference with
  | some next =>
      obtain ⟨target, leads⟩ :=
        arranged.numbers.ends key (List.mem_map.mpr ⟨(key, schema), member, rfl⟩)
      have defined := arranged.numbers.lead _ _ leads
      have same := arranged.alias_eq found referred
      exact ⟨_, defined, .reference referred (same.symm.trans defined)⟩
  | none =>
      obtain ⟨id, children, low, high, defined, laid, kind, label⟩ :=
        arranged.filled.body_of_mem member referred
      exact ⟨id, defined, .body referred laid kind label⟩

/-- The nodes at a root are those of the schemas there. -/
theorem carries (arranged : Arranged written document middle) {root : Root}
    {parts : List Written.Schema} (found : written.parts? root = some parts) :
    ∃ ids, document.nodes? root = some ids ∧
      Carries document.definitions document.graph parts ids := by
  cases root with
  | definition key =>
      obtain ⟨schema, found', rfl⟩ := Option.map_eq_some_iff.mp found
      obtain ⟨id, defined, carries⟩ := arranged.carries_definition found'
      exact ⟨[id], by simp [Document.nodes?, defined], carries⟩
  | procedure router path =>
      obtain ⟨expected, found', rfl⟩ := Option.map_eq_some_iff.mp found
      have pair := arranged.procedure router path
      rw [found'] at pair
      cases actual : document.procedure? router path with
      | none => simp [actual] at pair
      | some procedure =>
          rw [actual, Option.rel_some_some] at pair
          obtain ⟨_, _, laid⟩ := pair
          exact ⟨procedure.nodes, by simp [Document.nodes?, actual], laid.laid.carries⟩

/-- The bodies of the definitions have the first nodes. -/
theorem enumerates_bodies (arranged : Arranged written document middle) (distinct : written.Distinct) :
    Enumerates (fun place => ∃ key ∈ bodyKeys written.schemas, (⟨.definition key, [0]⟩ : Place) = place)
      document.node? 0 (bodyKeys written.schemas).length := by
  refine ⟨Nat.zero_le _, (bodyKeys written.schemas).map fun key => ⟨.definition key, [0]⟩, ?_, ?_⟩
  · simp
  · rw [← arranged.numbers.bodies distinct.schemas, List.map_map]
    refine List.map_congr_left fun key _ => ?_
    simp only [Function.comp_apply, Document.node?, Document.nodes?]
    cases document.definitions.get? key <;> rfl

end Arranged

/-- The schemas inside the bodies of definitions have the nodes after them. -/
theorem Filled.enumerates {schemas : Table String Written.Schema} {low high : Nat}
    (filled : Filled document.definitions document.graph schemas low high) :
    Enumerates (fun place => ∃ key schema, (key, schema) ∈ schemas ∧ schema.reference = none ∧
      ∃ rest, (∃ inner, Written.InPlace schema.parts rest inner) ∧
        (⟨.definition key, 0 :: rest⟩ : Place) = place) document.node? low high := by
  induction filled with
  | nil => exact .empty (by simp)
  | reference referred _ ih =>
      refine ih.congr fun place => ?_
      constructor
      · rintro ⟨key, schema, member, stands⟩
        exact ⟨key, schema, List.mem_cons_of_mem _ member, stands⟩
      · rintro ⟨key, schema, member, bare, stands⟩
        cases member with
        | head => simp [bare] at referred
        | tail _ member => exact ⟨key, schema, member, bare, stands⟩
  | @body key schema more id children low middle high bare found laid kind label rest ih =>
      obtain ⟨_, below⟩ := laid.describes kind label
      have same : ∀ rest, (∃ inner, Written.InPlace schema.parts rest inner) →
          document.node? ⟨.definition key, 0 :: rest⟩ = document.graph.below? children rest := by
        rintro rest ⟨_, stands⟩
        simp only [Document.node?, Document.nodes?, found, Option.map_some, Option.bind_some]
        rw [below?_inside stands.ne_nil, below]
      have own := laid.enumerates.through (fun rest => (⟨.definition key, 0 :: rest⟩ : Place)) same
      refine (own.append ih).congr fun place => ?_
      constructor
      · rintro (stands | ⟨key, schema, member, stands⟩)
        · exact ⟨key, schema, List.mem_cons_self .., bare, stands⟩
        · exact ⟨key, schema, List.mem_cons_of_mem _ member, stands⟩
      · rintro ⟨key, schema, member, bare, stands⟩
        cases member with
        | head => exact .inl stands
        | tail _ member => exact .inr ⟨key, schema, member, bare, stands⟩

namespace Arranged

variable {middle : Nat}

/-- The schemas of procedures have the last nodes. -/
theorem enumerates_procedures (arranged : Arranged written document middle)
    (distinct : written.Distinct) :
    Enumerates (fun place => ∃ name router, (name, router) ∈ written.routers ∧
      ∃ path procedure, (path, procedure) ∈ router.procedures ∧
        ∃ steps, (∃ inner, Written.InPlace procedure.parts steps inner) ∧
          (⟨.procedure name path, steps⟩ : Place) = place) document.node? middle document.graph.size := by
  refine arranged.routed.enumerates fun {name router procedures low high} member member' chained => ?_
  refine chained.enumerates fun {path written procedure low high} inside inside' laid => ?_
  refine laid.laid.enumerates.through (fun steps => (⟨.procedure name path, steps⟩ : Place))
    fun steps _ => ?_
  have names := arranged.routed.paired.keys_eq
  have found := Table.get?_of_mem (names ▸ distinct.routers) member'
  have found' := Table.get?_of_mem
    (chained.paired.keys_eq ▸ distinct.procedures _ _ member) inside'
  simp [Document.node?, Document.nodes?, Document.procedure?, found, found']

/-- The nodes are those of the schemas in place, one by one. -/
theorem enumerates (arranged : Arranged written document middle) (distinct : written.Distinct) :
    Enumerates (fun place => ∃ schema, written.Stands place schema) document.node?
      0 document.graph.size := by
  refine (((arranged.enumerates_bodies distinct).append arranged.filled.enumerates).append
    (arranged.enumerates_procedures distinct)).congr fun place => ?_
  constructor
  · rintro ((⟨key, member, rfl⟩ | ⟨key, body, member, bare, rest, ⟨inner, stands⟩, rfl⟩) |
      ⟨name, router, member, path, procedure, member', steps, ⟨inner, stands⟩, rfl⟩)
    · obtain ⟨body, member, bare⟩ := mem_bodyKeys.mp member
      exact ⟨body, (Written.Document.stands_definition distinct).mpr ⟨body, member, .part rfl bare⟩⟩
    · exact ⟨inner,
        (Written.Document.stands_definition distinct).mpr ⟨body, member, .inside rfl bare stands⟩⟩
    · exact ⟨inner, (Written.Document.stands_procedure distinct).mpr
        ⟨router, procedure, member, member', stands⟩⟩
  · rintro ⟨schema, stands⟩
    obtain ⟨root, steps⟩ := place
    cases root with
    | definition key =>
        obtain ⟨body, member, stands⟩ := (Written.Document.stands_definition distinct).mp stands
        obtain ⟨bare, ⟨rfl, rfl⟩ | ⟨rest, rfl, deeper⟩⟩ := Written.inPlace_singleton.mp stands
        · exact .inl (.inl ⟨key, mem_bodyKeys.mpr ⟨_, member, bare⟩, rfl⟩)
        · exact .inl (.inr ⟨key, body, member, bare, rest, ⟨schema, deeper⟩, rfl⟩)
    | procedure name path =>
        obtain ⟨router, procedure, member, member', stands⟩ :=
          (Written.Document.stands_procedure distinct).mp stands
        exact .inr ⟨name, router, member, path, procedure, member', steps, ⟨schema, stands⟩, rfl⟩

/-- A schema at a root has the node that its reference or its place has. -/
theorem resolve?_root (arranged : Arranged written document middle) {root : Root}
    {parts : List Written.Schema} (found : written.parts? root = some parts) :
    ∃ ids, document.nodes? root = some ids ∧ ids.length = parts.length ∧
      ∀ (i : Nat) part, parts[i]? = some part → ids[i]? = document.resolve? ⟨root, [i]⟩ part := by
  obtain ⟨ids, found', carries⟩ := arranged.carries found
  refine ⟨ids, found', carries.complete, ?_⟩
  intro i part stands
  rw [Document.resolve?]
  cases referred : part.reference with
  | none => simp [Document.node?, found', Schema.Graph.below?]
  | some key => exact carries.references i part key stands referred

/-- A node is what the schema at its place says. -/
theorem node_at (arranged : Arranged written document middle) {place : Place}
    {schema : Written.Schema} (stands : written.Stands place schema) :
    ∃ id, document.node? place = some id ∧
      document.graph.label id = schema.label ∧
      schema.kindOver? (document.graph.kind id).children = some (document.graph.kind id) ∧
      (document.graph.kind id).children.length = schema.parts.length ∧
      ∀ (i : Nat) part, schema.parts[i]? = some part →
        (document.graph.kind id).children[i]? = document.resolve? (place.inside i) part := by
  obtain ⟨parts, found, stands⟩ := stands
  obtain ⟨ids, found', carries⟩ := arranged.carries found
  obtain ⟨id, reached, describes⟩ := carries.described _ _ stands
  refine ⟨id, by simp [Document.node?, found', reached], describes.label, describes.kind,
    describes.complete, ?_⟩
  intro i part inside
  rw [Document.resolve?]
  cases referred : part.reference with
  | none =>
      simp only [Option.elim_none, Document.node?, Place.inside, found', Option.bind_some]
      exact (below?_concat reached i).symm
  | some key => exact describes.references i part key inside referred

/-- A node below a node is in the graph. -/
theorem child_below (arranged : Arranged written document middle) (distinct : written.Distinct)
    {n : Nat} (inside : n < document.graph.size) {id : NodeId}
    (member : id ∈ (document.graph.kind ⟨n⟩).children) : id.index < document.graph.size := by
  have enumerates := arranged.enumerates distinct
  obtain ⟨place, ⟨schema, stands⟩, found⟩ := enumerates.reached (Nat.zero_le _) inside
  obtain ⟨_, found', _, _, complete, children⟩ := arranged.node_at stands
  obtain rfl := Option.some.inj (found.symm.trans found')
  obtain ⟨i, within, here⟩ := List.getElem_of_mem member
  obtain ⟨chosen, part⟩ : ∃ chosen, schema.parts[i]? = some chosen :=
    ⟨_, List.getElem?_eq_getElem (complete ▸ within)⟩
  have resolved := children i chosen part
  rw [List.getElem?_eq_getElem within, here, Document.resolve?] at resolved
  cases referred : chosen.reference with
  | some key =>
      rw [referred] at resolved
      exact arranged.defined resolved.symm
  | none =>
      rw [referred] at resolved
      obtain ⟨parts, found, stands⟩ := stands
      have deeper : written.Stands (place.inside i) chosen :=
        ⟨parts, found, stands.concat part referred⟩
      obtain ⟨_, found', within⟩ := enumerates.within ⟨chosen, deeper⟩
      obtain rfl := Option.some.inj (resolved.trans found')
      exact within

theorem bounded (arranged : Arranged written document middle) (distinct : written.Distinct) :
    ∀ id ∈ document.stored, id.index < document.graph.size := by
  intro id member
  simp only [Document.stored, List.mem_append, List.mem_flatMap, List.mem_range, Table.values,
    List.mem_map] at member
  rcases member with (⟨n, inside, member⟩ | ⟨⟨key, _⟩, member, rfl⟩) |
    ⟨_, ⟨⟨name, procedures⟩, member, rfl⟩, _, ⟨⟨path, procedure⟩, member', rfl⟩, listed⟩
  · exact arranged.child_below distinct inside member
  · have nodup : document.definitions.keys.Nodup := arranged.numbers.keys ▸ distinct.schemas
    exact arranged.defined (Table.get?_of_mem nodup member)
  · obtain ⟨router, _, stop, chained, within⟩ :=
      (stable_router document.definitions).of_mem arranged.routed member
    obtain ⟨_, _, _, laid, within'⟩ :=
      (stable_procedure document.definitions).of_mem chained member'
    exact laid.laid.bounded (fun _ _ => arranged.defined) (within'.trans within) id listed

/-- The routers have the procedures that are written. -/
theorem paths_eq (arranged : Arranged written document middle) :
    document.routers.map (fun entry => (entry.1, entry.2.keys)) =
      written.routers.map fun entry => (entry.1, entry.2.procedures.keys) :=
  arranged.routed.paired.map_eq fun ⟨_, _, chained⟩ => chained.paired.keys_eq

theorem agrees (arranged : Arranged written document middle) (router path : String) :
    Option.Rel Route.Procedure.Agrees (written.procedure? router path)
      (document.procedure? router path) := by
  have pair := arranged.procedure router path
  generalize written.procedure? router path = expected, document.procedure? router path = actual at pair ⊢
  cases pair with
  | none => exact .none
  | some laid =>
      obtain ⟨_, _, laid⟩ := laid
      exact .some laid.agrees

theorem faithful (arranged : Arranged written document middle) (distinct : written.Distinct) :
    Document.Faithful written document where
  bounded := arranged.bounded distinct
  keys := arranged.numbers.keys
  paths := arranged.paths_eq
  procedures := arranged.agrees
  aliases key member := by
    obtain ⟨target, leads⟩ := arranged.numbers.ends key member
    exact ⟨target, leads, _, arranged.numbers.lead _ _ leads, arranged.numbers.lead _ _ leads.ending⟩
  roots _ _ := arranged.resolve?_root
  places := by
    obtain ⟨places, complete, laid⟩ := (arranged.enumerates distinct).places
    refine ⟨places, ?_, complete, ?_⟩
    · refine List.Nodup.of_map document.node? ?_
      rw [laid]
      exact (nodup_stretch _ _).map fun _ _ => Option.some.inj
    · rw [laid, stretch, List.map_map, List.range_eq_range']
      rfl
  nodes _ _ := arranged.node_at

end Arranged

end

end Lowering

/-- Lowering keeps what a document says, and which of its schemas are the same.  No position that was
kept for a body is left unfilled: each is that of one schema in place, and says what that schema says. -/
theorem Document.lowering_faithful {form : Json.Form} {levels : Nat} {tree : Json.Tree}
    {written : Written.Document} {origin : String} {document : Document}
    (read : Written.Document.decode form levels tree = .ok written)
    (lowered : Lowering.document origin written = .ok document) : Faithful written document := by
  have distinct := Written.Document.decode_distinct read
  obtain ⟨_, arranged⟩ := Lowering.document_ok distinct lowered
  exact arranged.faithful distinct

open Json.Value in
/-- A document whose tree refers to itself and, through two aliases, to a definition after it. -/
def Json.Value.linked : Json.Value := object
  [ ("schemas", object
      [ ("Tree", object
          [ ("type", string "object"), ("name", string "Tree"),
            ("shape", object
              [ ("left", object
                  [("type", string "optional"), ("inner", object [("$ref", string "Tree")])]),
                ("text", object [("$ref", string "Text")]) ]) ]),
        ("Text", object [("$ref", string "Line")]),
        ("Line", object [("$ref", string "Plain")]),
        ("Plain", object [("type", string "string")]) ]),
    ("routers", object
      [ ("app", object [("procedures", object
          [ ("trees", object
              [ ("kind", string "query"),
                ("output", object
                  [("type", string "array"), ("element", object [("$ref", string "Tree")])]) ]) ])]) ]) ]

def Written.Document.linked : Written.Document where
  schemas :=
    [ ("Tree", {
        typeName := some "object"
        name := some "Tree"
        shape := some (
          [ ("left", { typeName := some "optional", inner := some { reference := some "Tree" } }),
            ("text", { reference := some "Text" }) ] : List (String × Schema)) }),
      ("Text", { reference := some "Line" }),
      ("Line", { reference := some "Plain" }),
      ("Plain", { typeName := some "string" }) ]
  routers :=
    [ ("app", {
        procedures :=
          [ ("trees", {
              output := some
                { typeName := some "array", element := some { reference := some "Tree" } } }) ] }) ]

def Document.linked : Document where
  graph := ⟨#[
    { kind := .object [("left", ⟨2⟩), ("text", ⟨1⟩)], label := { name := some "Tree" } },
    { kind := .primitive .string },
    { kind := .optional ⟨0⟩ },
    { kind := .collection .array ⟨0⟩ }]⟩
  definitions := [("Tree", ⟨0⟩), ("Text", ⟨1⟩), ("Line", ⟨1⟩), ("Plain", ⟨1⟩)]
  routers := [("app", [("trees", { kind := .query, output := some ⟨3⟩ })])]

theorem Document.linked_faithful :
    Json.Decode.ofValue Written.Document.decode .linked = .ok .linked ∧
      Lowering.document "<value>" .linked = .ok .linked ∧ Faithful .linked .linked := by
  have read : Json.Decode.ofValue Written.Document.decode .linked = .ok .linked := rfl
  have lowered : Lowering.document "<value>" .linked = .ok .linked := rfl
  exact ⟨read, lowered, lowering_faithful read lowered⟩

end RouterClient
