import RouterClient.Proofs.Document.Occurrences

/-! # How lowering lays schemas out

A step of lowering keeps the graph that it finds and puts nodes after it.  The nodes that it puts there
are those of the schemas in place that it has come to, so every step takes one stretch of positions.
-/

namespace RouterClient.Lowering

open Json (Path)
open Schema (Kind Label Literal NodeId Node Graph)

/-- The graph with more nodes after it. -/
structure Extends (graph grown : Graph) : Prop where
  size : graph.size ≤ grown.size
  node : ∀ n, n < graph.size → grown.node ⟨n⟩ = graph.node ⟨n⟩

namespace Extends

variable {graph middle grown : Graph}

theorem refl (graph : Graph) : Extends graph graph :=
  ⟨Nat.le_refl _, fun _ _ => rfl⟩

theorem trans (first : Extends graph middle) (second : Extends middle grown) :
    Extends graph grown where
  size := first.size.trans second.size
  node n inside := (second.node n (inside.trans_le first.size)).trans (first.node n inside)

theorem add (graph : Graph) (node : Node) : Extends graph (graph.add node).2 where
  size := by simp
  node n inside := by
    have different : n ≠ graph.nodes.size := Nat.ne_of_lt inside
    have below : n < graph.nodes.size := inside
    simp [Schema.Graph.add, Schema.Graph.node, Array.getD_eq_getD_getElem?, Array.getElem?_push,
      different]

end Extends

theorem node_add (graph : Graph) (node : Node) : (graph.add node).2.node ⟨graph.size⟩ = node := by
  simp [Schema.Graph.add, Schema.Graph.node, Schema.Graph.size]

theorem lower_bind_ok {α β : Type} {step : LowerM α} {more : α → LowerM β} {graph last : Graph}
    {result : β} (run : (step >>= more) graph = .ok (result, last)) :
    ∃ between next, step graph = .ok (between, next) ∧ more between next = .ok (result, last) := by
  cases first : step graph with
  | error failure => simp [bind, StateT.bind, Except.bind, first] at run
  | ok pair =>
      obtain ⟨between, next⟩ := pair
      refine ⟨between, next, rfl, ?_⟩
      simpa [bind, StateT.bind, Except.bind, first] using run

theorem map_ok {α β : Type} {step : LowerM α} {f : α → β} {graph last : Graph} {result : β}
    (run : (f <$> step) graph = .ok (result, last)) :
    ∃ between, step graph = .ok (between, last) ∧ f between = result := by
  rw [map_eq_pure_bind] at run
  obtain ⟨between, next, first, rest⟩ := lower_bind_ok run
  cases rest
  exact ⟨between, first, rfl⟩

section

variable {setting : Setting} {here : Path} {graph grown : Graph}

theorem needed_ok {α : Type} {name : String} {value? : Option α} {value : α}
    (run : needed setting here name value? graph = .ok (value, grown)) :
    value? = some value ∧ grown = graph := by
  cases value? with
  | none => cases run
  | some found =>
      cases run
      exact ⟨rfl, rfl⟩

theorem literal_ok {value : Json.Value} {result : Literal}
    (run : literal setting here value graph = .ok (result, grown)) :
    Written.literal? value = some result ∧ grown = graph := by
  cases value <;> cases run <;> exact ⟨rfl, rfl⟩

theorem literals_ok {i : Nat} {values : List Json.Value} {results : List Literal}
    (run : literals setting here i values graph = .ok (results, grown)) :
    values.mapM Written.literal? = some results ∧ grown = graph := by
  induction values generalizing i results graph with
  | nil =>
      cases run
      exact ⟨rfl, rfl⟩
  | cons value more ih =>
      rw [literals] at run
      obtain ⟨first, _, ran, run⟩ := lower_bind_ok run
      obtain ⟨others, _, ran', run⟩ := lower_bind_ok run
      cases run
      obtain ⟨said, rfl⟩ := literal_ok ran
      obtain ⟨saidMore, rfl⟩ := ih ran'
      exact ⟨by simp [List.mapM_cons, said, saidMore], rfl⟩

/-- What a step of lowering makes of some schemas: their nodes, in a stretch after the graph. -/
structure Lays (definitions : Table String NodeId) (graph : Graph) (parts : List Written.Schema)
    (ids : List NodeId) (grown : Graph) : Prop where
  grows : Extends graph grown
  laid : Laid definitions grown parts graph.size ids grown.size

/-- What a step of lowering makes of the body of a schema. -/
structure Bodies (definitions : Table String NodeId) (graph : Graph) (schema : Written.Schema)
    (node : Node) (grown : Graph) : Prop where
  label : node.label = schema.label
  kind : ∃ children, Lays definitions graph schema.parts children grown ∧
    schema.kindOver? children = some node.kind

namespace Lays

variable {definitions : Table String NodeId} {parts more : List Written.Schema}
  {ids later : List NodeId} {next last : Graph}

theorem nil (graph : Graph) : Lays definitions graph [] [] graph :=
  ⟨.refl graph, .nil⟩

theorem append (first : Lays definitions graph parts ids next)
    (second : Lays definitions next more later last) :
    Lays definitions graph (parts ++ more) (ids ++ later) last where
  grows := first.grows.trans second.grows
  laid := (first.laid.congr fun n _ inside => second.grows.node n inside).append second.laid

/-- The node of a body comes after those of the schemas inside it. -/
theorem inPlace {schema : Written.Schema} {node : Node} (bare : schema.reference = none)
    (bodies : Bodies definitions graph schema node next) :
    Lays definitions graph [schema] [⟨next.size⟩] (next.add node).2 := by
  obtain ⟨children, inner, kind⟩ := bodies.kind
  have added := Extends.add next node
  refine ⟨inner.grows.trans added, ?_⟩
  have stands := node_add next node
  rw [Schema.Graph.size_add]
  refine .inPlace bare (inner.laid.congr fun n _ inside => added.node n inside) ?_ ?_ .nil
  · rw [Schema.Graph.kind, stands]
    exact kind
  · rw [Schema.Graph.label, stands]
    exact bodies.label

end Lays

theorem placed_ok {schema : Written.Schema} {body : LowerM Node} {id : NodeId}
    (below : ∀ {graph node grown}, body graph = .ok (node, grown) →
      Bodies setting.definitions graph schema node grown)
    (run : placed setting schema body graph = .ok (id, grown)) :
    Lays setting.definitions graph [schema] [id] grown := by
  cases referred : schema.reference with
  | some key =>
      simp only [placed, referred] at run
      cases found : setting.definitions.get? key with
      | none =>
          rw [found] at run
          cases run
      | some known =>
          rw [found] at run
          cases run
          exact ⟨.refl _, .reference referred found .nil⟩
  | none =>
      simp only [placed, referred] at run
      obtain ⟨node, next, first, run⟩ := lower_bind_ok run
      cases run
      exact .inPlace referred (below first)

/-- A body is made around nodes of its parts. -/
theorem Bodies.of_lays {definitions : Table String NodeId} {schema : Written.Schema}
    {variant : Variant} {children : List NodeId} {kind : Kind}
    (spelled : schema.variant? = some variant)
    (lays : Lays definitions graph (schema.partsOf variant) children grown)
    (made : schema.kindOf? variant children = some kind) :
    Bodies definitions graph schema { kind, label := schema.label } grown := by
  refine ⟨rfl, children, ?_, ?_⟩
  · rw [Written.Schema.parts, spelled]
    exact lays
  · rw [Written.Schema.kindOver?, spelled]
    exact made

mutual

theorem body_ok (setting : Setting) (here : Path) (schema : Written.Schema) {graph grown : Graph}
    {node : Node} (run : body setting here schema graph = .ok (node, grown)) :
    Bodies setting.definitions graph schema node grown := by
  obtain ⟨reference, typeName, name, description, isGlobal, isInteger, inner, element, valueType,
    shape, values, value, options⟩ := schema
  rw [body] at run
  obtain ⟨said, _, first, rest⟩ := lower_bind_ok run
  obtain ⟨rfl, rfl⟩ := needed_ok first
  have spelled : Option.map Variant.ofTypeName (some said) = some (Variant.ofTypeName said) := rfl
  dsimp only at rest
  generalize Variant.ofTypeName said = variant at rest spelled
  -- Only the kind takes more steps, and how many depends on the variant.
  cases variant with
  | primitive | number | empty | unsupported =>
      cases rest
      exact .of_lays spelled (.nil _) rfl
  | optional | nullable | transform =>
      obtain ⟨kind, next, made, ended⟩ := lower_bind_ok rest
      cases ended
      obtain ⟨id, below, rfl⟩ := map_ok made
      exact .of_lays spelled (child_ok setting here "inner" inner below) rfl
  | sequence =>
      obtain ⟨kind, next, made, ended⟩ := lower_bind_ok rest
      cases ended
      obtain ⟨id, below, rfl⟩ := map_ok made
      exact .of_lays spelled (child_ok setting here "element" element below) rfl
  | map =>
      obtain ⟨kind, next, made, ended⟩ := lower_bind_ok rest
      cases ended
      obtain ⟨id, below, rfl⟩ := map_ok made
      exact .of_lays spelled (child_ok setting here "valueType" valueType below) rfl
  | object =>
      obtain ⟨kind, next, made, ended⟩ := lower_bind_ok rest
      cases ended
      obtain ⟨found, below, rfl⟩ := map_ok made
      cases shape with
      | none =>
          rw [fields] at below
          cases below
      | some shape =>
          rw [fields] at below
          obtain ⟨keys, lays⟩ := fieldsOf_ok setting (here ++ [.key "shape"]) shape below
          refine .of_lays spelled lays ?_
          simp only [Written.Schema.kindOf?, Option.map_some, ← keys, List.zip_map']
          simp
  | union =>
      obtain ⟨kind, next, made, ended⟩ := lower_bind_ok rest
      cases ended
      obtain ⟨found, below, rfl⟩ := map_ok made
      cases options with
      | none =>
          rw [alternatives] at below
          cases below
      | some options =>
          rw [alternatives] at below
          exact .of_lays spelled (alternativesOf_ok setting (here ++ [.key "options"]) 0 options below) rfl
  | enumeration =>
      obtain ⟨given, _, second, later⟩ := lower_bind_ok rest
      obtain ⟨rfl, rfl⟩ := needed_ok second
      obtain ⟨kind, next, made, ended⟩ := lower_bind_ok later
      cases ended
      obtain ⟨found, read, rfl⟩ := map_ok made
      obtain ⟨literals, rfl⟩ := literals_ok read
      refine .of_lays spelled (.nil _) ?_
      simp only [Written.Schema.kindOf?, Option.bind_some, literals, Option.map_some]
  | literal =>
      obtain ⟨given, _, second, later⟩ := lower_bind_ok rest
      obtain ⟨rfl, rfl⟩ := needed_ok second
      obtain ⟨kind, next, made, ended⟩ := lower_bind_ok later
      cases ended
      obtain ⟨found, read, rfl⟩ := map_ok made
      obtain ⟨literal, rfl⟩ := literal_ok read
      refine .of_lays spelled (.nil _) ?_
      simp only [Written.Schema.kindOf?, Option.bind_some, literal, Option.map_some]

theorem child_ok (setting : Setting) (here : Path) (field : String) (schema? : Option Written.Schema)
    {graph grown : Graph} {id : NodeId}
    (run : child setting here field schema? graph = .ok (id, grown)) :
    Lays setting.definitions graph schema?.toList [id] grown := by
  cases schema? with
  | none =>
      rw [child] at run
      cases run
  | some schema =>
      rw [child] at run
      exact placed_ok (body_ok setting (here ++ [.key field]) schema) run

theorem fieldsOf_ok (setting : Setting) (here : Path) (shape : List (String × Written.Schema))
    {graph grown : Graph} {found : List (String × NodeId)}
    (run : fieldsOf setting here shape graph = .ok (found, grown)) :
    found.map Prod.fst = shape.map Prod.fst ∧
      Lays setting.definitions graph (shape.map Prod.snd) (found.map Prod.snd) grown := by
  cases shape with
  | nil =>
      rw [fieldsOf] at run
      cases run
      exact ⟨rfl, .nil _⟩
  | cons field more =>
      obtain ⟨key, schema⟩ := field
      rw [fieldsOf] at run
      obtain ⟨id, next, first, run⟩ := lower_bind_ok run
      obtain ⟨others, last, rest, run⟩ := lower_bind_ok run
      cases run
      have own := placed_ok (body_ok setting (here ++ [.key key]) schema) first
      obtain ⟨keys, later⟩ := fieldsOf_ok setting here more rest
      exact ⟨by simp [keys], own.append later⟩

theorem alternativesOf_ok (setting : Setting) (here : Path) (i : Nat)
    (options : List Written.Schema) {graph grown : Graph} {ids : List NodeId}
    (run : alternativesOf setting here i options graph = .ok (ids, grown)) :
    Lays setting.definitions graph options ids grown := by
  cases options with
  | nil =>
      rw [alternativesOf] at run
      cases run
      exact .nil _
  | cons schema more =>
      rw [alternativesOf] at run
      obtain ⟨id, next, first, run⟩ := lower_bind_ok run
      obtain ⟨others, last, rest, run⟩ := lower_bind_ok run
      cases run
      have own := placed_ok (body_ok setting (here ++ [.index i]) schema) first
      exact own.append (alternativesOf_ok setting here (i + 1) more rest)

end

theorem schema_ok {written : Written.Schema} {id : NodeId}
    (run : schema setting here written graph = .ok (id, grown)) :
    Lays setting.definitions graph [written] [id] grown :=
  placed_ok (body_ok setting here written) run

theorem schemas_ok {i : Nat} {listed : List Written.Schema} {ids : List NodeId}
    (run : schemas setting here i listed graph = .ok (ids, grown)) :
    Lays setting.definitions graph listed ids grown := by
  induction listed generalizing i ids graph with
  | nil =>
      cases run
      exact .nil _
  | cons written more ih =>
      rw [schemas] at run
      obtain ⟨id, next, first, later⟩ := lower_bind_ok run
      obtain ⟨others, last, rest, ended⟩ := lower_bind_ok later
      cases ended
      exact (schema_ok first).append (ih rest)

theorem schema?_ok {written : Option Written.Schema} {id : Option NodeId}
    (run : schema? setting here written graph = .ok (id, grown)) :
    Lays setting.definitions graph written.toList id.toList grown ∧ id.isSome = written.isSome := by
  cases written with
  | none =>
      cases run
      exact ⟨.nil _, rfl⟩
  | some written =>
      obtain ⟨found, below, rfl⟩ := map_ok run
      exact ⟨schema_ok below, rfl⟩

end

end RouterClient.Lowering
