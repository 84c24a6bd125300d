import RouterClient.Proofs.Document.Places

/-! # The place of a fault

A message about a document names the place of what is wrong.  Lowering comes to the schemas and literals of
a document in the order in which they are written, and answers with the first of them that is flawed: in
words that its own fields bear out, and at its place.
-/

namespace RouterClient.Lowering

open Json (Path)
open Schema (NodeId Node Graph)
open Written (Flaw Occurrence firstFlaw?)

/-- A path is written as a place, with further steps behind it. -/
def Spells (path : Path) (place : String) : Prop :=
  ∀ steps, Path.text (path ++ steps) = place ++ String.join (steps.map Path.stepText)

namespace Spells

variable {path : Path} {place : String}

theorem text (spells : Spells path place) : Path.text path = place := by
  have whole := spells []
  rwa [List.append_nil, List.map_nil, String.join_nil, String.append_empty] at whole

theorem start (name : String) : Spells [.key name] name :=
  fun _ => rfl

theorem key (spells : Spells path place) (name : String) :
    Spells (path ++ [.key name]) (Written.below place name) := by
  intro steps
  rw [List.append_assoc, spells, List.singleton_append, List.map_cons, String.join_cons]
  simp only [Path.stepText, Written.below, String.append_assoc]

theorem index (spells : Spells path place) (i : Nat) :
    Spells (path ++ [.index i]) (Written.item place i) := by
  intro steps
  rw [List.append_assoc, spells, List.singleton_append, List.map_cons, String.join_cons]
  simp only [Path.stepText, Written.item, String.append_assoc]

end Spells

/-- What is said of a flaw at a place. -/
inductive Told (origin : String) : String × Flaw → Failure → Prop where
  | dangling {place key} : Told origin (place, .dangling key) (.unknownReference key)
  | broken {place} (mistake : Json.Mistake) :
      mistake.path.text = place →
      Told origin (place, .broken mistake.problem.message) (.parse origin mistake)

/-- Whatever graph the step finds, it succeeds if there is no flaw, and tells of the flaw otherwise. -/
def Answers {α : Type} (origin : String) (step : LowerM α) (flaw? : Option (String × Flaw)) : Prop :=
  ∀ graph, match flaw? with
    | none => ∃ result, step graph = .ok result
    | some flaw => ∃ failure, step graph = .error failure ∧ Told origin flaw failure

namespace Answers

variable {α β : Type} {origin : String} {step : LowerM α} {next : α → LowerM β}
  {flaw? other? : Option (String × Flaw)}

theorem pure (result : α) : Answers origin (Pure.pure result) none :=
  fun graph => ⟨(result, graph), rfl⟩

theorem invalid {setting : Setting} {here : Path} {place : String} (spells : Spells here place)
    (problem : Json.Problem) : Answers setting.origin (Lowering.invalid setting here problem : LowerM α)
      (some (place, .broken problem.message)) :=
  fun _ => ⟨_, rfl, .broken ⟨here, problem⟩ spells.text⟩

theorem invalid_bind {setting : Setting} {here : Path} {place : String} (spells : Spells here place)
    (problem : Json.Problem) (next : α → LowerM β) :
    Answers setting.origin (Lowering.invalid setting here problem >>= next)
      (some (place, .broken problem.message)) :=
  fun _ => ⟨_, rfl, .broken ⟨here, problem⟩ spells.text⟩

theorem bind (first : Answers origin step flaw?) (rest : ∀ result, Answers origin (next result) other?) :
    Answers origin (step >>= next) (flaw?.or other?) := by
  intro graph
  cases flaw? with
  | some flaw =>
      obtain ⟨failure, ran, told⟩ := first graph
      exact ⟨failure, by simp [Bind.bind, StateT.bind, Except.bind, ran], told⟩
  | none =>
      obtain ⟨⟨between, middle⟩, ran⟩ := first graph
      have onward : (step >>= next) graph = next between middle := by
        simp [Bind.bind, StateT.bind, Except.bind, ran]
      cases other? with
      | none =>
          obtain ⟨result, run⟩ := rest between middle
          exact ⟨result, onward.trans run⟩
      | some flaw =>
          obtain ⟨failure, run, told⟩ := rest between middle
          exact ⟨failure, onward.trans run, told⟩

theorem bind_pure (first : Answers origin step flaw?) (f : α → β) :
    Answers origin (step >>= fun result => Pure.pure (f result)) flaw? := by
  have whole := first.bind fun result => pure (f result)
  rwa [Option.or_none] at whole

theorem map (first : Answers origin step flaw?) (f : α → β) : Answers origin (f <$> step) flaw? := by
  rw [map_eq_pure_bind]
  exact first.bind_pure f

/-- Steps over the entries of a list tell of the first flaw among what they come to. -/
theorem mapM {ι : Type} {step : ι → LowerM α} {keys : List String}
    {occurrences : ι → List (String × Occurrence)}
    (each : ∀ item, Answers origin (step item) (firstFlaw? keys (occurrences item)))
    (items : List ι) : Answers origin (items.mapM step) (firstFlaw? keys (items.flatMap occurrences)) := by
  induction items with
  | nil => exact pure _
  | cons item more ih =>
      rw [List.mapM_cons, List.flatMap_cons, Written.firstFlaw?_append]
      exact (each item).bind fun _ => ih.bind_pure _

end Answers

section

variable {setting : Setting} {here : Path} {place : String}

/-- The flaw of a schema whose variant requires a field. -/
def absence? (place : String) (field : Written.Field) (present : Bool) : Option (String × Flaw) :=
  (if present then none else some (Written.missing field.name)).map (place, ·)

theorem literal_answers (spells : Spells here place) (value : Json.Value) :
    Answers setting.origin (literal setting here value)
      (firstFlaw? setting.definitions.keys [(place, .value value)]) := by
  cases value with
  | string | bool | null | number => exact Answers.pure _
  | array | object => exact Answers.invalid spells .notAScalar

theorem literals_answer (spells : Spells here place) (i : Nat) (values : List Json.Value) :
    Answers setting.origin (literals setting here i values)
      (firstFlaw? setting.definitions.keys (Written.listedValues place i values)) := by
  induction values generalizing i with
  | nil => exact Answers.pure _
  | cons value more ih =>
      rw [literals, Written.listedValues, Written.firstFlaw?_cons]
      exact (literal_answers (spells.index i) value).bind fun _ => (ih (i + 1)).bind_pure _

/-- A schema is told of by its body, or by the key that it refers to. -/
theorem placed_answers {schema : Written.Schema} {step : LowerM Node}
    {inside : List (String × Occurrence)}
    (made : Answers setting.origin step
      ((schema.flaw?.map (place, ·)).or (firstFlaw? setting.definitions.keys inside))) :
    Answers setting.origin (placed setting schema step)
      (firstFlaw? setting.definitions.keys (schema.around place inside)) := by
  cases referred : schema.reference with
  | none =>
      simp only [placed, referred]
      rw [Written.firstFlaw?_around_body referred, ← Option.or_none (o := Option.or _ _)]
      exact made.bind fun node graph => ⟨_, rfl⟩
  | some key =>
      rw [Written.firstFlaw?_around_reference referred]
      cases found : setting.definitions.get? key with
      | none =>
          have absent : key ∉ setting.definitions.keys := Table.get?_eq_none.mp found
          simp only [placed, referred, found, if_neg absent]
          exact fun _ => ⟨_, rfl, .dangling⟩
      | some id =>
          have present : key ∈ setting.definitions.keys := by
            by_contra absent
            simp [Table.get?_eq_none.mpr absent] at found
          simp only [placed, referred, found, if_pos present]
          exact Answers.pure id

end

mutual

theorem body_answers (setting : Setting) {here : Path} {place : String} (spells : Spells here place)
    (schema : Written.Schema) : Answers setting.origin (body setting here schema)
      ((schema.flaw?.map (place, ·)).or
        (firstFlaw? setting.definitions.keys (schema.inside place))) := by
  obtain ⟨reference, typeName, name, description, isGlobal, isInteger, inner, element, valueType,
    shape, values, value, options⟩ := schema
  rw [body, Written.Schema.inside]
  cases typeName with
  | none => exact Answers.invalid_bind spells (.missingField "type") _
  | some said =>
      simp only [needed, pure_bind, Option.map_some, Written.Schema.flaw?]
      generalize Variant.ofTypeName said = variant
      cases variant with
      | primitive | number | empty | unsupported => exact Answers.pure _
      | optional | nullable | transform =>
          exact ((child_answers setting spells .inner inner).map _).bind_pure _
      | sequence => exact ((child_answers setting spells .element element).map _).bind_pure _
      | map => exact ((child_answers setting spells .valueType valueType).map _).bind_pure _
      | object => exact ((fields_answer setting spells shape).map _).bind_pure _
      | union => exact ((alternatives_answer setting spells options).map _).bind_pure _
      | enumeration =>
          cases values with
          | none => exact Answers.invalid_bind spells (.missingField "values") _
          | some values =>
              simp only [pure_bind]
              exact ((literals_answer (spells.key "values") 0 values).map _).bind_pure _
      | literal =>
          cases value with
          | none => exact Answers.invalid_bind spells (.missingField "value") _
          | some value =>
              simp only [pure_bind]
              exact ((literal_answers (spells.key "value") value).map _).bind_pure _

/-- The schema of a field is told of where it stands, and its absence where the field is missing. -/
theorem child_answers (setting : Setting) {here : Path} {place : String} (spells : Spells here place)
    (field : Written.Field) (schema? : Option Written.Schema) :
    Answers setting.origin (child setting here field.name schema?)
      ((absence? place field schema?.isSome).or (firstFlaw? setting.definitions.keys
        (Written.childInside (Written.below place field.name) schema?))) := by
  cases schema? with
  | none =>
      rw [child]
      exact Answers.invalid spells _
  | some schema =>
      rw [child]
      exact placed_answers (body_answers setting (spells.key field.name) schema)

theorem fields_answer (setting : Setting) {here : Path} {place : String} (spells : Spells here place)
    (shape? : Option (List (String × Written.Schema))) :
    Answers setting.origin (fields setting here shape?)
      ((absence? place .shape shape?.isSome).or (firstFlaw? setting.definitions.keys
        (Written.shapeInside (Written.below place "shape") shape?))) := by
  cases shape? with
  | none =>
      rw [fields]
      exact Answers.invalid spells _
  | some shape =>
      rw [fields]
      exact fieldsOf_answer setting (spells.key "shape") shape

theorem fieldsOf_answer (setting : Setting) {here : Path} {place : String} (spells : Spells here place)
    (shape : List (String × Written.Schema)) :
    Answers setting.origin (fieldsOf setting here shape)
      (firstFlaw? setting.definitions.keys (Written.fieldsInside place shape)) := by
  cases shape with
  | nil =>
      rw [fieldsOf]
      exact Answers.pure _
  | cons field more =>
      obtain ⟨key, schema⟩ := field
      rw [fieldsOf, Written.fieldsInside, Written.firstFlaw?_append]
      have first := placed_answers (body_answers setting (spells.key key) schema)
      exact first.bind fun _ => (fieldsOf_answer setting spells more).bind_pure _

theorem alternatives_answer (setting : Setting) {here : Path} {place : String}
    (spells : Spells here place) (options? : Option (List Written.Schema)) :
    Answers setting.origin (alternatives setting here options?)
      ((absence? place .options options?.isSome).or (firstFlaw? setting.definitions.keys
        (Written.optionsInside (Written.below place "options") options?))) := by
  cases options? with
  | none =>
      rw [alternatives]
      exact Answers.invalid spells _
  | some options =>
      rw [alternatives]
      exact alternativesOf_answer setting (spells.key "options") 0 options

theorem alternativesOf_answer (setting : Setting) {here : Path} {place : String}
    (spells : Spells here place) (i : Nat) (options : List Written.Schema) :
    Answers setting.origin (alternativesOf setting here i options)
      (firstFlaw? setting.definitions.keys (Written.listInside place i options)) := by
  cases options with
  | nil =>
      rw [alternativesOf]
      exact Answers.pure _
  | cons schema more =>
      rw [alternativesOf, Written.listInside, Written.firstFlaw?_append]
      have first := placed_answers (body_answers setting (spells.index i) schema)
      exact first.bind fun _ => (alternativesOf_answer setting spells (i + 1) more).bind_pure _

end

section

variable (setting : Setting) {here : Path} {place : String}

theorem schema_answers (spells : Spells here place) (written : Written.Schema) :
    Answers setting.origin (schema setting here written)
      (firstFlaw? setting.definitions.keys (written.around place (written.inside place))) :=
  placed_answers (body_answers setting spells written)

theorem schemas_answer (spells : Spells here place) (i : Nat) (listed : List Written.Schema) :
    Answers setting.origin (schemas setting here i listed)
      (firstFlaw? setting.definitions.keys (Written.listInside place i listed)) := by
  induction listed generalizing i with
  | nil => exact Answers.pure _
  | cons written more ih =>
      rw [schemas, Written.listInside, Written.firstFlaw?_append]
      exact (schema_answers setting (spells.index i) written).bind fun _ => (ih (i + 1)).bind_pure _

theorem schema?_answers (spells : Spells here place) (written : Option Written.Schema) :
    Answers setting.origin (schema? setting here written)
      (firstFlaw? setting.definitions.keys (Written.childInside place written)) := by
  cases written with
  | none => exact Answers.pure _
  | some written => exact (schema_answers setting spells written).map _

theorem procedure_answers (spells : Spells here place) (written : Written.Procedure) :
    Answers setting.origin (procedure setting here written)
      (firstFlaw? setting.definitions.keys (written.occurrences place)) := by
  rw [Written.Procedure.occurrences, Written.firstFlaw?_append, Written.firstFlaw?_append,
    Option.or_assoc]
  have input := schema?_answers setting (spells.key "input") written.input
  have inputs := schemas_answer setting (spells.key "inputs") 0 written.inputs
  have output := schema?_answers setting (spells.key "output") written.output
  exact input.bind fun _ => inputs.bind fun _ => output.bind_pure _

theorem routers_answer (written : Table String Written.Router) :
    Answers setting.origin (routers setting written) (firstFlaw? setting.definitions.keys
      (written.flatMap fun (name, router) => router.procedures.flatMap fun (path, procedure) =>
        procedure.occurrences
          (Written.below (Written.below (Written.below "routers" name) "procedures") path))) := by
  refine Answers.mapM (fun entry => ?_) written
  refine (Answers.mapM (fun item => ?_) entry.2.procedures).bind_pure _
  have spells := (((Spells.start "routers").key entry.1).key "procedures").key item.1
  exact (procedure_answers setting spells item.2).bind_pure _

theorem fillBodies_answer {written : Table String Written.Schema}
    (numbered : ∀ key ∈ written.keys, key ∈ setting.definitions.keys) :
    Answers setting.origin (fillBodies setting written) (firstFlaw? setting.definitions.keys
      (written.flatMap fun (key, schema) => Written.definitionInside key schema)) := by
  induction written with
  | nil => exact Answers.pure _
  | cons entry more ih =>
      obtain ⟨key, schema⟩ := entry
      rw [fillBodies_cons, List.flatMap_cons, Written.firstFlaw?_append]
      refine Answers.bind ?_ fun _ => ih fun key member => numbered key (List.mem_cons_of_mem _ member)
      cases referred : schema.reference with
      | some next =>
          simp only [Written.definitionInside, referred]
          exact Answers.pure _
      | none =>
          cases found : setting.definitions.get? key with
          | none => exact absurd (numbered key (List.mem_cons_self ..)) (Table.get?_eq_none.mp found)
          | some id =>
              simp only [Written.definitionInside, referred, Written.childInside,
                Written.firstFlaw?_around_body referred]
              have made := body_answers setting ((Spells.start "schemas").key key) schema
              have filled (node : Node) :
                  Answers setting.origin (modify (·.fill id node) : LowerM Unit) none :=
                fun _ => ⟨_, rfl⟩
              have whole := made.bind filled
              rwa [Option.or_none] at whole

end

/-- Some step fails where the steps over a list do. -/
theorem exists_of_mapM_error {ε α β : Type} {step : α → Except ε β} {items : List α} {failure : ε}
    (failed : items.mapM step = .error failure) : ∃ item ∈ items, step item = .error failure := by
  induction items with
  | nil => cases failed
  | cons item more ih =>
      cases first : step item with
      | error other =>
          rw [List.mapM_cons, first] at failed
          cases failed
          exact ⟨item, List.mem_cons_self, first⟩
      | ok result =>
          cases rest : more.mapM step with
          | error other =>
              rw [List.mapM_cons, first, rest] at failed
              cases failed
              obtain ⟨item, member, same⟩ := ih rest
              exact ⟨item, List.mem_cons_of_mem _ member, same⟩
          | ok results =>
              rw [List.mapM_cons, first, rest] at failed
              cases failed

/-- A chain of references that comes to no body is no matter of a place. -/
theorem definitions_error_ne_parse {schemas : Table String Written.Schema} {failure : Failure}
    (failed : definitions schemas = .error failure) (origin : String) (mistake : Json.Mistake) :
    failure ≠ .parse origin mistake := by
  rintro rfl
  obtain ⟨entry, _, failed⟩ := exists_of_mapM_error failed
  obtain ⟨ending, _, answered⟩ := exists_ending schemas entry.1 entry.1
  simp only [answered] at failed
  cases ending <;> cases failed

section

variable (origin : String) {written : Written.Document} {definitions : Table String NodeId}

/-- With its definitions numbered, a document is answered with its first flaw. -/
theorem lowering_answers (made : Lowering.definitions written.schemas = .ok definitions) :
    Answers origin (fillBodies ⟨origin, definitions⟩ written.schemas >>= fun _ =>
      routers ⟨origin, definitions⟩ written.routers)
      (firstFlaw? written.schemas.keys written.occurrences) := by
  have keys : definitions.keys = written.schemas.keys := (numbers made).keys
  have numbered : ∀ key ∈ written.schemas.keys, key ∈ definitions.keys := by simp [keys]
  rw [Written.Document.occurrences, Written.firstFlaw?_append, ← keys]
  exact (fillBodies_answer ⟨origin, definitions⟩ numbered).bind fun _ =>
    routers_answer ⟨origin, definitions⟩ written.routers

theorem document_of_flawless (made : Lowering.definitions written.schemas = .ok definitions)
    (flawless : firstFlaw? written.schemas.keys written.occurrences = none) :
    ∃ lowered, document origin written = .ok lowered := by
  have answers := lowering_answers origin made
  rw [flawless] at answers
  obtain ⟨result, run⟩ := answers (reserved written.schemas)
  rw [document_eq made, run]
  exact ⟨_, rfl⟩

theorem document_of_flaw (made : Lowering.definitions written.schemas = .ok definitions)
    {flaw : String × Flaw} (flawed : firstFlaw? written.schemas.keys written.occurrences = some flaw) :
    ∃ failure, document origin written = .error failure ∧ Told origin flaw failure := by
  have answers := lowering_answers origin made
  rw [flawed] at answers
  obtain ⟨failure, run, told⟩ := answers (reserved written.schemas)
  rw [document_eq made, run]
  exact ⟨failure, rfl, told⟩

end

/-- A mistake that lowering answers with stands at the place of something in the document: a schema that is
no reference and lacks its type name or the field that its variant requires, or a literal's value that is
no scalar, as the message says.  All that stands before it is in order, and so are the definitions that are
references.  And the first thing that is not in order is what the answer is about. -/
theorem mistakes_placed (origin : String) (written : Written.Document) :
    (∀ source mistake, document origin written = .error (.parse source mistake) →
      source = origin ∧ (∀ key ∈ written.schemas.keys, ∃ target, Leads written.schemas key target) ∧
      ∃ before occurrence after,
        written.occurrences = before ++ (mistake.path.text, occurrence) :: after ∧
        (∀ earlier ∈ before, earlier.2.Sound written.schemas.keys) ∧
        occurrence.Breaks mistake.problem.message) ∧
    ∀ before place occurrence after message,
      (∀ key ∈ written.schemas.keys, ∃ target, Leads written.schemas key target) →
      written.occurrences = before ++ (place, occurrence) :: after →
      (∀ earlier ∈ before, earlier.2.Sound written.schemas.keys) → occurrence.Breaks message →
      ∃ mistake, document origin written = .error (.parse origin mistake) ∧
        mistake.path.text = place ∧ mistake.problem.message = message := by
  constructor
  · intro source mistake failed
    cases made : Lowering.definitions written.schemas with
    | error failure =>
        cases (document_error made origin).symm.trans failed
        exact absurd rfl (definitions_error_ne_parse made source mistake)
    | ok definitions =>
        cases flawed : firstFlaw? written.schemas.keys written.occurrences with
        | none =>
            obtain ⟨lowered, run⟩ := document_of_flawless origin made flawed
            cases run.symm.trans failed
        | some flaw =>
            obtain ⟨failure, run, told⟩ := document_of_flaw origin made flawed
            cases run.symm.trans failed
            cases told with
            | broken _ placed =>
                obtain ⟨before, occurrence, after, stands, sound, broken⟩ :=
                  Written.firstFlaw?_eq_some_iff.mp flawed
                exact ⟨rfl, (numbers made).ends, before, occurrence, after, placed ▸ stands, sound,
                  Written.Occurrence.flaw?_eq_broken_iff.mp broken⟩
  · intro before place occurrence after message grounded stands sound breaks
    obtain ⟨definitions, made⟩ := definitions_ok_iff.mpr grounded
    have flawed : firstFlaw? written.schemas.keys written.occurrences = some (place, .broken message) :=
      Written.firstFlaw?_eq_some_iff.mpr
        ⟨before, occurrence, after, stands, sound, Written.Occurrence.flaw?_eq_broken_iff.mpr breaks⟩
    obtain ⟨failure, run, told⟩ := document_of_flaw origin made flawed
    cases told with
    | broken mistake placed => exact ⟨mistake, run, placed, rfl⟩

/-- A form with tags, and a procedure whose second input holds an optional around nothing. -/
def formDocument : Written.Document where
  schemas := [("Form", {
    typeName := some "object"
    shape := some [("tags", { typeName := some "enum", values := some [.string "a"] })] })]
  routers := [("app", { procedures := [("users.add", {
    kind := .mutation
    inputs := [
      { reference := some "Form" },
      { typeName := some "union", options := some [{ typeName := some "optional" }] }] })] })]

/-- The optional is told of at its place, and what stands before it is in order. -/
theorem optional_around_nothing_placed :
    ∃ mistake, document "doc.json" formDocument = .error (.parse "doc.json" mistake) ∧
      mistake.path.text = "routers.app.procedures.users.add.inputs[1].options[0]" ∧
      mistake.problem.message = "missing field `inner`" ∧
      ∃ before occurrence after,
        formDocument.occurrences = before ++ (mistake.path.text, occurrence) :: after ∧
        (∀ earlier ∈ before, earlier.2.Sound ["Form"]) ∧
        occurrence.Breaks "missing field `inner`" := by
  obtain ⟨named, told⟩ := mistakes_placed "doc.json" formDocument
  have grounded : ∀ key ∈ formDocument.schemas.keys, ∃ target,
      Leads formDocument.schemas key target := by
    intro key member
    obtain rfl := List.mem_singleton.mp member
    exact ⟨"Form", .body rfl rfl⟩
  have flawed : firstFlaw? formDocument.schemas.keys formDocument.occurrences =
      some ("routers.app.procedures.users.add.inputs[1].options[0]",
        .broken "missing field `inner`") := rfl
  obtain ⟨before, occurrence, after, stands, sound, broken⟩ :=
    Written.firstFlaw?_eq_some_iff.mp flawed
  obtain ⟨mistake, failed, place, message⟩ := told before _ occurrence after _ grounded stands sound
    (Written.Occurrence.flaw?_eq_broken_iff.mp broken)
  obtain ⟨_, _, found⟩ := named "doc.json" mistake failed
  rw [message] at found
  exact ⟨mistake, failed, place, message, found⟩

end RouterClient.Lowering
