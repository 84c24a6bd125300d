import RouterClient.Proofs.Document.Aliases
import RouterClient.Proofs.Document.Trimming

/-! # The documents that lowering accepts

A document is well formed when every definition leads to a body, and every schema that lowering comes to
refers to a definition or has what its own variant requires.  Whether a step of lowering succeeds does not
depend on the graph that it finds, so what a document must satisfy is put together from what its schemas
must satisfy, in the order in which lowering goes through them.
-/

namespace RouterClient

open Lowering (Variant)

/-- The value is no list and no object. -/
def Json.Value.IsScalar : Json.Value → Prop
  | .array _ | .object _ => False
  | .string _ | .bool _ | .null | .number _ => True

namespace Written

namespace Schema

/-- The schema has what a variant requires. -/
def Provides (schema : Schema) : Variant → Prop
  | .optional | .nullable | .transform => schema.inner.isSome
  | .sequence _ => schema.element.isSome
  | .map => schema.valueType.isSome
  | .object => schema.shape.isSome
  | .enumeration => ∃ values, schema.values = some values ∧ ∀ value ∈ values, value.IsScalar
  | .literal => ∃ value, schema.value = some value ∧ value.IsScalar
  | .union => schema.options.isSome
  | .primitive _ | .number | .empty | .unsupported _ => True

/-- The schema has a type name and what its variant requires. -/
def Complete (schema : Schema) : Prop :=
  ∃ variant, schema.variant? = some variant ∧ schema.Provides variant

/-- A type name decides what a complete schema has, and which its parts are. -/
theorem spelled_iff (schema : Schema) {holds : Schema → Prop} :
    (schema.Complete ∧ ∀ part ∈ schema.parts, holds part) ↔
      ∃ said, schema.typeName = some said ∧ schema.Provides (Variant.ofTypeName said) ∧
        ∀ part ∈ schema.partsOf (Variant.ofTypeName said), holds part := by
  cases spelled : schema.typeName with
  | none => simp [Complete, variant?, spelled]
  | some said => simp [Complete, parts, variant?, spelled]

/-- The schema refers to one of the keys, or it is complete. -/
def Sound (keys : List String) (schema : Schema) : Prop :=
  match schema.reference with
  | some key => key ∈ keys
  | none => schema.Complete

/-- A schema is reached from another one through fields that the variants on the way ask for; nothing is
reached through a reference. -/
inductive Reaches : Schema → Schema → Prop where
  | self {schema} : Reaches schema schema
  | part {schema part inner} :
      schema.reference = none → part ∈ schema.parts → Reaches part inner → Reaches schema inner

/-- Every schema that is reached is sound. -/
def Fits (keys : List String) (schema : Schema) : Prop :=
  ∀ inner, schema.Reaches inner → inner.Sound keys

theorem fits_iff {keys : List String} {schema : Schema} : schema.Fits keys ↔
    schema.Sound keys ∧ (schema.reference = none → ∀ part ∈ schema.parts, part.Fits keys) := by
  constructor
  · intro fits
    exact ⟨fits _ .self, fun bare part member inner reaches => fits inner (.part bare member reaches)⟩
  · rintro ⟨sound, parts⟩ inner reaches
    cases reaches with
    | self => exact sound
    | part bare member reaches => exact parts bare _ member inner reaches

theorem fits_of_reference {keys : List String} {schema : Schema} {key : String}
    (referred : schema.reference = some key) : schema.Fits keys ↔ key ∈ keys := by
  rw [fits_iff]
  simp [Sound, referred]

theorem fits_of_body {keys : List String} {schema : Schema} (bare : schema.reference = none) :
    schema.Fits keys ↔ schema.Complete ∧ ∀ part ∈ schema.parts, part.Fits keys := by
  rw [fits_iff]
  simp [Sound, bare]

end Schema

/-- The schemas at which lowering begins: the bodies of definitions and the schemas of procedures. -/
inductive Document.Begins (written : Document) : Schema → Prop where
  | definition {key schema} :
      (key, schema) ∈ written.schemas → schema.reference = none → Begins written schema
  | procedure {name router path procedure schema} :
      (name, router) ∈ written.routers → (path, procedure) ∈ router.procedures →
      schema ∈ procedure.parts → Begins written schema

structure Document.WellFormed (written : Document) : Prop where
  /-- Every definition leads to a body. -/
  aliases : ∀ key ∈ written.schemas.keys, ∃ target, Lowering.Leads written.schemas key target
  /-- Every schema that is reached refers to a definition or has what its variant requires. -/
  schemas : ∀ schema, written.Begins schema → schema.Fits written.schemas.keys

end Written

namespace Lowering

open Json (Path)
open Schema (NodeId Node Graph)

/-- Whatever graph the step finds, it succeeds exactly when `condition` holds. -/
def Accepts {α : Type} (step : LowerM α) (condition : Prop) : Prop :=
  ∀ graph, (∃ result, step graph = .ok result) ↔ condition

namespace Accepts

variable {α β : Type} {step : LowerM α} {next : α → LowerM β} {condition other : Prop}

theorem congr (accepts : Accepts step condition) (same : condition ↔ other) : Accepts step other :=
  fun graph => (accepts graph).trans same

theorem pure (result : α) : Accepts (Pure.pure result) True :=
  fun graph => ⟨fun _ => trivial, fun _ => ⟨(result, graph), rfl⟩⟩

theorem failed {failure : Failure} (fails : ∀ graph, step graph = .error failure) :
    Accepts step False := by
  intro graph
  simp [fails graph]

theorem bind (first : Accepts step condition) (rest : ∀ result, Accepts (next result) other) :
    Accepts (step >>= next) (condition ∧ other) := by
  intro graph
  constructor
  · rintro ⟨⟨result, last⟩, run⟩
    obtain ⟨between, middle, ran, ran'⟩ := lower_bind_ok run
    exact ⟨(first graph).mp ⟨_, ran⟩, (rest between middle).mp ⟨_, ran'⟩⟩
  · rintro ⟨holds, holds'⟩
    obtain ⟨⟨between, middle⟩, ran⟩ := (first graph).mpr holds
    obtain ⟨result, ran'⟩ := (rest between middle).mpr holds'
    exact ⟨result, by simp [Bind.bind, StateT.bind, Except.bind, ran, ran']⟩

theorem bind_pure (first : Accepts step condition) (f : α → β) :
    Accepts (step >>= fun result => Pure.pure (f result)) condition :=
  (first.bind fun result => pure (f result)).congr (by simp)

theorem map (first : Accepts step condition) (f : α → β) : Accepts (f <$> step) condition := by
  rw [map_eq_pure_bind]
  exact first.bind_pure f

/-- Steps over the entries of a list succeed when each of them does. -/
theorem mapM {ι : Type} {step : ι → LowerM α} {holds : ι → Prop} {items : List ι}
    (each : ∀ item ∈ items, Accepts (step item) (holds item)) :
    Accepts (items.mapM step) (∀ item ∈ items, holds item) := by
  induction items with
  | nil => exact (pure _).congr (by simp)
  | cons item more ih =>
      rw [List.mapM_cons]
      have first := each item (List.mem_cons_self ..)
      have rest := ih fun item member => each item (List.mem_cons_of_mem _ member)
      exact (first.bind fun _ => rest.bind_pure _).congr List.forall_mem_cons.symm

end Accepts

section

variable {setting : Setting} {here : Path}

theorem needed_bind_accepts {α β : Type} {name : String} {value? : Option α} {next : α → LowerM β}
    {holds : α → Prop} (rest : ∀ value, Accepts (next value) (holds value)) :
    Accepts (needed setting here name value? >>= next)
      (∃ value, value? = some value ∧ holds value) := by
  cases value? with
  | none => exact (Accepts.failed fun _ => rfl).congr (by simp)
  | some value => exact ((Accepts.pure value).bind fun _ => rest value).congr (by simp)

theorem literal_accepts (value : Json.Value) :
    Accepts (literal setting here value) value.IsScalar := by
  cases value with
  | string | bool | null | number => exact Accepts.pure _
  | array | object => exact Accepts.failed fun _ => rfl

theorem literals_accept (i : Nat) (values : List Json.Value) :
    Accepts (literals setting here i values) (∀ value ∈ values, value.IsScalar) := by
  induction values generalizing i with
  | nil => exact (Accepts.pure _).congr (by simp)
  | cons value more ih =>
      rw [literals]
      exact ((literal_accepts value).bind fun _ => (ih (i + 1)).bind_pure _).congr
        List.forall_mem_cons.symm

/-- A schema stands at its own node when its body is made, or at that of a definition. -/
theorem placed_accepts {schema : Written.Schema} {step : LowerM Node}
    (made : Accepts step
      (schema.Complete ∧ ∀ part ∈ schema.parts, part.Fits setting.definitions.keys)) :
    Accepts (placed setting schema step) (schema.Fits setting.definitions.keys) := by
  cases referred : schema.reference with
  | none =>
      simp only [placed, referred]
      have stored (node : Node) : Accepts (place node) True :=
        fun _ => ⟨fun _ => trivial, fun _ => ⟨_, rfl⟩⟩
      exact (made.bind stored).congr (by rw [Written.Schema.fits_of_body referred, and_true])
  | some key =>
      simp only [placed, referred]
      cases found : setting.definitions.get? key with
      | none =>
          have absent : key ∉ setting.definitions.keys := Table.get?_eq_none.mp found
          refine (Accepts.failed fun _ => rfl).congr ?_
          simp [Written.Schema.fits_of_reference referred, absent]
      | some id =>
          have present : key ∈ setting.definitions.keys := by
            by_contra absent
            simp [Table.get?_eq_none.mpr absent] at found
          exact (Accepts.pure id).congr (by simp [Written.Schema.fits_of_reference referred, present])

end

mutual

theorem body_accepts (setting : Setting) (here : Path) (schema : Written.Schema) :
    Accepts (body setting here schema)
      (schema.Complete ∧ ∀ part ∈ schema.parts, part.Fits setting.definitions.keys) := by
  rw [schema.spelled_iff]
  obtain ⟨reference, typeName, name, description, isGlobal, isInteger, inner, element, valueType,
    shape, values, value, options⟩ := schema
  rw [body]
  refine needed_bind_accepts fun said => ?_
  -- Only the kind takes more steps, and how many depends on the variant.
  generalize Variant.ofTypeName said = variant
  cases variant with
  | primitive | number | empty | unsupported =>
      exact ((Accepts.pure _).bind_pure _).congr (by simp [Written.Schema.Provides, Written.Schema.partsOf])
  | optional | nullable | transform => exact ((child_accepts setting here "inner" inner).map _).bind_pure _
  | sequence => exact ((child_accepts setting here "element" element).map _).bind_pure _
  | map => exact ((child_accepts setting here "valueType" valueType).map _).bind_pure _
  | object => exact ((fields_accepts setting here shape).map _).bind_pure _
  | union => exact ((alternatives_accepts setting here options).map _).bind_pure _
  | enumeration =>
      exact (needed_bind_accepts fun given => ((literals_accept 0 given).map _).bind_pure _).congr
        (by simp [Written.Schema.Provides, Written.Schema.partsOf])
  | literal =>
      exact (needed_bind_accepts fun given => ((literal_accepts given).map _).bind_pure _).congr
        (by simp [Written.Schema.Provides, Written.Schema.partsOf])

theorem child_accepts (setting : Setting) (here : Path) (field : String)
    (schema? : Option Written.Schema) :
    Accepts (child setting here field schema?)
      (schema?.isSome ∧ ∀ part ∈ schema?.toList, part.Fits setting.definitions.keys) := by
  cases schema? with
  | none =>
      rw [child]
      exact (Accepts.failed fun _ => rfl).congr (by simp)
  | some schema =>
      rw [child]
      refine (placed_accepts (body_accepts setting (here ++ [.key field]) schema)).congr ?_
      simp

theorem fields_accepts (setting : Setting) (here : Path)
    (shape? : Option (List (String × Written.Schema))) :
    Accepts (fields setting here shape?) (shape?.isSome ∧
      ∀ part ∈ (shape?.getD []).map Prod.snd, part.Fits setting.definitions.keys) := by
  cases shape? with
  | none =>
      rw [fields]
      exact (Accepts.failed fun _ => rfl).congr (by simp)
  | some shape =>
      rw [fields]
      refine (fieldsOf_accepts setting (here ++ [.key "shape"]) shape).congr ?_
      simp

theorem fieldsOf_accepts (setting : Setting) (here : Path) (shape : List (String × Written.Schema)) :
    Accepts (fieldsOf setting here shape)
      (∀ part ∈ shape.map Prod.snd, part.Fits setting.definitions.keys) := by
  cases shape with
  | nil =>
      rw [fieldsOf]
      exact (Accepts.pure _).congr (by simp)
  | cons field more =>
      obtain ⟨key, schema⟩ := field
      rw [fieldsOf]
      have first := placed_accepts (body_accepts setting (here ++ [.key key]) schema)
      have rest := fieldsOf_accepts setting here more
      exact (first.bind fun _ => rest.bind_pure _).congr List.forall_mem_cons.symm

theorem alternatives_accepts (setting : Setting) (here : Path)
    (options? : Option (List Written.Schema)) :
    Accepts (alternatives setting here options?)
      (options?.isSome ∧ ∀ part ∈ options?.getD [], part.Fits setting.definitions.keys) := by
  cases options? with
  | none =>
      rw [alternatives]
      exact (Accepts.failed fun _ => rfl).congr (by simp)
  | some options =>
      rw [alternatives]
      refine (alternativesOf_accepts setting (here ++ [.key "options"]) 0 options).congr ?_
      simp

theorem alternativesOf_accepts (setting : Setting) (here : Path) (i : Nat)
    (options : List Written.Schema) :
    Accepts (alternativesOf setting here i options)
      (∀ part ∈ options, part.Fits setting.definitions.keys) := by
  cases options with
  | nil =>
      rw [alternativesOf]
      exact (Accepts.pure _).congr (by simp)
  | cons schema more =>
      rw [alternativesOf]
      have first := placed_accepts (body_accepts setting (here ++ [.index i]) schema)
      have rest := alternativesOf_accepts setting here (i + 1) more
      exact (first.bind fun _ => rest.bind_pure _).congr List.forall_mem_cons.symm

end

section

variable (setting : Setting) (here : Path)

theorem schema_accepts (written : Written.Schema) :
    Accepts (schema setting here written) (written.Fits setting.definitions.keys) :=
  placed_accepts (body_accepts setting here written)

theorem schemas_accept (i : Nat) (listed : List Written.Schema) :
    Accepts (schemas setting here i listed) (∀ part ∈ listed, part.Fits setting.definitions.keys) := by
  induction listed generalizing i with
  | nil => exact (Accepts.pure _).congr (by simp)
  | cons written more ih =>
      rw [schemas]
      have first := schema_accepts setting (here ++ [.index i]) written
      exact (first.bind fun _ => (ih (i + 1)).bind_pure _).congr List.forall_mem_cons.symm

theorem schema?_accepts (written : Option Written.Schema) :
    Accepts (schema? setting here written)
      (∀ part ∈ written.toList, part.Fits setting.definitions.keys) := by
  cases written with
  | none => exact (Accepts.pure _).congr (by simp)
  | some written => exact ((schema_accepts setting here written).map _).congr (by simp)

theorem procedure_accepts (written : Written.Procedure) :
    Accepts (procedure setting here written)
      (∀ part ∈ written.parts, part.Fits setting.definitions.keys) := by
  have input := schema?_accepts setting (here ++ [.key "input"]) written.input
  have inputs := schemas_accept setting (here ++ [.key "inputs"]) 0 written.inputs
  have output := schema?_accepts setting (here ++ [.key "output"]) written.output
  refine (input.bind fun one => inputs.bind fun listed => output.bind_pure _).congr ?_
  simp only [Written.Procedure.parts, List.forall_mem_append, and_assoc]

theorem routers_accept (written : Table String Written.Router) :
    Accepts (routers setting written) (∀ entry ∈ written, ∀ item ∈ entry.2.procedures,
      ∀ part ∈ item.2.parts, part.Fits setting.definitions.keys) := by
  apply Accepts.mapM
  intro entry _
  apply Accepts.bind_pure
  apply Accepts.mapM
  intro item _
  exact (procedure_accepts setting _ item.2).bind_pure _

theorem fillBodies_accepts {written : Table String Written.Schema}
    (numbered : ∀ key ∈ written.keys, key ∈ setting.definitions.keys) :
    Accepts (fillBodies setting written) (∀ entry ∈ written, entry.2.reference = none →
      entry.2.Fits setting.definitions.keys) := by
  induction written with
  | nil => exact (Accepts.pure _).congr (by simp)
  | cons entry more ih =>
      obtain ⟨key, schema⟩ := entry
      rw [fillBodies_cons]
      have rest := ih fun key member => numbered key (List.mem_cons_of_mem _ member)
      suffices first : Accepts _ (schema.reference = none → schema.Fits setting.definitions.keys) from
        (first.bind fun _ => rest).congr (by simp only [List.forall_mem_cons])
      cases referred : schema.reference with
      | some next => exact (Accepts.pure _).congr (by simp)
      | none =>
          cases found : setting.definitions.get? key with
          | none => exact absurd (numbered key (List.mem_cons_self ..)) (Table.get?_eq_none.mp found)
          | some id =>
              have made := body_accepts setting [.key "schemas", .key key] schema
              have filled (node : Node) : Accepts (modify (·.fill id node) : LowerM Unit) True :=
                fun _ => ⟨fun _ => trivial, fun _ => ⟨_, rfl⟩⟩
              exact (made.bind filled).congr (by simp [Written.Schema.fits_of_body referred])

end

/-- With its definitions numbered, a document is lowered in one run over its bodies and its routers. -/
theorem document_eq {origin : String} {written : Written.Document} {definitions : Table String NodeId}
    (made : Lowering.definitions written.schemas = .ok definitions) :
    document origin written = (fillBodies ⟨origin, definitions⟩ written.schemas >>= fun _ =>
      routers ⟨origin, definitions⟩ written.routers) (reserved written.schemas) >>= fun result =>
        pure { graph := result.2, definitions, routers := result.1 } := by
  rw [document, made]
  rfl

theorem document_iff {origin : String} {written : Written.Document} {definitions : Table String NodeId}
    (made : Lowering.definitions written.schemas = .ok definitions) :
    (∃ lowered, document origin written = .ok lowered) ↔
      ∃ result, (fillBodies ⟨origin, definitions⟩ written.schemas >>= fun _ =>
        routers ⟨origin, definitions⟩ written.routers) (reserved written.schemas) = .ok result := by
  rw [document_eq made]
  cases (fillBodies ⟨origin, definitions⟩ written.schemas >>= fun _ =>
      routers ⟨origin, definitions⟩ written.routers) (reserved written.schemas) with
  | error => simp [bind, Except.bind]
  | ok => simp [bind, Except.bind, pure, Except.pure]

/-- A definition that leads to no body fails the whole document. -/
theorem document_error {written : Written.Document} {failure : Failure}
    (failed : Lowering.definitions written.schemas = .error failure) (origin : String) :
    document origin written = .error failure := by
  rw [document, failed]
  rfl

theorem wellFormed_iff {written : Written.Document} : written.WellFormed ↔
    (∀ key ∈ written.schemas.keys, ∃ target, Leads written.schemas key target) ∧
      (∀ entry ∈ written.schemas, entry.2.reference = none → entry.2.Fits written.schemas.keys) ∧
      ∀ entry ∈ written.routers, ∀ item ∈ entry.2.procedures, ∀ part ∈ item.2.parts,
        part.Fits written.schemas.keys := by
  constructor
  · intro ⟨aliases, fits⟩
    exact ⟨aliases, fun entry member bare => fits _ (.definition member bare),
      fun entry member item member' part member'' => fits _ (.procedure member member' member'')⟩
  · intro ⟨aliases, bodies, procedures⟩
    refine ⟨aliases, fun schema begins => ?_⟩
    cases begins with
    | definition member bare => exact bodies _ member bare
    | procedure member member' member'' => exact procedures _ member _ member' _ member''

/-- Lowering accepts the well-formed documents and no others. -/
theorem document_ok_iff (origin : String) (written : Written.Document) :
    (∃ lowered, document origin written = .ok lowered) ↔ written.WellFormed := by
  rw [wellFormed_iff, ← definitions_ok_iff]
  cases made : Lowering.definitions written.schemas with
  | error failure => simp [document_error made]
  | ok definitions =>
      have keys := (numbers made).keys
      have numbered : ∀ key ∈ written.schemas.keys, key ∈ definitions.keys := by simp [keys]
      have bodies := fillBodies_accepts ⟨origin, definitions⟩ numbered
      have procedures := routers_accept ⟨origin, definitions⟩ written.routers
      rw [document_iff made, bodies.bind (fun _ => procedures) _]
      simp [keys]

/-- Documents that differ in fields that no variant uses are answered alike. -/
theorem document_eq_of_trimmed {written other : Written.Document} (same : other.trimmed = written.trimmed)
    (origin : String) : document origin other = document origin written := by
  rw [← document_trimmed origin other, same, document_trimmed]

/-- Lowering accepts exactly the well-formed documents.  Every chain of references ends in one way, and the
first definition whose chain comes to no body is answered with its own key when the chain loops, and with
the missing key when the chain leaves the table.  Fields that are not in use are never looked at. -/
theorem document_accepts_wellFormed (origin : String) (written : Written.Document) :
    ((∃ lowered, document origin written = .ok lowered) ↔ written.WellFormed) ∧
    (∀ key, ∃! ending, Ends written.schemas key ending) ∧
    (∀ before key schema after, written.schemas = before ++ (key, schema) :: after →
      (∀ earlier ∈ Table.keys before, ∃ target, Leads written.schemas earlier target) →
      (Ends written.schemas key .loop → document origin written = .error (.aliasCycle key)) ∧
      ∀ absent, Ends written.schemas key (.missing absent) →
        document origin written = .error (.unknownReference absent)) ∧
    ∀ other : Written.Document, other.trimmed = written.trimmed →
      document origin other = document origin written := by
  refine ⟨document_ok_iff origin written, existsUnique_ends written.schemas, ?_, ?_⟩
  · intro before key schema after stands grounded
    constructor
    · intro loops
      exact document_error (definitions_error stands grounded loops rfl) origin
    · intro absent leaves
      exact document_error (definitions_error stands grounded leaves rfl) origin
  · intro other same
    exact document_eq_of_trimmed same origin

end Lowering

end RouterClient
