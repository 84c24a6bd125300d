import Mathlib.Data.List.Nodup
import Mathlib.Data.List.Range
import RouterClient.Document.Lowering

/-! # Schemas in place

A schema that is written inside another one, and is no reference, is a schema in place.  Lowering lays
the schemas in place out one after the other, each after those inside it, so a stretch of positions and
the schemas that were written belong to each other one by one.
-/

namespace RouterClient

open Schema (Kind Label Literal NodeId Graph)
open Lowering (Variant)

namespace Written

/-- The literal that a value is, unless it is a list or an object. -/
def literal? : Json.Value → Option Literal
  | .string text => some (.string text)
  | .bool b => some (.bool b)
  | .null => some .null
  | .number n => some (.number n.toFloat)
  | .array _ | .object _ => none

namespace Schema

def label (schema : Schema) : Label where
  name := schema.name
  description := schema.description
  isGlobal := schema.isGlobal

/-- What the type name stands for. -/
def variant? (schema : Schema) : Option Variant :=
  schema.typeName.map Variant.ofTypeName

/-- The schemas inside a schema that a variant asks for, in order. -/
def partsOf (schema : Schema) : Variant → List Schema
  | .optional | .nullable | .transform => schema.inner.toList
  | .sequence _ => schema.element.toList
  | .map => schema.valueType.toList
  | .object => (schema.shape.getD []).map Prod.snd
  | .union => schema.options.getD []
  | .primitive _ | .number | .empty | .enumeration | .literal | .unsupported _ => []

/-- The schemas inside a schema that its type name asks for. -/
def parts (schema : Schema) : List Schema :=
  schema.variant?.elim [] schema.partsOf

/-- A kind around a single node. -/
def around? (kind : NodeId → Kind) : List NodeId → Option Kind
  | [child] => some (kind child)
  | _ => none

/-- The kind that a variant stands for, around the nodes of the parts. -/
def kindOf? (schema : Schema) (variant : Variant) (children : List NodeId) : Option Kind :=
  match variant with
  | .primitive p => some (.primitive p)
  | .number => some (.primitive (if schema.isInteger then .integer else .float))
  | .empty => some .empty
  | .optional => around? .optional children
  | .nullable => around? .nullable children
  | .sequence arrangement => around? (.collection arrangement) children
  | .map => around? (.collection .map) children
  | .object => schema.shape.map fun shape => .object ((shape.map Prod.fst).zip children)
  | .enumeration => (schema.values.bind (List.mapM literal?)).map .enumeration
  | .literal => (schema.value.bind literal?).map .literal
  | .union => some (.union children)
  | .transform => around? .transform children
  | .unsupported typeName => some (.unsupported typeName)

/-- The kind that is written, around the nodes of the parts. -/
def kindOver? (schema : Schema) (children : List NodeId) : Option Kind :=
  schema.variant?.bind fun variant => schema.kindOf? variant children

/-- A node of the written kind has the nodes of the parts below it. -/
theorem children_of_kindOver? {schema : Schema} {children : List NodeId} {kind : Kind}
    (written : schema.kindOver? children = some kind)
    (complete : children.length = schema.parts.length) : kind.children = children := by
  have single {f : NodeId → Kind} (holds : ∀ child, (f child).children = [child])
      (made : around? f children = some kind) : kind.children = children := by
    unfold around? at made
    split at made
    · cases made
      exact holds _
    · cases made
  obtain ⟨variant, spelled, made⟩ := Option.bind_eq_some_iff.mp written
  rw [parts, spelled, Option.elim_some] at complete
  cases variant with
  | optional | nullable | transform | sequence | map => exact single (fun _ => rfl) made
  | object =>
      obtain ⟨shape, found, rfl⟩ := Option.map_eq_some_iff.mp made
      simp only [partsOf, found, Option.getD_some, List.length_map] at complete
      simp [Kind.children, List.map_snd_zip, complete]
  | union =>
      cases made
      rfl
  | primitive | number | empty | unsupported =>
      obtain rfl := List.length_eq_zero_iff.mp complete
      cases made
      rfl
  | enumeration | literal =>
      obtain rfl := List.length_eq_zero_iff.mp complete
      obtain ⟨_, _, rfl⟩ := Option.map_eq_some_iff.mp made
      rfl

end Schema

/-- Some steps lead through schemas in place to a schema in place; each step is the number of a part. -/
inductive InPlace : List Schema → List Nat → Schema → Prop where
  | part {parts i schema} :
      parts[i]? = some schema → schema.reference = none → InPlace parts [i] schema
  | inside {parts i schema path inner} :
      parts[i]? = some schema → schema.reference = none → InPlace schema.parts path inner →
      InPlace parts (i :: path) inner

end Written

/-- The node that some steps lead to; the first step chooses among `ids`, and every further one among the
nodes below the node that has been reached. -/
def Schema.Graph.below? (graph : Graph) : List NodeId → List Nat → Option NodeId
  | _, [] => none
  | ids, [i] => ids[i]?
  | ids, i :: next :: path => do
    let id ← ids[i]?
    graph.below? (graph.kind id).children (next :: path)

/-- The positions from one to another. -/
def stretch (low high : Nat) : List NodeId :=
  (List.range' low (high - low)).map NodeId.mk

theorem stretch_append {low middle high : Nat} (before : low ≤ middle) (after : middle ≤ high) :
    stretch low middle ++ stretch middle high = stretch low high := by
  have split := List.range'_append_1 (s := low) (m := middle - low) (n := high - middle)
  rw [Nat.add_sub_cancel' before, show middle - low + (high - middle) = high - low by omega] at split
  rw [stretch, stretch, ← List.map_append, split]
  rfl

theorem nodup_stretch (low high : Nat) : (stretch low high).Nodup :=
  List.Nodup.map (fun _ _ same => congrArg NodeId.index same) List.nodup_range'

theorem mem_stretch {low high : Nat} {id : NodeId} :
    id ∈ stretch low high ↔ low ≤ id.index ∧ id.index < high := by
  simp only [stretch, List.mem_map, List.mem_range'_1]
  constructor
  · rintro ⟨n, inside, rfl⟩
    simp only
    omega
  · rintro inside
    exact ⟨id.index, by omega, rfl⟩

/-- Some places have the positions of a stretch, one after the other. -/
structure Enumerates {π : Type} (stands : π → Prop) (node? : π → Option NodeId) (low high : Nat) :
    Prop where
  le : low ≤ high
  places : ∃ places : List π, (∀ place, place ∈ places ↔ stands place) ∧
    places.map node? = (stretch low high).map some

namespace Enumerates

variable {π ρ : Type} {stands others : π → Prop} {node? : π → Option NodeId} {low middle high : Nat}

theorem empty (nowhere : ∀ place, ¬ stands place) : Enumerates stands node? low low :=
  ⟨Nat.le_refl _, [], by simp [nowhere], by simp [stretch]⟩

theorem one {place : π} (found : node? place = some ⟨low⟩) :
    Enumerates (· = place) node? low (low + 1) :=
  ⟨Nat.le_succ _, [place], by simp, by simp [stretch, found]⟩

theorem append (first : Enumerates stands node? low middle)
    (second : Enumerates others node? middle high) :
    Enumerates (fun place => stands place ∨ others place) node? low high := by
  obtain ⟨places, complete, laid⟩ := first.places
  obtain ⟨more, complete', laid'⟩ := second.places
  refine ⟨first.le.trans second.le, places ++ more, ?_, ?_⟩
  · simp [complete, complete']
  · rw [List.map_append, laid, laid', ← List.map_append, stretch_append first.le second.le]

/-- The places seen from elsewhere. -/
theorem through (enumerates : Enumerates stands node? low high) (f : π → ρ) {seen? : ρ → Option NodeId}
    (same : ∀ place, stands place → seen? (f place) = node? place) :
    Enumerates (fun place => ∃ inner, stands inner ∧ f inner = place) seen? low high := by
  obtain ⟨places, complete, laid⟩ := enumerates.places
  refine ⟨enumerates.le, places.map f, ?_, ?_⟩
  · simp [complete]
  · rw [← laid, List.map_map]
    exact List.map_congr_left fun place listed => same place ((complete place).mp listed)

theorem congr (enumerates : Enumerates stands node? low high)
    (same : ∀ place, stands place ↔ others place) : Enumerates others node? low high := by
  rwa [← funext fun place => propext (same place)]

/-- A place has a position of the stretch. -/
theorem within (enumerates : Enumerates stands node? low high) {place : π} (stood : stands place) :
    ∃ id, node? place = some id ∧ id.index < high := by
  obtain ⟨places, complete, laid⟩ := enumerates.places
  have listed := List.mem_map_of_mem (f := node?) ((complete place).mpr stood)
  rw [laid] at listed
  obtain ⟨id, inside, found⟩ := List.mem_map.mp listed
  exact ⟨id, found.symm, (mem_stretch.mp inside).2⟩

/-- A position of the stretch is that of a place. -/
theorem reached (enumerates : Enumerates stands node? low high) {n : Nat} (above : low ≤ n)
    (inside : n < high) : ∃ place, stands place ∧ node? place = some ⟨n⟩ := by
  obtain ⟨places, complete, laid⟩ := enumerates.places
  have inStretch : ⟨n⟩ ∈ stretch low high := mem_stretch.mpr ⟨above, inside⟩
  have listed := List.mem_map_of_mem (f := some) inStretch
  rw [← laid] at listed
  obtain ⟨place, member, found⟩ := List.mem_map.mp listed
  exact ⟨place, (complete place).mp member, found⟩

end Enumerates

/-- Parts whose schemas in place are laid out over the positions from one to another: the nodes of the
parts, in a graph where definitions have their nodes. -/
inductive Laid (definitions : Table String NodeId) (graph : Graph) :
    List Written.Schema → Nat → List NodeId → Nat → Prop where
  | nil {low} : Laid definitions graph [] low [] low
  | reference {schema more low id ids high key} :
      schema.reference = some key → definitions.get? key = some id →
      Laid definitions graph more low ids high →
      Laid definitions graph (schema :: more) low (id :: ids) high
  | inPlace {schema more low children position ids high} :
      schema.reference = none →
      Laid definitions graph schema.parts low children position →
      schema.kindOver? children = some (graph.kind ⟨position⟩) →
      graph.label ⟨position⟩ = schema.label →
      Laid definitions graph more (position + 1) ids high →
      Laid definitions graph (schema :: more) low (⟨position⟩ :: ids) high

/-- A node is what a schema says, and the nodes below it are those of its parts. -/
structure Describes (definitions : Table String NodeId) (graph : Graph) (schema : Written.Schema)
    (id : NodeId) : Prop where
  label : graph.label id = schema.label
  kind : schema.kindOver? (graph.kind id).children = some (graph.kind id)
  complete : (graph.kind id).children.length = schema.parts.length
  references : ∀ (i : Nat) part key, schema.parts[i]? = some part → part.reference = some key →
    (graph.kind id).children[i]? = definitions.get? key

namespace Laid

variable {definitions : Table String NodeId} {graph other : Graph} {parts more : List Written.Schema}
  {ids later : List NodeId} {low middle high : Nat}

theorem le (laid : Laid definitions graph parts low ids high) : low ≤ high := by
  induction laid with
  | nil => exact Nat.le_refl _
  | reference _ _ _ ih => exact ih
  | inPlace _ _ _ _ _ ihInner ih => omega

theorem length_eq (laid : Laid definitions graph parts low ids high) :
    ids.length = parts.length := by
  induction laid with
  | nil => rfl
  | reference _ _ _ ih => exact congrArg (· + 1) ih
  | inPlace _ _ _ _ _ _ ih => exact congrArg (· + 1) ih

/-- Only the nodes of the stretch matter. -/
theorem congr (laid : Laid definitions graph parts low ids high)
    (same : ∀ n, low ≤ n → n < high → other.node ⟨n⟩ = graph.node ⟨n⟩) :
    Laid definitions other parts low ids high := by
  induction laid with
  | nil => exact .nil
  | reference referred found _ ih => exact .reference referred found (ih same)
  | inPlace bare inner kind label rest ihInner ih =>
      have before := inner.le
      have after := rest.le
      have node := same _ before (by omega)
      refine .inPlace bare (ihInner ?_) ?_ ?_ (ih ?_)
      · exact fun n above under => same n above (by omega)
      · rw [Schema.Graph.kind, node]
        exact kind
      · rw [Schema.Graph.label, node]
        exact label
      · exact fun n above under => same n (by omega) under

theorem append (laid : Laid definitions graph parts low ids middle)
    (rest : Laid definitions graph more middle later high) :
    Laid definitions graph (parts ++ more) low (ids ++ later) high := by
  induction laid with
  | nil => exact rest
  | reference referred found _ ih => exact .reference referred found (ih rest)
  | inPlace bare inner kind label _ _ ih => exact .inPlace bare inner kind label (ih rest)

theorem reference_eq (laid : Laid definitions graph parts low ids high) :
    ∀ (i : Nat) part key, parts[i]? = some part → part.reference = some key →
      ids[i]? = definitions.get? key := by
  induction laid with
  | nil => simp
  | reference referred found _ ih =>
      intro i part key found' referred'
      cases i with
      | zero =>
          cases found'
          obtain rfl := Option.some.inj (referred.symm.trans referred')
          exact found.symm
      | succ i => exact ih i part key found' referred'
  | inPlace bare _ _ _ _ _ ih =>
      intro i part key found referred
      cases i with
      | zero =>
          cases found
          rw [bare] at referred
          cases referred
      | succ i => exact ih i part key found referred

/-- The nodes of the parts are those of definitions, or stand in the stretch. -/
theorem bounded (laid : Laid definitions graph parts low ids high) {bound : Nat}
    (defined : ∀ key id, definitions.get? key = some id → id.index < bound) (within : high ≤ bound) :
    ∀ id ∈ ids, id.index < bound := by
  induction laid with
  | nil => simp
  | reference _ found _ ih => exact List.forall_mem_cons.mpr ⟨defined _ _ found, ih within⟩
  | @inPlace _ _ _ _ position _ _ _ _ _ _ rest _ ih =>
      have after := rest.le
      have here : position < bound := by omega
      exact List.forall_mem_cons.mpr ⟨here, ih within⟩

/-- A node over parts that are laid out is what its schema says. -/
theorem describes {schema : Written.Schema} {children : List NodeId} {id : NodeId}
    (laid : Laid definitions graph schema.parts low children high)
    (kind : schema.kindOver? children = some (graph.kind id)) (label : graph.label id = schema.label) :
    Describes definitions graph schema id ∧ (graph.kind id).children = children := by
  have same := Written.Schema.children_of_kindOver? kind laid.length_eq
  refine ⟨⟨label, ?_, ?_, ?_⟩, same⟩
  · rw [same]
    exact kind
  · rw [same]
    exact laid.length_eq
  · rw [same]
    exact laid.reference_eq

end Laid

section

variable {definitions : Table String NodeId} {graph : Graph} {schema inner : Written.Schema}
  {parts more : List Written.Schema} {id : NodeId} {ids : List NodeId} {path : List Nat}
  {low high : Nat}

theorem Written.InPlace.ne_nil (stands : Written.InPlace parts path inner) : path ≠ [] := by
  cases stands <;> simp

/-- The first step with one part more before the part that it chooses. -/
def skip : List Nat → List Nat
  | [] => []
  | i :: path => (i + 1) :: path

theorem Written.inPlace_cons : Written.InPlace (schema :: more) path inner ↔
    (schema.reference = none ∧ (path = [0] ∧ inner = schema ∨
      ∃ rest, path = 0 :: rest ∧ Written.InPlace schema.parts rest inner)) ∨
    ∃ rest, path = skip rest ∧ Written.InPlace more rest inner := by
  constructor
  · intro stands
    cases stands with
    | @part _ i _ found bare =>
        cases i with
        | zero =>
            cases found
            exact .inl ⟨bare, .inl ⟨rfl, rfl⟩⟩
        | succ i => exact .inr ⟨[i], rfl, .part found bare⟩
    | @inside _ i _ rest _ found bare deeper =>
        cases i with
        | zero =>
            cases found
            exact .inl ⟨bare, .inr ⟨rest, rfl, deeper⟩⟩
        | succ i => exact .inr ⟨i :: rest, rfl, .inside found bare deeper⟩
  · rintro (⟨bare, ⟨rfl, rfl⟩ | ⟨rest, rfl, deeper⟩⟩ | ⟨rest, rfl, stands⟩)
    · exact .part rfl bare
    · exact .inside rfl bare deeper
    · cases stands with
      | part found bare => exact .part found bare
      | inside found bare deeper => exact .inside found bare deeper

theorem Written.not_inPlace_nil : ¬ Written.InPlace [] path inner := by
  intro stands
  cases stands <;> simp_all

theorem Written.inPlace_singleton : Written.InPlace [schema] path inner ↔
    schema.reference = none ∧ (path = [0] ∧ inner = schema ∨
      ∃ rest, path = 0 :: rest ∧ Written.InPlace schema.parts rest inner) := by
  simp [Written.inPlace_cons, Written.not_inPlace_nil]

theorem below?_first : graph.below? (id :: ids) [0] = some id := rfl

theorem below?_inside (nonempty : path ≠ []) :
    graph.below? (id :: ids) (0 :: path) = graph.below? (graph.kind id).children path := by
  cases path with
  | nil => exact absurd rfl nonempty
  | cons => rfl

theorem below?_skip : graph.below? (id :: ids) (skip path) = graph.below? ids path := by
  match path with
  | [] => cases ids <;> rfl
  | [i] => rfl
  | i :: next :: rest => rfl

/-- The schemas in place among some parts have the positions of the stretch. -/
theorem Laid.enumerates (laid : Laid definitions graph parts low ids high) :
    Enumerates (fun path => ∃ inner, Written.InPlace parts path inner) (graph.below? ids) low high := by
  induction laid with
  | nil =>
      refine .empty ?_
      rintro path ⟨inner, stands⟩
      exact Written.not_inPlace_nil stands
  | @reference schema more _ id ids _ _ referred _ _ ih =>
      refine (ih.through skip fun _ _ => below?_skip).congr ?_
      intro path
      simp only [Written.inPlace_cons, referred, reduceCtorEq, false_and, false_or]
      constructor
      · rintro ⟨rest, ⟨inner, stands⟩, rfl⟩
        exact ⟨inner, rest, rfl, stands⟩
      · rintro ⟨inner, rest, rfl, stands⟩
        exact ⟨rest, ⟨inner, stands⟩, rfl⟩
  | @inPlace schema more low children position ids high bare inner kind label rest ihInner ih =>
      obtain ⟨_, below⟩ := inner.describes kind label
      have inside : ∀ path, (∃ inner, Written.InPlace schema.parts path inner) →
          graph.below? (⟨position⟩ :: ids) (0 :: path) = graph.below? children path := by
        rintro path ⟨_, stands⟩
        rw [below?_inside stands.ne_nil, below]
      have own := (ihInner.through (0 :: ·) inside).append (.one below?_first)
      refine (own.append (ih.through skip fun _ _ => below?_skip)).congr ?_
      intro path
      simp only [Written.inPlace_cons, bare, true_and]
      constructor
      · rintro ((⟨rest, ⟨inner, stands⟩, rfl⟩ | rfl) | ⟨rest, ⟨inner, stands⟩, rfl⟩)
        · exact ⟨inner, .inl (.inr ⟨rest, rfl, stands⟩)⟩
        · exact ⟨schema, .inl (.inl ⟨rfl, rfl⟩)⟩
        · exact ⟨inner, .inr ⟨rest, rfl, stands⟩⟩
      · rintro ⟨inner, (⟨rfl, rfl⟩ | ⟨rest, rfl, stands⟩) | ⟨rest, rfl, stands⟩⟩
        · exact .inl (.inr rfl)
        · exact .inl (.inl ⟨rest, ⟨inner, stands⟩, rfl⟩)
        · exact .inr ⟨rest, ⟨inner, stands⟩, rfl⟩

/-- Every schema in place has a node, which is what the schema says. -/
theorem Laid.described (laid : Laid definitions graph parts low ids high)
    (stands : Written.InPlace parts path inner) :
    ∃ id, graph.below? ids path = some id ∧ Describes definitions graph inner id := by
  induction laid generalizing path with
  | nil => exact absurd stands Written.not_inPlace_nil
  | reference referred _ _ ih =>
      rcases Written.inPlace_cons.mp stands with ⟨bare, _⟩ | ⟨rest, rfl, after⟩
      · rw [referred] at bare
        cases bare
      · rw [below?_skip]
        exact ih after
  | inPlace _ laid kind label _ ihInner ih =>
      obtain ⟨described, below⟩ := laid.describes kind label
      rcases Written.inPlace_cons.mp stands with ⟨_, ⟨rfl, rfl⟩ | ⟨rest, rfl, deeper⟩⟩ |
        ⟨rest, rfl, after⟩
      · exact ⟨_, rfl, described⟩
      · rw [below?_inside deeper.ne_nil, below]
        exact ihInner deeper
      · rw [below?_skip]
        exact ih after

/-- The nodes of some schemas: those of definitions where the schemas are references, and nodes that say
what the schemas in place say. -/
structure Carries (definitions : Table String NodeId) (graph : Graph) (parts : List Written.Schema)
    (ids : List NodeId) : Prop where
  complete : ids.length = parts.length
  references : ∀ (i : Nat) part key, parts[i]? = some part → part.reference = some key →
    ids[i]? = definitions.get? key
  described : ∀ path inner, Written.InPlace parts path inner →
    ∃ id, graph.below? ids path = some id ∧ Describes definitions graph inner id

theorem Laid.carries (laid : Laid definitions graph parts low ids high) :
    Carries definitions graph parts ids :=
  ⟨laid.length_eq, laid.reference_eq, fun _ _ => laid.described⟩

theorem Carries.reference {key : String} (referred : schema.reference = some key)
    (found : definitions.get? key = some id) : Carries definitions graph [schema] [id] := by
  have laid : Laid definitions graph [schema] 0 [id] 0 := .reference referred found .nil
  exact laid.carries

/-- The node of a body carries it, wherever the node is. -/
theorem Carries.body (bare : schema.reference = none)
    (laid : Laid definitions graph schema.parts low children high)
    (kind : schema.kindOver? children = some (graph.kind id)) (label : graph.label id = schema.label) :
    Carries definitions graph [schema] [id] := by
  obtain ⟨describes, below⟩ := laid.describes kind label
  refine ⟨rfl, ?_, ?_⟩
  · intro i part key found referred
    cases i with
    | zero =>
        cases found
        simp [bare] at referred
    | succ i => cases found
  · intro path inner stands
    obtain ⟨_, ⟨rfl, rfl⟩ | ⟨rest, rfl, deeper⟩⟩ := Written.inPlace_singleton.mp stands
    · exact ⟨id, rfl, describes⟩
    · rw [below?_inside deeper.ne_nil, below]
      exact laid.described deeper

theorem Written.InPlace.concat {i : Nat} {part : Written.Schema}
    (stands : Written.InPlace parts path inner) (found : inner.parts[i]? = some part)
    (bare : part.reference = none) : Written.InPlace parts (path ++ [i]) part := by
  induction stands with
  | part found' bare' => exact .inside found' bare' (.part found bare)
  | inside found' bare' _ ih => exact .inside found' bare' (ih found)

/-- One step more leads to a node below the node that has been reached. -/
theorem below?_concat (reached : graph.below? ids path = some id) (i : Nat) :
    graph.below? ids (path ++ [i]) = (graph.kind id).children[i]? := by
  induction path generalizing ids with
  | nil => cases reached
  | cons first rest ih =>
      cases rest with
      | nil =>
          have found : ids[first]? = some id := reached
          simp [Schema.Graph.below?, found]
      | cons next more =>
          simp only [Schema.Graph.below?, Option.bind_eq_bind, Option.bind_eq_some_iff] at reached
          obtain ⟨between, found, deeper⟩ := reached
          have further := ih deeper
          simpa [Schema.Graph.below?, found] using further

end

end RouterClient
