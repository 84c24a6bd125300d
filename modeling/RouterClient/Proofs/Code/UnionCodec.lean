import RouterClient.Code.Declaration
import Mathlib.Data.List.Basic

/-! # Decoding and encoding a union

The decoder and the encoder of a union are read as programs here, of which each reference may mean a
property or a local name.  The decoder sets the property of the first alternative that accepts; the
encoder gives the payload back if and only if no property is named like one of its local names.
-/

namespace RouterClient.Code

/-- How a routine of a struct refers to a property. -/
inductive Reference where
  | bare (name : String)
  | ofSelf (name : String)

namespace Reference

def text : Reference → String
  | bare name => name
  | ofSelf name => "self." ++ name

/-- The property that is meant among some local names; none when a local name is meant. -/
def property? (locals : List String) : Reference → Option String
  | bare name => if name ∈ locals then none else some name
  | ofSelf name => some name

end Reference

/-- The names that a decoder or an encoder gives to its parameter, to the container and to a value. -/
structure RoutineNames where
  parameter : String
  container : String
  value : String

inductive DecodeStep where
  | null
  | value (type : TypeExpr) (target : Reference)

structure Decoder where
  names : RoutineNames
  steps : List DecodeStep

structure Encoder where
  names : RoutineNames
  tests : List Reference

def DecodeStep.lines (names : RoutineNames) : DecodeStep → Lines
  | null => Lines.block ("if " ++ names.container ++ ".decodeNil()") ["return"]
  | value type target =>
    Lines.block ("if let " ++ names.value ++ " = try? " ++ names.container ++ ".decode(" ++
      type.text ++ ".self)") [target.text ++ " = " ++ names.value, "return"]

def Decoder.lines (heading : Heading) (decoder : Decoder) : Lines :=
  let ⟨parameter, container, _⟩ := decoder.names
  let message := literal ("No alternative of " ++ heading.name ++ " matched the payload")
  "" :: Lines.block (heading.declare ("init(from " ++ parameter ++ ": Decoder) throws"))
    (("let " ++ container ++ " = try " ++ parameter ++ ".singleValueContainer()") ::
      decoder.steps.flatMap (DecodeStep.lines decoder.names) ++
      ["throw DecodingError.dataCorruptedError(in: " ++ container ++ ", debugDescription: " ++
        message ++ ")"])

def Encoder.testLines (names : RoutineNames) (test : Reference) : Lines :=
  Lines.block ("if let " ++ names.value ++ " = " ++ test.text)
    ["try " ++ names.container ++ ".encode(" ++ names.value ++ ")", "return"]

def Encoder.lines (heading : Heading) (encoder : Encoder) : Lines :=
  let ⟨parameter, container, _⟩ := encoder.names
  "" :: Lines.block (heading.declare ("func encode(to " ++ parameter ++ ": Encoder) throws"))
    (("var " ++ container ++ " = " ++ parameter ++ ".singleValueContainer()") ::
      encoder.tests.flatMap (Encoder.testLines encoder.names) ++
      ["try " ++ container ++ ".encodeNil()"])

/-- How values of alternatives come from payloads and become payloads again. -/
structure Codecs (Payload Value : Type) where
  null : Payload
  decode : Alternative → Payload → Option Value
  encode : Alternative → Value → Payload
  faithful : ∀ alternative payload value,
    decode alternative payload = some value → encode alternative value = payload

/-- The values of the properties of a struct that are set. -/
abbrev Store (Value : Type) :=
  String → Option Value

namespace Store

variable {Value : Type}

def unset : Store Value :=
  fun _ => none

def only (property : String) (value : Value) : Store Value :=
  fun name => if name = property then some value else none

end Store

section

variable {Payload Value : Type} [DecidableEq Payload] (codecs : Codecs Payload Value)

/-- What a decoder comes to at an attempt, unless it goes on with the next one. -/
def Attempt.run? (payload : Payload) : Attempt → Option (Store Value)
  | null => if payload = codecs.null then some .unset else none
  | decode alternative =>
    (codecs.decode alternative payload).map (Store.only alternative.property)

/-- The payload of a property, if it is set; the property's type tells how it is encoded. -/
def encodeProperty? (declared : List Alternative) (store : Store Value) (name : String) :
    Option Payload := do
  let alternative ← declared.find? (·.property = name)
  let value ← store name
  return codecs.encode alternative value

/-- The payload of the first property that is set, of some that are tested in order. -/
def encodeFirst (declared : List Alternative) (store : Store Value) (tests : List String) : Payload :=
  (tests.findSome? (encodeProperty? codecs declared store)).getD codecs.null

/-- The attempt that a step makes; none when it does not set a property. -/
def DecodeStep.attempt? (names : RoutineNames) : DecodeStep → Option Attempt
  | null => some .null
  | value type target =>
    (target.property? [names.parameter, names.container, names.value]).map fun property =>
      .decode { property, payload := type }

/-- What a decoder makes of a payload; none when no attempt accepts it, or some step does not set a
property. -/
def Decoder.run? (decoder : Decoder) (payload : Payload) : Option (Store Value) := do
  let attempts ← decoder.steps.mapM (DecodeStep.attempt? decoder.names)
  attempts.findSome? (Attempt.run? codecs payload)

/-- What an encoder makes of a struct with some alternatives; none when some test is not one of a
property, as a local name has no optional value that could be tested. -/
def Encoder.run? (encoder : Encoder) (declared : List Alternative) (store : Store Value) :
    Option Payload := do
  let locals := [encoder.names.parameter, encoder.names.container]
  let tests ← encoder.tests.mapM (Reference.property? locals)
  return encodeFirst codecs declared store tests

end

def Attempt.step : Attempt → DecodeStep
  | null => .null
  | decode alternative => .value alternative.payload (.ofSelf alternative.property)

/-- The decoder that is written for some attempts. -/
def unionDecoder (attempts : List Attempt) : Decoder where
  names := ⟨"decoder", "container", "value"⟩
  steps := attempts.map Attempt.step

/-- The encoder that is written for some alternatives. -/
def unionEncoder (alternatives : List Alternative) : Encoder where
  names := ⟨"encoder", "container", "value"⟩
  tests := alternatives.map fun alternative => .bare alternative.property

theorem Attempt.lines_eq (attempt : Attempt) (attempts : List Attempt) :
    attempt.lines = attempt.step.lines (unionDecoder attempts).names := by
  cases attempt with
  | null => rfl
  | decode alternative =>
      have assigned : "self." ++ alternative.property ++ " = value" =
          "self." ++ alternative.property ++ " = " ++ "value" :=
        (@String.append_assoc ("self." ++ alternative.property) " = " "value").symm
      rw [lines, assigned]
      rfl

theorem decoderLines_eq (heading : Heading) (attempts : List Attempt) :
    decoderLines heading attempts = (unionDecoder attempts).lines heading := by
  have steps : attempts.flatMap Attempt.lines =
      (attempts.map Attempt.step).flatMap (DecodeStep.lines (unionDecoder attempts).names) := by
    rw [List.flatMap_map]
    exact List.flatMap_congr fun attempt _ => attempt.lines_eq attempts
  rw [decoderLines, steps]
  rfl

theorem encoderLines_eq (heading : Heading) (alternatives : List Alternative) :
    encoderLines heading alternatives = (unionEncoder alternatives).lines heading := by
  have tests : alternatives.flatMap Alternative.encodeLines =
      (unionEncoder alternatives).tests.flatMap
        (Encoder.testLines (unionEncoder alternatives).names) := by
    rw [unionEncoder, List.flatMap_map]
    rfl
  rw [encoderLines, tests]
  rfl

/-- A property that is named like a local name of the encoder. -/
def Captured (alternatives : List Alternative) : Prop :=
  ∃ alternative ∈ alternatives,
    alternative.property = "encoder" ∨ alternative.property = "container"

theorem Attempt.attempt?_step (names : RoutineNames) (attempt : Attempt) :
    attempt.step.attempt? names = some attempt := by
  cases attempt <;> rfl

theorem mapM_attempt?_step (names : RoutineNames) (attempts : List Attempt) :
    (attempts.map Attempt.step).mapM (DecodeStep.attempt? names) = some attempts := by
  induction attempts with
  | nil => rfl
  | cons attempt more ih =>
      rw [List.map_cons, List.mapM_cons, attempt.attempt?_step, ih]
      rfl

section

variable {alternatives : List Alternative} {alternative : Alternative} {locals : List String}

theorem mapM_property?_bare
    (free : ∀ alternative ∈ alternatives, alternative.property ∉ locals) :
    (alternatives.map fun alternative => Reference.bare alternative.property).mapM
      (Reference.property? locals) = some (alternatives.map Alternative.property) := by
  induction alternatives with
  | nil => rfl
  | cons alternative more ih =>
      obtain ⟨first, later⟩ := List.forall_mem_cons.mp free
      rw [List.map_cons, List.mapM_cons, ih later, Reference.property?, if_neg first]
      rfl

theorem mapM_property?_captured (listed : alternative ∈ alternatives)
    (captured : alternative.property ∈ locals) :
    (alternatives.map fun alternative => Reference.bare alternative.property).mapM
      (Reference.property? locals) = none := by
  induction alternatives with
  | nil => cases listed
  | cons first more ih =>
      rw [List.map_cons, List.mapM_cons, Reference.property?]
      split
      · rfl
      · next free =>
        rcases List.mem_cons.mp listed with rfl | later
        · exact absurd captured free
        · rw [ih later]
          rfl

theorem find?_property (distinct : (alternatives.map Alternative.property).Nodup)
    (listed : alternative ∈ alternatives) :
    alternatives.find? (·.property = alternative.property) = some alternative := by
  induction alternatives with
  | nil => cases listed
  | cons first more ih =>
      rw [List.map_cons, List.nodup_cons] at distinct
      rcases List.mem_cons.mp listed with rfl | later
      · simp
      · have other : first.property ≠ alternative.property := by
          intro same
          exact distinct.1 (same ▸ List.mem_map_of_mem later)
        rw [List.find?_cons_of_neg (by simpa using other), ih distinct.2 later]

end

section

variable {Payload Value : Type} (codecs : Codecs Payload Value) {alternatives : List Alternative}
  {attempts : List Attempt}

/-- The decoder makes its attempts in order, up to the first that accepts. -/
theorem unionDecoder_run? [DecidableEq Payload] (payload : Payload) :
    (unionDecoder attempts).run? codecs payload =
      attempts.findSome? (Attempt.run? codecs payload) := by
  simp only [Decoder.run?, unionDecoder, mapM_attempt?_step]
  rfl

theorem unionEncoder_run? (free : ¬ Captured alternatives) (store : Store Value) :
    (unionEncoder alternatives).run? codecs alternatives store =
      some (encodeFirst codecs alternatives store (alternatives.map Alternative.property)) := by
  have unlike : ∀ alternative ∈ alternatives, alternative.property ∉ ["encoder", "container"] := by
    intro alternative listed same
    exact free ⟨alternative, listed, by simpa using same⟩
  simp only [Encoder.run?, unionEncoder, mapM_property?_bare unlike]
  rfl

theorem unionEncoder_run?_captured (captured : Captured alternatives) (store : Store Value) :
    (unionEncoder alternatives).run? codecs alternatives store = none := by
  obtain ⟨alternative, listed, same⟩ := captured
  have inside : alternative.property ∈ ["encoder", "container"] := by simpa using same
  simp only [Encoder.run?, unionEncoder, mapM_property?_captured listed inside]
  rfl

theorem encodeFirst_unset (tests : List String) :
    encodeFirst codecs alternatives .unset tests = codecs.null := by
  have nothing : tests.findSome? (encodeProperty? codecs alternatives .unset) = none := by
    rw [List.findSome?_eq_none_iff]
    intro name _
    unfold encodeProperty?
    cases alternatives.find? (·.property = name) <;> rfl
  rw [encodeFirst, nothing]
  rfl

theorem encodeProperty?_only (distinct : (alternatives.map Alternative.property).Nodup)
    {other : Alternative} (listed : other ∈ alternatives) (property : String) (value : Value) :
    encodeProperty? codecs alternatives (.only property value) other.property =
      if other.property = property then some (codecs.encode other value) else none := by
  rw [encodeProperty?, find?_property distinct listed, Store.only]
  split <;> rfl

/-- When one property is set, its test is the only one that succeeds. -/
theorem encodeFirst_only (distinct : (alternatives.map Alternative.property).Nodup)
    {alternative : Alternative} (listed : alternative ∈ alternatives) (value : Value) :
    encodeFirst codecs alternatives (.only alternative.property value)
      (alternatives.map Alternative.property) = codecs.encode alternative value := by
  obtain ⟨before, after, split⟩ := List.append_of_mem listed
  -- The tests before this one are of other properties, and those are not set.
  have earlier : (before.map Alternative.property).findSome?
      (encodeProperty? codecs alternatives (.only alternative.property value)) = none := by
    rw [List.findSome?_eq_none_iff]
    intro name named
    obtain ⟨other, inside, rfl⟩ := List.mem_map.mp named
    have member : other ∈ alternatives := split ▸ List.mem_append_left _ inside
    rw [encodeProperty?_only codecs distinct member, if_neg]
    rw [split, List.map_append, List.map_cons, List.nodup_append] at distinct
    exact distinct.2.2 _ named _ List.mem_cons_self
  have own := encodeProperty?_only codecs distinct listed alternative.property value
  rw [if_pos rfl] at own
  have names : alternatives.map Alternative.property =
      before.map Alternative.property ++ alternative.property :: after.map Alternative.property := by
    rw [split, List.map_append, List.map_cons]
  rw [encodeFirst, names, List.findSome?_append, earlier, List.findSome?_cons, own]
  rfl

end

/-- The decoder accepts a payload at the first attempt that accepts it: a null attempt sets nothing,
and any other attempt sets the property of its alternative and nothing else. -/
def DecodesFirst (attempts : List Attempt) : Prop :=
  ∀ (Payload Value : Type) [DecidableEq Payload] (codecs : Codecs Payload Value) (payload : Payload)
    (store : Store Value),
    (unionDecoder attempts).run? codecs payload = some store ↔
      ∃ before attempt after, attempts = before ++ attempt :: after ∧
        attempt.run? codecs payload = some store ∧
        ∀ earlier ∈ before, earlier.run? codecs payload = none

/-- What the decoder has made of a payload, the encoder makes that payload again. -/
def RoundTrips (alternatives : List Alternative) (attempts : List Attempt) : Prop :=
  ∀ (Payload Value : Type) [DecidableEq Payload] (codecs : Codecs Payload Value) (payload : Payload)
    (store : Store Value), (unionDecoder attempts).run? codecs payload = some store →
      (unionEncoder alternatives).run? codecs alternatives store = some payload

theorem decodesFirst (attempts : List Attempt) : DecodesFirst attempts := by
  intro Payload Value _ codecs payload store
  rw [unionDecoder_run?, List.findSome?_eq_some_iff]

section

variable {alternatives : List Alternative} {attempts : List Attempt}

theorem roundTrips_of_not_captured (distinct : (alternatives.map Alternative.property).Nodup)
    (attempted : ∀ alternative, .decode alternative ∈ attempts → alternative ∈ alternatives)
    (free : ¬ Captured alternatives) : RoundTrips alternatives attempts := by
  intro Payload Value _ codecs payload store decoded
  rw [unionDecoder_run?] at decoded
  obtain ⟨attempt, made, accepted⟩ := List.exists_of_findSome?_eq_some decoded
  rw [unionEncoder_run? codecs free, Option.some_inj]
  cases attempt with
  | null =>
      obtain ⟨null, unset⟩ : payload = codecs.null ∧ .unset = store := by
        simpa [Attempt.run?] using accepted
      rw [← unset, encodeFirst_unset, null]
  | decode alternative =>
      obtain ⟨value, found, rfl⟩ := Option.map_eq_some_iff.mp accepted
      rw [encodeFirst_only codecs distinct (attempted alternative made)]
      exact codecs.faithful alternative payload value found

/-- Codecs of a type with one value, which accept every payload. -/
def unitCodecs : Codecs Unit Unit where
  null := ()
  decode _ payload := some payload
  encode _ value := value
  faithful _ _ _ _ := rfl

theorem not_roundTrips_of_captured {alternative : Alternative}
    (attempted : .decode alternative ∈ attempts) (captured : Captured alternatives) :
    ¬ RoundTrips alternatives attempts := by
  intro trips
  have accepted : ((unionDecoder attempts).run? unitCodecs ()).isSome := by
    rw [unionDecoder_run?, List.findSome?_isSome_iff]
    exact ⟨_, attempted, rfl⟩
  obtain ⟨store, decoded⟩ := Option.isSome_iff_exists.mp accepted
  have encoded := trips Unit Unit unitCodecs () store decoded
  rw [unionEncoder_run?_captured unitCodecs captured] at encoded
  cases encoded

theorem roundTrips_iff (distinct : (alternatives.map Alternative.property).Nodup)
    (attempted : ∀ alternative, .decode alternative ∈ attempts ↔ alternative ∈ alternatives) :
    RoundTrips alternatives attempts ↔ ¬ Captured alternatives := by
  constructor
  · intro trips captured
    obtain ⟨alternative, listed, _⟩ := id captured
    exact not_roundTrips_of_captured ((attempted alternative).mpr listed) captured trips
  · exact roundTrips_of_not_captured distinct fun alternative => (attempted alternative).mp

end

/-- The decoder and the encoder are the last members of a union's struct. -/
theorem codec_infix_choice (heading : Heading) (alternatives : List Alternative)
    (attempts : List Attempt) (models : Model.LocalModels Declaration) :
    (unionDecoder attempts).lines heading ++ (unionEncoder alternatives).lines heading <:+:
      (Declaration.choice heading alternatives attempts models).lines := by
  rw [← decoderLines_eq, ← encoderLines_eq, Declaration.lines, Lines.block]
  refine ⟨docComment? heading.description ++ (heading.structLine ++ " \x7b") ::
    (alternatives.map (Alternative.propertyLine heading) ++
      Lines.afterBlank (Declaration.modelLines models) ++
      alternatives.flatMap (Alternative.initLines heading)), ["\x7d"], ?_⟩
  simp only [List.append_assoc, List.cons_append]

theorem decoder_infix_choice (heading : Heading) (alternatives : List Alternative)
    (attempts : List Attempt) (models : Model.LocalModels Declaration) :
    decoderLines heading attempts <:+: (Declaration.choice heading alternatives attempts models).lines := by
  rw [decoderLines_eq]
  exact (List.prefix_append _ _).isInfix.trans (codec_infix_choice heading alternatives attempts models)

end RouterClient.Code
