import RouterClient.Proofs.Code.Balance
import RouterClient.Proofs.Code.Bodies

/-! # Declarations and classes in balance

Whatever keys, values, descriptions and segments it is made from, a declaration or a class is written as
lines in balance, as long as its own name, its protocols and the names of the types in it are plain.
-/

namespace RouterClient.Code

/-! ## Declarations -/

theorem modifier_plain (access : Access) : Plain access.modifier := by
  cases access <;> decide

/-- A heading whose name and protocols are plain. -/
structure Heading.IsPlain (heading : Heading) : Prop where
  name : Plain heading.name
  conformance : Plain heading.conformance

/-- A type whose names are plain. -/
def TypeExpr.IsPlain (type : TypeExpr) : Prop :=
  Plain type.base.text

structure Property.IsPlain (property : Property) : Prop where
  name : Plain property.name
  type : property.type.IsPlain
  initial : ∀ label, property.initial = some label → Plain label

structure Alternative.IsPlain (alternative : Alternative) : Prop where
  property : Plain alternative.property
  payload : alternative.payload.IsPlain

theorem TypeExpr.IsPlain.text {type : TypeExpr} (plain : type.IsPlain) : Plain type.text := by
  induction type with
  | primitive | model => exact plain
  | optional inner ih => exact (ih plain).append (by decide)
  | collection arrangement element ih =>
      cases arrangement with
      | array | set | map =>
          exact (Plain.append (by decide) (ih plain)).append (by decide)

section

variable {heading : Heading} {text : String} {type : TypeExpr}

theorem Heading.declare_plain (heading : Heading) (plain : Plain text) :
    Plain (heading.declare text) :=
  (modifier_plain _).append plain

theorem annotated_plain (name : Plain text) (plain : type.IsPlain) : Plain (annotated text type) :=
  (name.append (by decide)).append plain.text

theorem Heading.IsPlain.structLine (plain : heading.IsPlain) : Plain heading.structLine :=
  heading.declare_plain (((Plain.append (by decide) plain.name).append (by decide)).append
    plain.conformance)

theorem Heading.IsPlain.enumLine (plain : heading.IsPlain) : Plain heading.enumLine :=
  heading.declare_plain (((Plain.append (by decide) plain.name).append (by decide)).append
    plain.conformance)

theorem docComment_steady (description : Option String) : Steady (docComment? description) :=
  .of_neutral (docComment_neutral description)

theorem Property.IsPlain.lines {property : Property} (plain : property.IsPlain) (heading : Heading) :
    Steady (Property.lines heading property) := by
  refine (docComment_steady _).append (.single (Plain.passed ?_).neutral)
  exact heading.declare_plain (Plain.append (by decide) (annotated_plain plain.name plain.type))

theorem Property.IsPlain.parameter {property : Property} (plain : property.IsPlain) :
    Plain property.parameter := by
  have typed := annotated_plain plain.name plain.type
  unfold Property.parameter
  simp only
  split
  · exact typed.append (by decide)
  · split
    · next label given => exact (typed.append (by decide)).append (plain.initial label given)
    · exact typed

theorem assignment_plain (name : Plain text) : Plain (Property.assignment text) :=
  ((Plain.append (by decide) name).append (by decide)).append name

theorem Property.IsPlain.codingKey {property : Property} (plain : property.IsPlain) :
    Passed property.codingKey := by
  have named := (Plain.append (by decide : Plain "case ") plain.name).passed
  unfold Property.codingKey
  split
  · exact named
  · exact (named.append (Plain.passed (by decide))).append (literal_passed _)

theorem codingKeys_steady {properties : List Property}
    (plain : ∀ property ∈ properties, property.IsPlain) : Steady (codingKeys properties) := by
  unfold codingKeys
  split
  · refine .cons .blank (.block (Plain.passed (by decide)).opens (.map ?_))
    exact fun property listed => (plain property listed).codingKey.neutral
  · exact .nil

theorem intercalate_plain {texts : List String} (plain : ∀ text ∈ texts, Plain text) :
    Plain (", ".intercalate texts) := by
  induction texts with
  | nil => decide
  | cons first more ih =>
      obtain ⟨head, later⟩ := List.forall_mem_cons.mp plain
      cases more with
      | nil => simpa using head
      | cons second others =>
          rw [String.intercalate_cons_cons]
          exact (head.append (by decide)).append (ih later)

/-- A line that opens a block and closes it again. -/
theorem emptyInit_neutral (heading : Heading) : Neutral (heading.declare "init() \x7b\x7d") := by
  have neutral (access : Access) : Neutral (access.modifier ++ "init() \x7b\x7d") := by
    cases access <;> exact ⟨⟨by decide, by decide⟩, by decide, by decide⟩
  exact neutral heading.access

theorem memberwiseInit_steady (heading : Heading) {properties : List Property}
    (plain : ∀ property ∈ properties, property.IsPlain) :
    Steady (memberwiseInit heading properties) := by
  unfold memberwiseInit
  split
  · exact .single (emptyInit_neutral heading)
  · have parameters : Plain (", ".intercalate (properties.map Property.parameter)) := by
      refine intercalate_plain fun text listed => ?_
      obtain ⟨property, found, rfl⟩ := List.mem_map.mp listed
      exact (plain property found).parameter
    refine .block (Plain.passed ?_).opens (.map fun property listed => ?_)
    · exact heading.declare_plain ((Plain.append (by decide) parameters).append (by decide))
    · exact (assignment_plain (plain property listed).name).passed.neutral

namespace Alternative.IsPlain

variable {alternative : Alternative}

theorem propertyLine (plain : alternative.IsPlain) (heading : Heading) :
    Neutral (Alternative.propertyLine heading alternative) :=
  (heading.declare_plain ((Plain.append (by decide)
    (annotated_plain plain.property plain.payload)).append (by decide))).passed.neutral

theorem initLines (plain : alternative.IsPlain) (heading : Heading) :
    Steady (Alternative.initLines heading alternative) := by
  refine .cons .blank (.block (Plain.passed ?_).opens (.single ?_))
  · exact heading.declare_plain ((Plain.append (by decide)
      (annotated_plain plain.property plain.payload)).append (by decide))
  · exact (assignment_plain plain.property).passed.neutral

theorem encodeLines (plain : alternative.IsPlain) : Steady alternative.encodeLines := by
  refine .block (Plain.passed (Plain.append (by decide) plain.property)).opens ?_
  exact .cons (Plain.passed (by decide)).neutral (.single (Plain.passed (by decide)).neutral)

end Alternative.IsPlain

theorem Attempt.lines_steady {attempt : Attempt}
    (plain : ∀ alternative, attempt = .decode alternative → alternative.IsPlain) :
    Steady attempt.lines := by
  cases attempt with
  | null =>
      exact .block (Plain.passed (by decide)).opens (.single (Plain.passed (by decide)).neutral)
  | decode alternative =>
      have facts := plain alternative rfl
      refine .block (Plain.passed ?_).opens (.cons (Plain.passed ?_).neutral
        (.single (Plain.passed (by decide)).neutral))
      · exact (Plain.append (by decide) facts.payload.text).append (by decide)
      · exact (Plain.append (by decide) facts.property).append (by decide)

theorem decoderLines_steady (heading : Heading) {attempts : List Attempt}
    (plain : ∀ alternative, .decode alternative ∈ attempts → alternative.IsPlain) :
    Steady (decoderLines heading attempts) := by
  have throws : Passed ("throw DecodingError.dataCorruptedError(in: container, debugDescription: " ++
      literal ("No alternative of " ++ heading.name ++ " matched the payload") ++ ")") :=
    ((Plain.passed (by decide)).append (literal_passed _)).append (Plain.passed (by decide))
  refine .cons .blank (.block (Plain.passed (heading.declare_plain (by decide))).opens ?_)
  refine .cons (Plain.passed (by decide)).neutral (Steady.append (.flatMap ?_) (.single throws.neutral))
  rintro attempt listed
  exact Attempt.lines_steady fun alternative same => plain alternative (same ▸ listed)

theorem encoderLines_steady (heading : Heading) {alternatives : List Alternative}
    (plain : ∀ alternative ∈ alternatives, alternative.IsPlain) :
    Steady (encoderLines heading alternatives) := by
  refine .cons .blank (.block (Plain.passed (heading.declare_plain (by decide))).opens ?_)
  refine .cons (Plain.passed (by decide)).neutral (Steady.append (.flatMap ?_)
    (.single (Plain.passed (by decide)).neutral))
  exact fun alternative listed => (plain alternative listed).encodeLines

theorem modelLines_steady {models : List (Model.LocalModel Declaration)}
    (nested : ∀ model ∈ models, Steady model.definition.lines) :
    Steady (Declaration.modelLines models) := by
  induction models with
  | nil => exact .nil
  | cons model more ih =>
      obtain ⟨first, later⟩ := List.forall_mem_cons.mp nested
      cases more with
      | nil => exact first
      | cons second others => exact first.append (.cons .blank (ih later))

theorem record_steady {properties : List Property} {models : List (Model.LocalModel Declaration)}
    (plain : heading.IsPlain) (members : ∀ property ∈ properties, property.IsPlain)
    (nested : ∀ model ∈ models, Steady model.definition.lines) :
    Steady (Declaration.record heading properties models).lines := by
  rw [Declaration.lines]
  refine (docComment_steady _).append (.block plain.structLine.passed.opens ?_)
  refine Steady.append (Steady.append (Steady.append (.flatMap ?_) ?_) ?_) (.cons .blank ?_)
  · exact fun property listed => (members property listed).lines heading
  · exact .afterBlank (modelLines_steady nested)
  · exact codingKeys_steady members
  · exact memberwiseInit_steady heading members

theorem choice_steady {alternatives : List Alternative} {attempts : List Attempt}
    {models : List (Model.LocalModel Declaration)} (plain : heading.IsPlain)
    (members : ∀ alternative ∈ alternatives, alternative.IsPlain)
    (attempted : ∀ alternative, .decode alternative ∈ attempts → alternative.IsPlain)
    (nested : ∀ model ∈ models, Steady model.definition.lines) :
    Steady (Declaration.choice heading alternatives attempts models).lines := by
  rw [Declaration.lines]
  refine (docComment_steady _).append (.block plain.structLine.passed.opens ?_)
  refine Steady.append (Steady.append (Steady.append (Steady.append (.map ?_) ?_) (.flatMap ?_)) ?_) ?_
  · exact fun alternative listed => (members alternative listed).propertyLine heading
  · exact .afterBlank (modelLines_steady nested)
  · exact fun alternative listed => (members alternative listed).initLines heading
  · exact decoderLines_steady heading attempted
  · exact encoderLines_steady heading members

theorem enumeration_steady {cases : List EnumCase} (plain : heading.IsPlain)
    (labels : ∀ enumCase ∈ cases, Plain enumCase.label) :
    Steady (Declaration.enumeration heading cases).lines := by
  rw [Declaration.lines]
  refine (docComment_steady _).append (.block plain.enumLine.passed.opens (.map ?_))
  intro enumCase listed
  refine (Passed.append (Plain.passed ?_) (literal_passed _)).neutral
  exact (Plain.append (by decide) (labels enumCase listed)).append (by decide)

end

/-! ## Classes -/

section

variable {address : String} {style : Style} {type : TypeExpr}

theorem AddressStep.text_passed (plain : Plain address) (step : AddressStep) :
    Passed (step.text address) := by
  have way : Plain step.way.method := by cases step.way <;> decide
  have called : Plain (address ++ "." ++ step.way.method ++ "(") :=
    ((plain.append (by decide)).append way).append (by decide)
  exact (called.passed.append (literal_passed _)).append (Plain.passed (by decide))

theorem optionNil_plain (type : TypeExpr) : Plain (if type.isOptional then " = nil" else "") := by
  split <;> decide

theorem Method.parameter_plain {method : Method} (plain : ∀ type ∈ method.types, type.IsPlain) :
    Plain method.parameter := by
  unfold Method.parameter
  split
  · decide
  · next type given =>
    have listed : type ∈ method.types := List.mem_append_left _ (by simp [given])
    exact (annotated_plain (by decide) (plain type listed)).append (optionNil_plain type)

theorem Method.result_plain {method : Method} (plain : ∀ type ∈ method.types, type.IsPlain) :
    Plain method.result := by
  have output (type : TypeExpr) (given : method.output = some type) : Plain type.text :=
    (plain type (List.mem_append_right _ (by simp [given]))).text
  unfold Method.result
  split
  · refine (Plain.append (by decide) ?_).append (by decide)
    cases given : method.output with
    | none => decide
    | some type => exact output type given
  · next _ type given _ => exact Plain.append (by decide) (output type given)
  · decide

theorem Method.callStart_plain (method : Method) : Plain method.callStart := by
  unfold Method.callStart
  split <;> decide

theorem Method.arguments_passed (method : Method) (depth : Nat) : Passed (method.arguments depth) := by
  have input : Plain (if method.input.isSome then "input" else "TRPCClient.EmptyObject()") := by
    split <;> decide
  have address := AddressStep.text_passed (by decide : Plain "url") (.after depth method.key)
  exact (((Plain.passed (by decide)).append address).append (Plain.passed (by decide))).append
    input.passed

theorem Method.lines_steady {method : Method} (plain : ∀ type ∈ method.types, type.IsPlain)
    (style : Style) (depth : Nat) : Steady (method.lines style depth) := by
  have sender : Plain (Method.sender method.kind) := by cases method.kind <;> decide
  have call := ((((Plain.passed method.callStart_plain).append
    (Plain.passed (by decide : Plain "TRPCClient.shared."))).append sender.passed).append
    (Plain.passed (by decide : Plain "("))).append (method.arguments_passed depth)
  have head := ((((modifier_plain style.access).append (by decide : Plain "func ")).append
    (memberName_plain method.key)).append (by decide : Plain "(")).append
    (Method.parameter_plain plain)
  refine (docComment_steady _).append (.block (Plain.passed ?_).opens (.single ?_))
  · exact (head.append (by decide)).append (Method.result_plain plain)
  · exact (call.append (Plain.passed (by decide))).neutral

theorem rootMembers_steady (style : Style) {name : String} (plain : Plain name) :
    Steady (rootMembers style name) := by
  have access := modifier_plain style.access
  have absent : Plain (if style.shared then "? = nil" else "") := by split <;> decide
  have url : Steady (Lines.block "fileprivate var url: URL" ["baseUrl"]) :=
    .block (Plain.passed (by decide)).opens (.single (Plain.passed (by decide)).neutral)
  have middlewares :
      Steady (Lines.block "fileprivate var middlewares: [TRPCMiddleware]" ["baseMiddlewares"]) :=
    .block (Plain.passed (by decide)).opens (.single (Plain.passed (by decide)).neutral)
  unfold rootMembers
  refine Steady.append (Steady.append (Steady.append (Steady.append (Steady.append (Steady.append ?_ ?_)
    url) (.single .blank)) middlewares) (.single .blank)) ?_
  · split
    · refine .cons (Plain.passed ?_).neutral (.cons .blank (.single (Plain.passed ?_).neutral))
      · exact ((access.append (by decide)).append plain).append (by decide)
      · exact access.append (by decide)
    · exact .single (Plain.passed (by decide)).neutral
  · exact .cons (Plain.passed (by decide)).neutral (.single .blank)
  · refine .block (Plain.passed ?_).opens (.cons (Plain.passed (by decide)).neutral
      (.single (Plain.passed (by decide)).neutral))
    exact ((access.append (by decide)).append absent).append (by decide)

theorem spaceMembers_steady (depth : Nat) (segment : String) :
    Steady (spaceMembers depth segment) := by
  have address := AddressStep.text_passed (by decide : Plain "clientData.url") (.after depth segment)
  have url : Steady (Lines.block "fileprivate var url: URL"
      [(AddressStep.after depth segment).text "clientData.url"]) :=
    .block (Plain.passed (by decide)).opens (.single address.neutral)
  have middlewares : Steady
      (Lines.block "fileprivate var middlewares: [TRPCMiddleware]" ["clientData.middlewares"]) :=
    .block (Plain.passed (by decide)).opens (.single (Plain.passed (by decide)).neutral)
  have start : Steady ["fileprivate let clientData: TRPCClientData", ""] :=
    .cons (Plain.passed (by decide)).neutral (.single .blank)
  unfold spaceMembers
  refine Steady.append (Steady.append (Steady.append (Steady.append (Steady.append start url)
    (.single .blank)) middlewares) (.single .blank)) ?_
  exact .block (Plain.passed (by decide)).opens (.single (Plain.passed (by decide)).neutral)

namespace RouteClass

/-- A class that is balanced wherever it stands, and whose name is plain. -/
structure IsSteady (cls : RouteClass) : Prop where
  name : Plain cls.name
  lines : ∀ style depth, Steady (cls.lines style depth)

theorem accessorLines_steady (style : Style) {child : RouteClass} (plain : Plain child.name) :
    Steady (accessorLines style child) := by
  have field := memberName_plain child.segment
  refine .cons (Plain.passed ?_).neutral (.block (Plain.passed ?_).opens (.single (Plain.passed ?_).neutral))
  · exact (((Plain.append (by decide) field).append (by decide)).append plain).append (by decide)
  · exact ((((modifier_plain style.access).append (by decide)).append field).append (by decide)).append
      plain
  · exact Plain.append (by decide) field

theorem accessors_steady (style : Style) {children : List RouteClass}
    (below : ∀ child ∈ children, child.IsSteady) : Steady (accessors style children) := by
  unfold accessors
  split
  · exact .nil
  · exact Steady.append (.flatMap fun child listed => accessorLines_steady style (below child listed).name)
      (.single .blank)

/-- A class is balanced when the models, the types and the classes in it are. -/
theorem isSteady {name segment : String} {models : List (Model.LocalModel Declaration)}
    {methods : List Method} {children : List RouteClass} (plain : Plain name)
    (nested : ∀ model ∈ models, Steady model.definition.lines)
    (types : ∀ method ∈ methods, ∀ type ∈ method.types, type.IsPlain)
    (below : ∀ child ∈ children, child.IsSteady) :
    IsSteady ⟨name, segment, models, methods, children⟩ where
  name := plain
  lines style depth := by
    have head : Plain (style.access.modifier ++ "class " ++ name ++ ": TRPCClientData") :=
      (((modifier_plain _).append (by decide)).append plain).append (by decide)
    have block {members : Lines} (steady : Steady members) :
        Steady (Lines.block (style.access.modifier ++ "class " ++ name ++ ": TRPCClientData")
          (accessors style children ++ members ++ Lines.afterBlank (Declaration.modelLines models) ++
            methods.flatMap (fun method => "" :: method.lines style depth) ++
            childLines style (depth + 1) children)) := by
      rw [childLines_eq_flatMap]
      refine .block head.passed.opens (Steady.append (Steady.append (Steady.append (Steady.append
        (accessors_steady style below) steady) (.afterBlank (modelLines_steady nested)))
        (.flatMap fun method listed => ?_)) (.flatMap fun child listed => ?_))
      · exact .cons .blank (Method.lines_steady (types method listed) style depth)
      · exact .cons .blank ((below child listed).lines style (depth + 1))
    cases depth with
    | zero => exact block (rootMembers_steady style plain)
    | succ above => exact block (spaceMembers_steady above segment)

end RouteClass

end

end RouterClient.Code
