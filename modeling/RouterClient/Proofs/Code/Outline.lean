import RouterClient.Proofs.Code.Address
import RouterClient.Proofs.Code.Identifiers

/-! # Outlines

A declaration is written as a comment, the line that opens it, its members, the models nested in it and its
routines; a class as its members, its models, its methods and the classes nested in it.  The names that
both declare are read off these lines.
-/

namespace RouterClient.Code

open Model (LocalModel LocalModels)

/-- The name that a line declares as a property or as a case. -/
def member? : String → Option String :=
  declared? ["var", "let", "case"]

/-! ## Lines -/

section

variable {name : String}

theorem docComment?_head (description : Option String) :
    ∀ line ∈ docComment? description, line.toList.head? = some '/' := by
  cases description with
  | none => nofun
  | some description =>
      intro line listed
      obtain ⟨text, _, rfl⟩ := List.mem_map.mp listed
      simp [String.toList_append]

theorem docComment?_declarations (description : Option String) :
    (docComment? description).filterMap declaration? = [] := by
  refine List.filterMap_eq_nil_iff.mpr fun line written => ?_
  obtain ⟨rest, split⟩ := List.head?_eq_some_iff.mp (docComment?_head _ line written)
  exact declaration?_other "/" ⟨rest, split.symm⟩ (by decide)

theorem declaration?_init (access : Access) (text : String) :
    declaration? (access.modifier ++ ("init(" ++ text)) = none := by
  rw [declaration?_access]
  exact declaration?_other "init(" ⟨_, String.toList_append.symm⟩ (by decide)

theorem declaration?_self (name : String) (rest : String) :
    declaration? ("self." ++ name ++ rest) = none :=
  declaration?_other "self." ⟨name.toList ++ rest.toList, by simp [String.toList_append]⟩ (by decide)

theorem declaration?_assignment (name : String) : declaration? (Property.assignment name) = none := by
  rw [Property.assignment, String.append_assoc]
  exact declaration?_self name _

theorem declaration?_property (access : Access) (names : ∀ c ∈ name.toList, isNameChar c = true)
    (rest : String) :
    declaration? (access.modifier ++ ("var " ++ (name ++ ": " ++ rest))) = some ("var", name) := by
  rw [declaration?_access]
  refine declaration?_keyword "var" (": " ++ rest).toList (by decide) names ?_ ?_
  · simp [String.toList_append, isNameChar, isWordChar]
  · simp [String.toList_append]

theorem declaration?_raw (names : ∀ c ∈ name.toList, isNameChar c = true) (raw : String) :
    declaration? ("case " ++ name ++ " = " ++ literal raw) = some ("case", name) := by
  refine declaration?_keyword "case" (" = " ++ literal raw).toList (by decide) names ?_ ?_
  · simp [String.toList_append, isNameChar, isWordChar]
  · simp [String.toList_append]

theorem declaration?_codingKey {property : Property}
    (names : ∀ c ∈ property.name.toList, isNameChar c = true) :
    declaration? property.codingKey = some ("case", property.name) := by
  unfold Property.codingKey
  split
  · exact declaration?_keyword "case" [] (by decide) names nofun (by simp [String.toList_append])
  · exact declaration?_raw names _

/-- The head line of a type, up to what the type conforms to. -/
theorem type?_head (access : Access) (word rest : String) (keyword : word ∈ ["struct", "enum", "class"])
    (names : ∀ c ∈ name.toList, isNameChar c = true) {line : String}
    (split : line.toList = word.toList ++ ' ' :: (name.toList ++ (": " ++ rest).toList)) :
    type? (access.modifier ++ line) = some name := by
  have known : word ∈ keywords := (by decide : ["struct", "enum", "class"] ⊆ keywords) keyword
  have ends : ∀ c ∈ (": " ++ rest).toList.head?, isNameChar c = false := by
    simp [String.toList_append, isNameChar, isWordChar]
  have found := declaration?_keyword word (": " ++ rest).toList known names ends split
  have kind : ["struct", "enum", "class"].contains word = true := List.contains_iff_mem.mpr keyword
  rw [type?, declared?, declaration?_access, found, Option.filter_some, if_pos kind, Option.map_some]

end

/-- A block declares what its head line does, and what the lines in it do. -/
theorem block_declarations (head : String) (body : Lines) :
    (Lines.block head body).filterMap declaration? =
      (declaration? (head ++ " \x7b")).toList ++ body.filterMap declaration? := by
  have closed : declaration? "\x7d" = none := rfl
  rw [Lines.block, List.filterMap_append, List.filterMap_cons_none closed, List.filterMap_nil,
    List.append_nil, List.filterMap_cons]
  cases declaration? (head ++ " \x7b") <;> rfl

theorem blank_declarations (lines : Lines) :
    ("" :: lines).filterMap declaration? = lines.filterMap declaration? :=
  List.filterMap_cons_none rfl

/-! ## Declarations -/

section

variable (heading : Heading) {properties : List Property} {alternatives : List Alternative}

/-- The coding keys are an enum with a case for every property. -/
theorem codingKeys_declarations
    (names : ∀ property ∈ properties, ∀ c ∈ property.name.toList, isNameChar c = true) :
    (codingKeys properties).filterMap declaration? =
      if properties.any fun property => property.name ≠ property.key then
        ("enum", "CodingKeys") :: properties.map fun property => ("case", property.name)
      else [] := by
  have head : declaration? ("enum CodingKeys: String, CodingKey" ++ " \x7b") =
      some ("enum", "CodingKeys") := by
    decide +kernel
  have cases : (properties.map Property.codingKey).filterMap declaration? =
      properties.map fun property => ("case", property.name) := by
    rw [List.filterMap_map, ← List.filterMap_eq_map]
    exact List.filterMap_congr fun property listed => declaration?_codingKey (names property listed)
  rw [codingKeys]
  split
  · rw [blank_declarations, block_declarations, head, cases]
    rfl
  · rfl

theorem declaration?_declare_init (text rest : String) :
    declaration? (heading.declare ("init(" ++ text) ++ rest) = none := by
  rw [Heading.declare, String.append_assoc, String.append_assoc]
  exact declaration?_init heading.access (text ++ rest)

theorem memberwiseInit_declarations (properties : List Property) :
    (memberwiseInit heading properties).filterMap declaration? = [] := by
  have assigned : (properties.map fun property =>
      Property.assignment property.name).filterMap declaration? = [] := by
    rw [List.filterMap_eq_nil_iff, List.forall_mem_map]
    exact fun property _ => declaration?_assignment property.name
  unfold memberwiseInit
  split
  · have empty := declaration?_init heading.access ") \x7b\x7d"
    exact List.filterMap_cons_none empty
  · rw [block_declarations, assigned, String.append_assoc, declaration?_declare_init]
    rfl

theorem initLines_declarations (alternative : Alternative) :
    (alternative.initLines heading).filterMap declaration? = [] := by
  have assigned := declaration?_assignment alternative.property
  rw [Alternative.initLines, blank_declarations, block_declarations, String.append_assoc,
    declaration?_declare_init, List.filterMap_cons_none assigned]
  rfl

theorem attempt_declarations (attempt : Attempt) : attempt.lines.filterMap declaration? = [] := by
  cases attempt with
  | null => decide +kernel
  | decode alternative =>
      have head : declaration? ("if let value = try? container.decode(" ++ alternative.payload.text ++
          ".self)" ++ " \x7b") = none :=
        declaration?_other "if" ⟨_, by simp only [String.toList_append, List.append_assoc]; rfl⟩
          (by decide)
      have assigned := declaration?_self alternative.property " = value"
      have returns : declaration? "return" = none := by decide +kernel
      rw [Attempt.lines, block_declarations, head, List.filterMap_cons_none assigned,
        List.filterMap_cons_none returns]
      rfl

theorem decoderLines_declarations (attempts : List Attempt) :
    (decoderLines heading attempts).filterMap declaration? = [("let", "container")] := by
  have head : declaration? (heading.declare "init(from decoder: Decoder) throws" ++ " \x7b") = none :=
    declaration?_declare_init heading "from decoder: Decoder) throws" " \x7b"
  have start : declaration? "let container = try decoder.singleValueContainer()" =
      some ("let", "container") := by
    decide +kernel
  have tried : (attempts.flatMap Attempt.lines).filterMap declaration? = [] := by
    rw [List.filterMap_flatMap, List.flatMap_eq_nil_iff]
    exact fun attempt _ => attempt_declarations attempt
  have throws (text : String) : declaration?
      ("throw DecodingError.dataCorruptedError(in: container, debugDescription: " ++ text ++ ")") =
        none :=
    declaration?_other "throw" ⟨_, by simp only [String.toList_append, List.append_assoc]; rfl⟩
      (by decide)
  rw [decoderLines, blank_declarations, block_declarations, head, List.filterMap_append,
    List.filterMap_cons_some start, tried, List.filterMap_cons_none (throws _)]
  rfl

theorem encoderLines_declarations (alternatives : List Alternative) :
    (encoderLines heading alternatives).filterMap declaration? =
      [("func", "encode"), ("var", "container")] := by
  have head : declaration? (heading.declare "func encode(to encoder: Encoder) throws" ++ " \x7b") =
      some ("func", "encode") := by
    rw [Heading.declare, String.append_assoc, declaration?_access]
    decide +kernel
  have start : declaration? "var container = encoder.singleValueContainer()" =
      some ("var", "container") := by
    decide +kernel
  have tested : (alternatives.flatMap Alternative.encodeLines).filterMap declaration? = [] := by
    rw [List.filterMap_flatMap, List.flatMap_eq_nil_iff]
    intro alternative _
    have head : declaration? ("if let value = " ++ alternative.property ++ " \x7b") = none :=
      declaration?_other "if" ⟨_, by simp only [String.toList_append, List.append_assoc]; rfl⟩
        (by decide)
    have body : ["try container.encode(value)", "return"].filterMap declaration? = [] := by
      decide +kernel
    rw [Alternative.encodeLines, block_declarations, head, body]
    rfl
  have null : ["try container.encodeNil()"].filterMap declaration? = [] := by
    decide +kernel
  rw [encoderLines, blank_declarations, block_declarations, head, List.filterMap_append,
    List.filterMap_cons_some start, tested, null]
  rfl

theorem properties_declarations
    (names : ∀ property ∈ properties, ∀ c ∈ property.name.toList, isNameChar c = true) :
    (properties.flatMap (Property.lines heading)).filterMap declaration? =
      properties.map fun property => ("var", property.name) := by
  rw [List.filterMap_flatMap, List.map_eq_flatMap]
  refine List.flatMap_congr fun property listed => ?_
  have stored := declaration?_property heading.access (names property listed) property.type.text
  rw [Property.lines, List.filterMap_append, docComment?_declarations, Heading.declare, annotated,
    List.filterMap_cons_some stored]
  rfl

theorem alternatives_declarations
    (names : ∀ alternative ∈ alternatives, ∀ c ∈ alternative.property.toList, isNameChar c = true) :
    (alternatives.map (Alternative.propertyLine heading)).filterMap declaration? =
      alternatives.map fun alternative => ("var", alternative.property) := by
  rw [List.filterMap_map, ← List.filterMap_eq_map]
  refine List.filterMap_congr fun alternative listed => ?_
  have stored := declaration?_property heading.access (names alternative listed)
    (alternative.payload.text ++ "?")
  simpa [Alternative.propertyLine, Heading.declare, annotated, String.append_assoc] using stored

theorem cases_declarations {cases : List EnumCase}
    (names : ∀ enumCase ∈ cases, ∀ c ∈ enumCase.label.toList, isNameChar c = true) :
    (cases.map EnumCase.line).filterMap declaration? =
      cases.map fun enumCase => ("case", enumCase.label) := by
  rw [List.filterMap_map, ← List.filterMap_eq_map]
  exact List.filterMap_congr fun enumCase listed => declaration?_raw (names enumCase listed) enumCase.raw

end

namespace Declaration

/-- The line that opens a declaration, up to its brace. -/
def headLine : Declaration → String
  | record heading _ _ | choice heading _ _ _ => heading.structLine
  | enumeration heading _ => heading.enumLine

/-- The lines of the properties or cases of a declaration. -/
def memberLines : Declaration → Lines
  | record heading properties _ => properties.flatMap (Property.lines heading)
  | choice heading alternatives _ _ => alternatives.map (Alternative.propertyLine heading)
  | enumeration _ cases => cases.map EnumCase.line

/-- The lines of the coding keys, the initializers and what else stands behind the models that are
nested in a declaration. -/
def routineLines : Declaration → Lines
  | record heading properties _ => codingKeys properties ++ "" :: memberwiseInit heading properties
  | choice heading alternatives attempts _ =>
    alternatives.flatMap (Alternative.initLines heading) ++ decoderLines heading attempts ++
      encoderLines heading alternatives
  | enumeration _ _ => []

theorem lines_eq (declaration : Declaration) :
    declaration.lines = docComment? declaration.heading.description ++
      Lines.block declaration.headLine
        (declaration.memberLines ++
          Lines.afterBlank (Lines.spaced (declaration.models.map fun model => model.definition.lines)) ++
            declaration.routineLines) := by
  rw [← modelLines_eq]
  cases declaration with
  | record => simp [lines, heading, headLine, memberLines, models, routineLines]
  | choice => simp [lines, heading, headLine, memberLines, models, routineLines]
  | enumeration => simp [lines, heading, headLine, memberLines, models, routineLines, modelLines,
      Lines.afterBlank]

theorem afterBlank_written (lines : Lines) : lines <:+: Lines.afterBlank lines := by
  unfold Lines.afterBlank
  split
  · next empty => rw [List.isEmpty_iff.mp empty]
  · exact (List.suffix_cons _ _).isInfix

theorem modelLines_written (declaration : Declaration) :
    modelLines declaration.models <:+: declaration.lines := by
  refine (afterBlank_written _).trans ?_
  rw [lines_eq, ← modelLines_eq, Lines.block]
  refine ⟨docComment? declaration.heading.description ++
    (declaration.headLine ++ " \x7b") :: declaration.memberLines, declaration.routineLines ++ ["\x7d"], ?_⟩
  simp only [List.append_assoc, List.cons_append]

mutual

/-- Models that are nested in a declaration, at any depth, are written inside it. -/
theorem nested_lines {declaration : Declaration} {model : LocalModel Declaration}
    (inside : model ∈ declaration.nested) : model.definition.lines <:+: declaration.lines := by
  have written := modelLines_written declaration
  cases declaration with
  | record | choice => exact (nestedIn_lines inside).trans written
  | enumeration => cases inside

theorem nestedIn_lines {models : LocalModels Declaration} {model : LocalModel Declaration}
    (inside : model ∈ nestedIn models) : model.definition.lines <:+: modelLines models := by
  match models with
  | [] => cases inside
  | ⟨owner, name, definition⟩ :: more =>
      have first : definition.lines <:+: modelLines (⟨owner, name, definition⟩ :: more) := by
        cases more with
        | nil => exact List.infix_rfl
        | cons => exact (List.prefix_append _ _).isInfix
      have later : modelLines more <:+: modelLines (⟨owner, name, definition⟩ :: more) := by
        cases more with
        | nil => exact List.nil_infix
        | cons =>  exact ((List.suffix_cons _ _).trans (List.suffix_append _ _)).isInfix
      rw [nestedIn, List.mem_cons, List.mem_append] at inside
      rcases inside with rfl | inside | inside
      · exact first
      · exact (nested_lines inside).trans first
      · exact (nestedIn_lines inside).trans later

end

theorem everything_lines {declaration inner : Declaration} (inside : inner ∈ declaration.everything) :
    inner.lines <:+: declaration.lines := by
  rw [everything, List.mem_cons, List.mem_map] at inside
  rcases inside with rfl | ⟨model, nested, rfl⟩
  · exact List.infix_rfl
  · exact nested_lines nested

mutual

theorem models_nested {declaration : Declaration} {outer inner : LocalModel Declaration}
    (inside : outer ∈ declaration.nested) (direct : inner ∈ outer.definition.models) :
    inner ∈ declaration.nested := by
  cases declaration with
  | record | choice => exact models_nestedIn inside direct
  | enumeration => cases inside

theorem models_nestedIn {models : LocalModels Declaration} {outer inner : LocalModel Declaration}
    (inside : outer ∈ nestedIn models) (direct : inner ∈ outer.definition.models) :
    inner ∈ nestedIn models := by
  match models with
  | [] => cases inside
  | ⟨owner, name, definition⟩ :: more =>
      rw [nestedIn, List.mem_cons, List.mem_append] at inside ⊢
      rcases inside with rfl | inside | inside
      · exact .inr (.inl (mem_nested.mpr ⟨inner, direct, List.mem_cons_self⟩))
      · exact .inr (.inl (models_nested inside direct))
      · exact .inr (.inr (models_nestedIn inside direct))

end

/-- The models that are nested in something nested are nested as well. -/
theorem models_everything {declaration inner : Declaration} {model : LocalModel Declaration}
    (inside : inner ∈ declaration.everything) (direct : model ∈ inner.models) :
    model.definition ∈ declaration.everything := by
  rw [everything, List.mem_cons, List.mem_map] at inside ⊢
  rcases inside with rfl | ⟨outer, nested, rfl⟩
  · exact .inr ⟨model, mem_nested.mpr ⟨model, direct, List.mem_cons_self⟩, rfl⟩
  · exact .inr ⟨model, models_nested nested direct, rfl⟩

/-- The head line declares a type under the name of the heading. -/
theorem type?_headLine {declaration : Declaration}
    (names : ∀ c ∈ declaration.heading.name.toList, isNameChar c = true) :
    type? (declaration.headLine ++ " \x7b") = some declaration.heading.name := by
  cases declaration with
  | record heading | choice heading =>
      rw [headLine, Heading.structLine, Heading.declare, String.append_assoc]
      exact type?_head heading.access "struct" (heading.conformance ++ " \x7b") (by decide) names
        (by simp [String.toList_append, Declaration.heading])
  | enumeration heading =>
      rw [headLine, Heading.enumLine, Heading.declare, String.append_assoc]
      exact type?_head heading.access "enum" ("String, " ++ heading.conformance ++ " \x7b") (by decide)
        names (by simp [String.toList_append, Declaration.heading])

/-- The word that the members of a declaration are declared with. -/
def memberKeyword : Declaration → String
  | record _ _ _ | choice _ _ _ _ => "var"
  | enumeration _ _ => "case"

theorem memberLines_declarations {declaration : Declaration}
    (names : ∀ name ∈ declaration.memberNames, ∀ c ∈ name.toList, isNameChar c = true) :
    declaration.memberLines.filterMap declaration? =
      declaration.memberNames.map fun name => (declaration.memberKeyword, name) := by
  cases declaration with
  | record heading properties =>
      rw [memberLines, memberNames, properties_declarations heading (List.forall_mem_map.mp names),
        List.map_map]
      rfl
  | choice heading alternatives =>
      rw [memberLines, memberNames, alternatives_declarations heading (List.forall_mem_map.mp names),
        List.map_map]
      rfl
  | enumeration _ cases =>
      rw [memberLines, memberNames, cases_declarations (List.forall_mem_map.mp names), List.map_map]
      rfl

/-- The only type among the routines is the enum of the coding keys. -/
theorem routineLines_types {declaration : Declaration}
    (names : ∀ name ∈ declaration.memberNames, ∀ c ∈ name.toList, isNameChar c = true) :
    declaration.routineLines.filterMap type? =
      if declaration.writesCodingKeys then ["CodingKeys"] else [] := by
  rw [type?, filterMap_declared?]
  cases declaration with
  | record heading properties =>
      rw [routineLines, List.filterMap_append, codingKeys_declarations (List.forall_mem_map.mp names),
        blank_declarations, memberwiseInit_declarations, List.append_nil, writesCodingKeys]
      split <;> simp
  | choice heading alternatives attempts =>
      have chosen : (alternatives.flatMap (Alternative.initLines heading)).filterMap declaration? = [] := by
        rw [List.filterMap_flatMap, List.flatMap_eq_nil_iff]
        exact fun alternative _ => initLines_declarations heading alternative
      rw [routineLines, List.filterMap_append, List.filterMap_append, chosen, decoderLines_declarations,
        encoderLines_declarations]
      rfl
  | enumeration => rfl

/-- The head lines of the models nested in a declaration or a class. -/
def headLines (models : LocalModels Declaration) : Lines :=
  models.map fun model => model.definition.headLine ++ " \x7b"

theorem headLines_types {models : LocalModels Declaration}
    (names : ∀ name ∈ titles models, ∀ c ∈ name.toList, isNameChar c = true) :
    (headLines models).filterMap type? = titles models := by
  rw [headLines, List.filterMap_map, titles, ← List.filterMap_eq_map]
  exact List.filterMap_congr fun model listed => type?_headLine (List.forall_mem_map.mp names model listed)

/-- How a declaration is written: its parts in order, and the names that they declare.  Those are the name
of the declaration, the names of its properties or cases, and of the types directly in it. -/
structure Written (declaration : Declaration) : Prop where
  lines : declaration.lines = docComment? declaration.heading.description ++
    ((declaration.headLine ++ " \x7b") ::
      (declaration.memberLines ++
        Lines.afterBlank (Lines.spaced (declaration.models.map fun model => model.definition.lines)) ++
          declaration.routineLines) ++
      ["\x7d"])
  name : type? (declaration.headLine ++ " \x7b") = some declaration.heading.name
  members : declaration.memberLines.filterMap member? = declaration.memberNames
  properties : declaration.memberLines.filterMap property? = declaration.propertyNames
  types : (declaration.memberLines ++ headLines declaration.models ++ declaration.routineLines).filterMap
    type? = declaration.typeNames

theorem written_of_nameChars {declaration : Declaration}
    (own : ∀ c ∈ declaration.heading.name.toList, isNameChar c = true)
    (members : ∀ name ∈ declaration.memberNames, ∀ c ∈ name.toList, isNameChar c = true)
    (nested : ∀ name ∈ titles declaration.models, ∀ c ∈ name.toList, isNameChar c = true) :
    declaration.Written where
  lines := lines_eq declaration
  name := type?_headLine own
  members := by
    rw [member?, filterMap_declared?_of_map _ (memberLines_declarations members)]
    cases declaration <;> rfl
  properties := by
    rw [property?, filterMap_declared?_of_map _ (memberLines_declarations members)]
    cases declaration <;> rfl
  types := by
    have none : declaration.memberLines.filterMap type? = [] := by
      rw [type?, filterMap_declared?_of_map _ (memberLines_declarations members)]
      cases declaration <;> rfl
    rw [List.filterMap_append, List.filterMap_append, none, headLines_types nested,
      routineLines_types members, List.nil_append, typeNames]

end Declaration

/-! ## Classes -/

/-- The call in a method declares nothing but the value that it drops. -/
theorem call_declarations (method : Method) (text : String) :
    ∀ found ∈ declaration? (method.callStart ++ "TRPCClient.shared." ++ text), found = ("let", "_") := by
  rw [Method.callStart.eq_def]
  split
  · have start : "TRPCClient".toList <+: ("" ++ "TRPCClient.shared." ++ text).toList :=
      ⟨_, by simp only [String.toList_append]; rfl⟩
    rw [declaration?_other "TRPCClient" start (by decide)]
    exact nofun
  · have start : "return".toList <+: ("return try await " ++ "TRPCClient.shared." ++ text).toList :=
      ⟨_, by simp only [String.toList_append, List.append_assoc]; rfl⟩
    rw [declaration?_other "return" start (by decide)]
    exact nofun
  · let rest := ": TRPCClient.EmptyObject = try await TRPCClient.shared." ++ text
    have dropped : declaration? ("let _: TRPCClient.EmptyObject = try await " ++ "TRPCClient.shared." ++
        text) = some ("let", "_") :=
      declaration?_keyword "let" rest.toList (by decide) (List.all_eq_true.mp (by decide))
        (by simp [rest, String.toList_append, isNameChar, isWordChar])
        (by simp [rest, String.toList_append])
    rw [dropped]
    exact fun _ listed => (Option.some.inj listed).symm

/-- A method declares a function under the name of its key, and no more than a constant in it. -/
theorem methodLines_declarations (style : Style) (depth : Nat) (method : Method) :
    ∃ within, (method.lines style depth).filterMap declaration? =
        ("func", memberName method.key) :: within ∧ ∀ found ∈ within, found = ("let", "_") := by
  have head : declaration? (style.access.modifier ++ "func " ++ memberName method.key ++ "(" ++
      method.parameter ++ ")" ++ method.result ++ " \x7b") = some ("func", memberName method.key) := by
    let rest := "(" ++ (method.parameter ++ (")" ++ (method.result ++ " \x7b")))
    simp only [String.append_assoc]
    rw [declaration?_access]
    refine declaration?_keyword "func" rest.toList (by decide) (memberName_nameChars _) ?_ ?_
    · simp [rest, String.toList_append, isNameChar, isWordChar]
    · simp [rest, String.toList_append]
  have found : (method.lines style depth).filterMap declaration? = ("func", memberName method.key) ::
      [method.callStart ++ "TRPCClient.shared." ++ Method.sender method.kind ++ "(" ++
        method.arguments depth ++ ")"].filterMap declaration? := by
    rw [Method.lines, List.filterMap_append, docComment?_declarations, block_declarations, head]
    rfl
  have call := call_declarations method (Method.sender method.kind ++ ("(" ++ (method.arguments depth ++ ")")))
  simp only [← String.append_assoc] at call
  refine ⟨_, found, fun value listed => ?_⟩
  obtain ⟨line, inside, read⟩ := List.mem_filterMap.mp listed
  rw [List.mem_singleton.mp inside] at read
  exact call value read

namespace RouteClass

/-- The line that opens a class, up to its brace. -/
def headLine (style : Style) (cls : RouteClass) : String :=
  style.access.modifier ++ "class " ++ cls.name ++ ": TRPCClientData"

/-- The lines of the methods of a class, each after a blank line. -/
def methodLines (style : Style) (depth : Nat) (cls : RouteClass) : Lines :=
  cls.methods.flatMap fun method => "" :: method.lines style depth

/-- The head lines of the classes nested in a class. -/
def childHeads (style : Style) (cls : RouteClass) : Lines :=
  cls.children.map fun child => child.headLine style ++ " \x7b"

theorem type?_headLine (style : Style) {cls : RouteClass}
    (names : ∀ c ∈ cls.name.toList, isNameChar c = true) :
    type? (cls.headLine style ++ " \x7b") = some cls.name := by
  rw [headLine, String.append_assoc, String.append_assoc, String.append_assoc]
  exact type?_head style.access "class" "TRPCClientData \x7b" (by decide) names
    (by simp [String.toList_append])

theorem method_functions (style : Style) (depth : Nat) (method : Method) :
    (method.lines style depth).filterMap function? = [memberName method.key] := by
  obtain ⟨within, found, values⟩ := methodLines_declarations style depth method
  have none : (within.filter fun found => ["func"].contains found.1) = [] :=
    List.filter_eq_nil_iff.mpr fun found listed => by simp [values found listed]
  rw [function?, filterMap_declared?, found, List.filter_cons_of_pos (by rfl), none]
  rfl

/-- The functions of a class are its methods, in order. -/
theorem methodLines_functions (style : Style) (depth : Nat) (cls : RouteClass) :
    (cls.methodLines style depth).filterMap function? =
      cls.methods.map fun method => memberName method.key := by
  rw [methodLines, List.filterMap_flatMap, List.map_eq_flatMap]
  refine List.flatMap_congr fun method _ => ?_
  rw [List.filterMap_cons_none (by rfl), method_functions]

theorem methodLines_types (style : Style) (depth : Nat) (cls : RouteClass) :
    (cls.methodLines style depth).filterMap type? = [] := by
  rw [methodLines, List.filterMap_flatMap, List.flatMap_eq_nil_iff]
  intro method _
  obtain ⟨within, found, values⟩ := methodLines_declarations style depth method
  rw [List.filterMap_cons_none (by rfl)]
  refine filterMap_declared?_eq_nil ?_
  rw [found, List.forall_mem_cons]
  exact ⟨by simp, fun found listed => by simp [values found listed]⟩

theorem memberLines_declared?_eq_nil (style : Style) (depth : Nat) (cls : RouteClass)
    {kinds : List String} (others : ∀ word ∈ ["var", "let"], word ∉ kinds) :
    (cls.memberLines style depth).filterMap (declared? kinds) = [] :=
  filterMap_declared?_eq_nil fun found listed => others _ (memberLines_kinds style depth cls found listed)

/-- How a class is written: its parts in order, and what they declare.  The head line declares the class,
the members are the accessors and what every class has, and each method's lines declare its function; no
other line of the class's own declares one. -/
structure Written (style : Style) (depth : Nat) (cls : RouteClass) : Prop where
  lines : cls.lines style depth = (cls.headLine style ++ " \x7b") ::
    (cls.memberLines style depth ++
      Lines.afterBlank (Lines.spaced (cls.models.map fun model => model.definition.lines)) ++
      cls.methodLines style depth ++
      cls.children.flatMap fun child => "" :: child.lines style (depth + 1)) ++
    ["\x7d"]
  name : type? (cls.headLine style ++ " \x7b") = some cls.name
  properties : (cls.memberLines style depth).filterMap property? =
    cls.accessorNames.flatMap (fun field => ["_" ++ field, field]) ++ plumbing style depth
  single (method : Method) : (method.lines style depth).filterMap function? = [memberName method.key]
  methods : (cls.memberLines style depth ++ cls.methodLines style depth).filterMap function? =
    cls.methods.map fun method => memberName method.key

theorem written_of_nameChars (style : Style) (depth : Nat) {cls : RouteClass}
    (names : ∀ c ∈ cls.name.toList, isNameChar c = true) : cls.Written style depth where
  lines := by
    rw [lines_eq, Declaration.modelLines_eq, childLines_eq_flatMap, ← List.append_assoc,
      ← List.append_assoc, Lines.block, headLine, methodLines]
  name := type?_headLine style names
  properties := propertyNames_eq style depth cls
  single := method_functions style depth
  methods := by
    rw [List.filterMap_append, function?, memberLines_declared?_eq_nil style depth cls (by decide),
      ← function?, methodLines_functions, List.nil_append]

theorem modelLines_written (style : Style) (depth : Nat) (cls : RouteClass) :
    Declaration.modelLines cls.models <:+: cls.lines style depth := by
  refine (Declaration.afterBlank_written _).trans ?_
  rw [lines_eq, Lines.block]
  refine ⟨(cls.headLine style ++ " \x7b") :: cls.memberLines style depth,
    cls.methodLines style depth ++ (childLines style (depth + 1) cls.children ++ ["\x7d"]), ?_⟩
  simp only [headLine, methodLines, List.append_assoc, List.cons_append]

/-- The lines directly in a class, with only the head lines of the models and the classes nested in it. -/
def ownLines (style : Style) (depth : Nat) (cls : RouteClass) : Lines :=
  cls.memberLines style depth ++ Declaration.headLines cls.models ++ cls.methodLines style depth ++
    cls.childHeads style

/-- The types that are declared directly in a class are its models and the classes of its namespaces. -/
theorem ownLines_types (style : Style) (depth : Nat) {cls : RouteClass}
    (names : ∀ name ∈ cls.typeNames, ∀ c ∈ name.toList, isNameChar c = true) :
    ((cls.ownLines style depth).filterMap type?).Perm cls.typeNames := by
  obtain ⟨children, models⟩ := List.forall_mem_append.mp names
  have members : (cls.memberLines style depth).filterMap type? = [] :=
    memberLines_declared?_eq_nil style depth cls (by decide)
  have heads : (cls.childHeads style).filterMap type? = cls.children.map RouteClass.name := by
    rw [childHeads, List.filterMap_map, ← List.filterMap_eq_map]
    exact List.filterMap_congr fun child listed =>
      type?_headLine style (List.forall_mem_map.mp children child listed)
  rw [ownLines, List.filterMap_append, List.filterMap_append, List.filterMap_append, members,
    Declaration.headLines_types models, methodLines_types, heads, List.nil_append, List.append_nil,
    typeNames]
  exact List.perm_append_comm

end RouteClass

end RouterClient.Code
