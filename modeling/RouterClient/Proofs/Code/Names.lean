import Mathlib.Data.List.Chain
import Mathlib.Data.List.Nodup
import RouterClient.Proofs.Code.Bodies
import RouterClient.Proofs.Code.Declared

/-! # Names that a body declares

A struct declares its properties, the models nested in it and, where a property is not named like its key,
the enum of its coding keys.  A route class declares a class and an accessor with its backing variable for
every namespace below it, its models and the members that every class has.  No member is called like the
backing variable of an accessor, so what can clash is what is made from keys of the document.
-/

namespace RouterClient.Code

open Model (LocalModel LocalModels)

section

variable {c : Char} {cs rest : List Char}

/-- In camel case an underscore stands before a digit or at the end. -/
theorem camel_scores (pending : Bool) (cs : List Char) :
    (camel pending cs).IsChain fun c next => c = '_' → next.isDigit = true := by
  have apart {c : Char} (word : isWordChar c = true) : c ≠ '_' := by
    rintro rfl
    cases word
  fun_induction camel pending cs with
  | case1 => exact .singleton _
  | case2 => exact .nil
  | case3 c rest word letter ih =>
      have upper := apart (wordChar_facts word).1
      exact List.isChain_cons.mpr ⟨fun _ _ score => absurd score upper, ih⟩
  | case4 c rest word letter ih =>
      have digit : c.isDigit = true := by simpa [isWordChar, letter] using word
      refine List.isChain_cons_cons.mpr ⟨fun _ => digit, List.isChain_cons.mpr ⟨?_, ih⟩⟩
      exact fun _ _ score => absurd score (apart word)
  | case5 _ c rest word _ ih =>
      exact List.isChain_cons.mpr ⟨fun _ _ score => absurd score (apart word), ih⟩
  | case6 _ c rest _ ih => exact ih

theorem escapeDigit_head (cs : List Char) :
    ∃ c rest, escapeDigit cs = c :: rest ∧ c.isDigit = false := by
  unfold escapeDigit
  split
  · exact ⟨'_', [], rfl, by decide⟩
  · next c rest =>
    split
    · exact ⟨'_', c :: rest, rfl, by decide⟩
    · next letter => exact ⟨c, rest, rfl, by simpa using letter⟩

end

/-- The characters of a member's name before a reserved name is told apart. -/
theorem memberName_cases (text : String) :
    (String.ofList (escapeDigit (camelize text.toList)) ∉ reservedMembers ∧
      (memberName text).toList = escapeDigit (camelize text.toList)) ∨
    String.ofList (escapeDigit (camelize text.toList)) ∈ reservedMembers ∧
      (memberName text).toList = '_' :: escapeDigit (camelize text.toList) := by
  by_cases reserved : String.ofList (escapeDigit (camelize text.toList)) ∈ reservedMembers
  · exact .inr ⟨reserved, by simp [memberName, escapeReserved, reserved]⟩
  · exact .inl ⟨reserved, by simp [memberName, escapeReserved, reserved]⟩

/-- No member has a name that Swift reserves. -/
theorem memberName_not_reserved (text : String) : memberName text ∉ reservedMembers := by
  have lettered : ∀ word ∈ reservedMembers, word.toList.head? ≠ some '_' := by decide
  intro reserved
  rcases memberName_cases text with ⟨free, written⟩ | ⟨_, written⟩
  · rw [← written, String.ofList_toList] at free
    exact free reserved
  · exact lettered _ reserved (by rw [written]; rfl)

/-- The name of a member does not start with a digit. -/
theorem memberName_head (text : String) :
    ∃ c rest, (memberName text).toList = c :: rest ∧ c.isDigit = false := by
  obtain ⟨c, rest, split, letter⟩ := escapeDigit_head (camelize text.toList)
  rcases memberName_cases text with ⟨_, written⟩ | ⟨_, written⟩
  · exact ⟨c, rest, written.trans split, letter⟩
  · exact ⟨'_', _, written, by decide⟩

/-- No member is called like the backing variable of another one. -/
theorem backing_ne_memberName (key other : String) : "_" ++ memberName key ≠ memberName other := by
  intro same
  obtain ⟨first, more, split, letter⟩ := memberName_head key
  have chars : '_' :: (memberName key).toList = (memberName other).toList := by
    rw [← same, String.toList_append]
    rfl
  rcases memberName_cases other with ⟨_, written⟩ | ⟨reserved, written⟩
  · rw [written] at chars
    unfold escapeDigit at chars
    split at chars
    · simp [split] at chars
    · next c rest camel =>
      split at chars
      · next digit =>
        rw [split] at chars
        simp_all
      · rw [← chars] at camel
        have scores := camel_scores false other.toList
        rw [← camelize, camel] at scores
        have digit := (List.isChain_cons.mp scores).1 first (by simp [split]) rfl
        simp [letter] at digit
  · rw [written, List.cons_inj_right] at chars
    rw [← chars, String.ofList_toList] at reserved
    exact memberName_not_reserved key reserved

/-! ## Declarations -/

namespace Declaration

/-- A declaration and the declarations nested in it, at any depth. -/
def everything (declaration : Declaration) : List Declaration :=
  declaration :: declaration.nested.map LocalModel.definition

theorem mem_everything {declaration inner : Declaration} :
    inner ∈ declaration.everything ↔
      inner = declaration ∨ ∃ model ∈ declaration.models, inner ∈ model.definition.everything := by
  have below (model : LocalModel Declaration) :
      model.definition.everything = (family model).map LocalModel.definition := rfl
  simp only [below, List.mem_map]
  simp only [everything, List.mem_cons, List.mem_map, mem_nested]
  grind

/-- What holds of a declaration and of everything that is nested in it. -/
theorem forall_everything {declaration : Declaration} {P : Declaration → Prop} :
    (∀ inner ∈ declaration.everything, P inner) ↔
      P declaration ∧
        ∀ model ∈ declaration.models, ∀ inner ∈ model.definition.everything, P inner := by
  constructor
  · intro all
    refine ⟨all _ (mem_everything.mpr (.inl rfl)), fun model nested inner inside => ?_⟩
    exact all inner (mem_everything.mpr (.inr ⟨model, nested, inside⟩))
  · intro ⟨own, nested⟩ inner inside
    rcases mem_everything.mp inside with rfl | ⟨model, listed, inside⟩
    · exact own
    · exact nested model listed inner inside

mutual

theorem bodies_eq (declaration : Declaration) :
    declaration.bodies = declaration.everything.map body := by
  cases declaration with
  | record | choice => simp [bodies, everything, nested, modelBodies_eq, Function.comp_def]
  | enumeration => rfl

theorem modelBodies_eq (models : LocalModels Declaration) :
    modelBodies models = (nestedIn models).map fun model => model.definition.body := by
  match models with
  | [] => rfl
  | ⟨_, _, definition⟩ :: more =>
      rw [modelBodies, nestedIn, bodies_eq definition, modelBodies_eq more]
      simp [everything, Function.comp_def]

end

/-- The names of the stored properties. -/
def propertyNames : Declaration → List String
  | record _ properties _ => properties.map Property.name
  | choice _ alternatives _ _ => alternatives.map Alternative.property
  | enumeration _ _ => []

/-- Whether an enum of coding keys is written. -/
def writesCodingKeys : Declaration → Bool
  | record _ properties _ => properties.any fun property => property.name ≠ property.key
  | choice _ _ _ _ | enumeration _ _ => false

/-- The names under which some models are written. -/
def titles (models : LocalModels Declaration) : List String :=
  models.map fun model => model.definition.heading.name

/-- The names of the types that are declared directly in the declaration. -/
def typeNames (declaration : Declaration) : List String :=
  titles declaration.models ++ if declaration.writesCodingKeys then ["CodingKeys"] else []

/-- Only a nested model and the coding keys can share a name. -/
theorem nodup_typeNames_iff {declaration : Declaration}
    (distinct : (titles declaration.models).Nodup) :
    declaration.typeNames.Nodup ↔
      (declaration.writesCodingKeys = true → "CodingKeys" ∉ titles declaration.models) := by
  cases writes : declaration.writesCodingKeys with
  | false => simp [typeNames, writes, distinct]
  | true => simp [typeNames, writes, ← List.concat_eq_append, List.nodup_concat, distinct]

end Declaration

theorem Body.Coherent.titles_nodup {body : Body} (coherent : body.Coherent) :
    (Declaration.titles body.models).Nodup := by
  have same : Declaration.titles body.models = body.models.map LocalModel.name :=
    List.map_congr_left coherent.titled
  rw [same]
  exact coherent.names

/-! ## Properties of a class -/

/-- The names of the properties that every class has, in a class that is `depth` segments below the
root. -/
def plumbing (style : Style) : (depth : Nat) → List String
  | 0 =>
    (if style.shared then ["shared"] else []) ++ ["baseUrl", "baseMiddlewares", "url", "middlewares"]
  | _ + 1 => ["clientData", "url", "middlewares"]

theorem rootMembers_declarations (style : Style) (name : String) :
    (rootMembers style name).filterMap declaration? =
      (if style.shared then [("let", "shared")] else []) ++
        [("var", "baseUrl"), ("var", "baseMiddlewares"), ("var", "url"), ("var", "middlewares")] := by
  obtain ⟨access, isShared⟩ := style
  cases isShared with
  | false =>
      have same : rootMembers ⟨access, false⟩ name = rootMembers ⟨access, false⟩ "" := rfl
      rw [same]
      cases access <;> decide +kernel
  | true =>
      have shared : declaration? (access.modifier ++ "static let shared = " ++ name ++ "()") =
          some ("let", "shared") := by
        rw [String.append_assoc, String.append_assoc, declaration?_access,
          declaration?_modifier "static" ("let shared = " ++ name ++ "()") (by decide)
            (by simp [String.toList_append])]
        exact declaration?_keyword "let" (" = " ++ name ++ "()").toList (by decide)
          (List.all_eq_true.mp (by decide)) (by simp [String.toList_append, isNameChar, isWordChar])
          (by simp [String.toList_append])
      have split : rootMembers ⟨access, true⟩ name =
          (access.modifier ++ "static let shared = " ++ name ++ "()") ::
            (rootMembers ⟨access, true⟩ "").tail := rfl
      rw [split, List.filterMap_cons_some shared]
      cases access <;> decide +kernel

theorem spaceMembers_declarations (above : Nat) (segment : String) :
    (spaceMembers above segment).filterMap declaration? =
      [("let", "clientData"), ("var", "url"), ("var", "middlewares")] := by
  have address : declaration? ((AddressStep.after above segment).text "clientData.url") = none := by
    refine declaration?_other "clientData" ?_ (by decide)
    exact ⟨_, by simp only [AddressStep.text, String.toList_append, List.append_assoc]; rfl⟩
  -- Only the line of the address depends on the namespace.
  have split : spaceMembers above segment =
      (spaceMembers 0 "").take 3 ++ (AddressStep.after above segment).text "clientData.url" ::
        (spaceMembers 0 "").drop 4 := rfl
  rw [split, List.filterMap_append, List.filterMap_cons_none address]
  decide +kernel

namespace RouteClass

/-- The lines of the accessors and of the members that every class has, in a class that is `depth`
segments below the root. -/
def memberLines (style : Style) (depth : Nat) (cls : RouteClass) : Lines :=
  accessors style cls.children ++ match depth with
    | 0 => rootMembers style cls.name
    | above + 1 => spaceMembers above cls.segment

/-- Beside those lines, a class is written as the declarations that are nested in it. -/
theorem lines_eq (style : Style) (depth : Nat) (cls : RouteClass) :
    cls.lines style depth =
      Lines.block (style.access.modifier ++ "class " ++ cls.name ++ ": TRPCClientData")
        (cls.memberLines style depth ++ (Lines.afterBlank (Declaration.modelLines cls.models) ++
          cls.methods.flatMap (fun method => "" :: method.lines style depth) ++
          childLines style (depth + 1) cls.children)) := by
  obtain ⟨name, segment, models, methods, children⟩ := cls
  cases depth <;> simp [lines, memberLines, List.append_assoc]

theorem memberLines_infix (style : Style) (depth : Nat) (cls : RouteClass) :
    cls.memberLines style depth <:+: cls.lines style depth := by
  rw [lines_eq, Lines.block, List.cons_append, List.append_assoc]
  exact (List.prefix_append _ _).isInfix.trans (List.suffix_cons _ _).isInfix

/-- The names of the properties that are declared directly in the class. -/
def propertyNames (style : Style) (depth : Nat) (cls : RouteClass) : List String :=
  (cls.memberLines style depth).filterMap property?

/-- The names of the types that are declared directly in the class. -/
def typeNames (cls : RouteClass) : List String :=
  cls.children.map RouteClass.name ++ Declaration.titles cls.models

/-- The names of the accessors. -/
def accessorNames (cls : RouteClass) : List String :=
  cls.children.map fun child => memberName child.segment

/-- An accessor and its backing variable. -/
theorem accessorLines_declarations (style : Style) (child : RouteClass) :
    (accessorLines style child).filterMap declaration? =
      [("var", "_" ++ memberName child.segment), ("var", memberName child.segment)] := by
  have names := memberName_nameChars child.segment
  rw [accessorLines]
  generalize memberName child.segment = field at names
  have backing : declaration? ("private lazy var _" ++ field ++ " = " ++ child.name ++
      "(clientData: self)") = some ("var", "_" ++ field) := by
    let rest := " = " ++ child.name ++ "(clientData: self)"
    rw [declaration?_modifier "private" ("lazy var _" ++ field ++ rest) (by decide)
        (by simp [rest, String.toList_append]),
      declaration?_modifier "lazy" ("var _" ++ field ++ rest) (by decide)
        (by simp [String.toList_append])]
    refine declaration?_keyword "var" rest.toList (by decide) ?_ ?_ ?_
    · simpa [String.toList_append, isNameChar] using names
    · simp [rest, String.toList_append, isNameChar, isWordChar]
    · simp [String.toList_append]
  have accessor : declaration? (style.access.modifier ++ "var " ++ field ++ ": " ++ child.name ++
      " \x7b") = some ("var", field) := by
    simp only [String.append_assoc]
    rw [declaration?_access]
    refine declaration?_keyword "var" (": " ++ (child.name ++ " \x7b")).toList (by decide) names ?_ ?_
    · simp [String.toList_append, isNameChar, isWordChar]
    · simp [String.toList_append]
  have given : declaration? ("_" ++ field) = none :=
    declaration?_other "_" (by simp [String.toList_append]) (by decide)
  have closed : declaration? "\x7d" = none := rfl
  simp [Lines.block, backing, accessor, given, closed]

theorem accessors_declarations (style : Style) (cls : RouteClass) :
    (accessors style cls.children).filterMap declaration? =
      cls.accessorNames.flatMap fun field => [("var", "_" ++ field), ("var", field)] := by
  have blank : declaration? "" = none := rfl
  rw [accessors, accessorNames]
  split
  · next none => simp [List.isEmpty_iff.mp none]
  · simp [blank, List.filterMap_flatMap, accessorLines_declarations, List.flatMap_map]

theorem propertyNames_eq (style : Style) (depth : Nat) (cls : RouteClass) :
    cls.propertyNames style depth =
      cls.accessorNames.flatMap (fun field => ["_" ++ field, field]) ++ plumbing style depth := by
  have members : (match depth with
      | 0 => rootMembers style cls.name
      | above + 1 => spaceMembers above cls.segment).filterMap property? = plumbing style depth := by
    cases depth with
    | zero =>
        rw [property?, filterMap_declared?, rootMembers_declarations]
        cases shared : style.shared <;> simp [plumbing, shared]
    | succ above =>
        rw [property?, filterMap_declared?, spaceMembers_declarations]
        rfl
  have fields : (accessors style cls.children).filterMap property? =
      cls.accessorNames.flatMap fun field => ["_" ++ field, field] := by
    rw [property?, filterMap_declared?, accessors_declarations, List.filter_flatMap, List.map_flatMap]
    simp
  rw [propertyNames, memberLines.eq_def, List.filterMap_append, members, fields]

/-- The members that every class has, and the accessors, are properties. -/
theorem memberLines_kinds (style : Style) (depth : Nat) (cls : RouteClass) :
    ∀ found ∈ (cls.memberLines style depth).filterMap declaration?, found.1 ∈ ["var", "let"] := by
  rw [memberLines.eq_def, List.filterMap_append, accessors_declarations, List.forall_mem_append]
  constructor
  · rw [List.forall_mem_flatMap]
    exact fun _ _ => by simp
  · cases depth with
    | zero =>
        rw [rootMembers_declarations]
        split <;> simp
    | succ above =>
        rw [spaceMembers_declarations]
        decide

theorem backing_injective : Function.Injective fun field : String => "_" ++ field := by
  intro field other same
  have chars := congrArg String.toList same
  simp only [String.toList_append, List.append_cancel_left_eq] at chars
  exact String.toList_inj.mp chars

/-- Names are told apart from each other together with their backing variables. -/
theorem nodup_backed {fields : List String}
    (apart : ∀ field ∈ fields, ∀ other ∈ fields, "_" ++ field ≠ other) :
    (fields.flatMap fun field => ["_" ++ field, field]).Nodup ↔ fields.Nodup := by
  have same {field other : String} : "_" ++ field = "_" ++ other ↔ field = other :=
    backing_injective.eq_iff
  induction fields with
  | nil => simp
  | cons field more ih =>
      have ih := ih (by grind)
      simp only [List.flatMap_cons, List.cons_append, List.nil_append, List.nodup_cons, ih,
        List.mem_cons, List.mem_flatMap, List.not_mem_nil, or_false]
      grind

/-- Two accessors clash when they have one name, and an accessor clashes with a member that every class
has; backing variables never clash. -/
theorem nodup_propertyNames_iff (style : Style) (depth : Nat) (cls : RouteClass) :
    (cls.propertyNames style depth).Nodup ↔
      cls.accessorNames.Nodup ∧ ∀ field ∈ cls.accessorNames, field ∉ plumbing style depth := by
  have apart : ∀ field ∈ cls.accessorNames, ∀ other ∈ cls.accessorNames, "_" ++ field ≠ other := by
    simp only [accessorNames, List.mem_map]
    grind [backing_ne_memberName]
  have distinct : (plumbing style depth).Nodup := by
    obtain ⟨_, _ | _⟩ := style <;> cases depth <;> simp [plumbing]
  have lettered : ∀ name ∈ plumbing style depth, name.toList.head? ≠ some '_' := by
    obtain ⟨_ | _, _ | _⟩ := style <;> cases depth <;> simp only [plumbing] <;> decide
  have named : ∀ field, "_" ++ field ∉ plumbing style depth :=
    fun field listed => lettered _ listed (by simp [String.toList_append])
  rw [propertyNames_eq, List.nodup_append, nodup_backed apart]
  simp only [List.mem_flatMap, List.mem_cons, List.not_mem_nil, or_false]
  grind

end RouteClass

end RouterClient.Code
