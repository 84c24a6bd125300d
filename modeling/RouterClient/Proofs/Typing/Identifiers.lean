import RouterClient.Proofs.Code.QuestionMarks
import RouterClient.Proofs.Typing.CaseLabels
import RouterClient.Proofs.Typing.Names
import RouterClient.Proofs.Typing.Standards

/-! # What models and their members are called

A model is called after a text that somebody has given it, or after one that is made up where its type is
wanted.  The properties of a struct are called after keys, those of a union after the models that they hold
or after positions, and cases after values.  All of these names are identifiers that Swift does not reserve.
But a key or a model without a name of words leaves the wildcard to the property that is called after it,
while cases and positions always come to words.
-/

namespace RouterClient.Typing

open Model (LocalModels Scope)
open Schema (NodeId Graph)
open Code (Admissible Declaration IsWorded TypeExpr alternativeName? isIdentifier memberName
  memberName_admissible ne_wildcard_of_isWorded reservedMembers reservedTypes
  Usable typeName)

/-! ## Models -/

/-- The texts that models are called after: names that are given, those that are made up for a field or an
option, and some with which typing is called. -/
inductive Title (graph : Graph) (fallbacks : String → Prop) : String → Prop where
  | label {id text} : (graph.label id).name = some text → Title graph fallbacks text
  | field {id fields field} :
      graph.kind id = .object fields → field ∈ fields → Title graph fallbacks (typeName field.1)
  | option (position : Nat) : Title graph fallbacks ("Option" ++ toString (position + 1))
  | fallback {text} : fallbacks text → Title graph fallbacks text

/-- A name that is made from one of the texts that models are called after. -/
def Titled (graph : Graph) (fallbacks : String → Prop) (name : String) : Prop :=
  ∃ text, Title graph fallbacks text ∧ name = typeName text

section

variable {graph : Graph} {fallbacks : String → Prop} {text name : String}

/-- What is made up for an option is a word. -/
theorem Title.isWorded (given : ∀ id text, (graph.label id).name = some text → IsWorded text)
    (keys : ∀ id fields, graph.kind id = .object fields → ∀ field ∈ fields, IsWorded field.1)
    (others : ∀ text, fallbacks text → IsWorded text) (title : Title graph fallbacks text) :
    IsWorded text := by
  cases title with
  | label named => exact given _ _ named
  | field kind listed => exact Code.isWorded_typeName.mpr (keys _ _ kind _ listed)
  | option position => exact Code.isWorded_numbered _ _
  | fallback handed => exact others _ handed

theorem Titled.admissible (titled : Titled graph fallbacks name) : Admissible reservedTypes name := by
  obtain ⟨text, _, rfl⟩ := titled
  exact Code.typeName_admissible text

theorem Titled.usable_iff (titled : Titled graph fallbacks name) :
    Usable reservedTypes name ↔ IsWorded name := by
  obtain ⟨text, _, rfl⟩ := titled
  rw [Code.typeName_usable_iff, Code.isWorded_typeName]

end

/-! ## Alternatives of a union -/

section

variable {takes : String → Bool} {tries : Nat} {name : String}

theorem underscored_of_free (free : takes name = false) : underscored takes tries name = name := by
  cases tries with
  | zero => rfl
  | succ tries => rw [underscored, if_neg (by simp [free])]

theorem underscored_admissible (admissible : Admissible reservedMembers name) :
    Admissible reservedMembers (underscored takes tries name) := by
  induction tries generalizing name with
  | zero => exact admissible
  | succ tries ih =>
      unfold underscored
      split
      · exact ih (admissible.append_member (by simp [Code.isNameChar]) ⟨'_', rfl, rfl⟩)
      · exact admissible

theorem isWorded_underscored (worded : IsWorded name) : IsWorded (underscored takes tries name) := by
  induction tries generalizing name with
  | zero => exact worded
  | succ tries ih =>
      unfold underscored
      split
      · exact ih (Code.isWorded_append.mpr (.inl worded))
      · exact worded

end

section

variable (draft : UnionDraft) (position : Nat)

theorem UnionDraft.propertyFor_admissible (payload : TypeExpr) :
    Admissible reservedMembers (draft.propertyFor position payload) := by
  have option : Admissible reservedMembers "option" := ⟨by decide, by decide⟩
  refine underscored_admissible ?_
  cases preferred : (alternativeName? payload.text).filter fun name => !draft.takes name with
  | none => exact (option.numbered position).toAdmissible
  | some name =>
      exact Code.alternativeName?_admissible (Option.eq_some_of_filter_eq_some preferred)

/-- An alternative gets the wildcard for a property when it is the first one that holds a model without a
name of words. -/
theorem UnionDraft.propertyFor_eq_wildcard_iff {payload : TypeExpr}
    (required : payload.isOptional = false)
    (identifier : ∀ title ∈ payload.modelName?, isIdentifier title.toList = true) :
    draft.propertyFor position payload = "_" ↔
      draft.takes "_" = false ∧ ∃ title ∈ payload.modelName?, ¬ IsWorded title := by
  have text {title : String} (held : title ∈ payload.modelName?) : payload.text = title := by
    cases payload with
    | model => exact Option.some.inj held
    | _ => cases held
  -- Without a name of its own the alternative is called after its position, which is a word.
  cases preferred : (alternativeName? payload.text).filter fun name => !draft.takes name with
  | none =>
      have other : draft.propertyFor position payload ≠ "_" := by
        rw [propertyFor, preferred]
        exact ne_wildcard_of_isWorded (isWorded_underscored (Code.isWorded_numbered _ _))
      refine ⟨fun wildcard => absurd wildcard other, fun ⟨free, title, held, unworded⟩ => ?_⟩
      rw [text held, Code.alternativeName?_of_not_isWorded (identifier title held) unworded] at preferred
      simp [Option.filter_some, free] at preferred
  | some name =>
      obtain ⟨named, free⟩ := Option.filter_eq_some_iff.mp preferred
      have free : draft.takes name = false := by simpa using free
      have kept : draft.propertyFor position payload = name := by
        rw [propertyFor, preferred]
        exact underscored_of_free free
      have wildcard := Code.alternativeName?_eq_wildcard_iff named
      rw [kept, wildcard]
      constructor
      · intro unworded
        refine ⟨wildcard.mpr unworded ▸ free, ?_⟩
        cases held : payload.modelName? with
        | none => exact absurd (TypeExpr.isWorded_of_alternativeName? required held named) unworded
        | some title => exact ⟨title, rfl, text held ▸ unworded⟩
      · intro ⟨_, title, held, unworded⟩
        exact text held ▸ unworded

end

/-! ## Declarations -/

/-- A declaration with a title for its name, and with members whose names Swift does not reserve: the
wildcard is among them just where a key or a model that they are called after is without words. -/
structure IsSpelled (graph : Graph) (fallbacks : String → Prop) (declaration : Declaration) :
    Prop where
  titled : Titled graph fallbacks declaration.heading.name
  held : ∀ title ∈ declaration.memberModels, Titled graph fallbacks title
  members : ∀ name ∈ declaration.memberNames, Admissible reservedMembers name
  wildcard : "_" ∈ declaration.memberNames ↔
    (∃ key ∈ declaration.memberKeys, ¬ IsWorded key) ∨
      ∃ title ∈ declaration.memberModels, ¬ IsWorded title

theorem IsSpelled.usable_iff {graph : Graph} {fallbacks : String → Prop} {declaration : Declaration}
    (spelled : IsSpelled graph fallbacks declaration) :
    (∀ name ∈ declaration.memberNames, Usable reservedMembers name) ↔
      (∀ key ∈ declaration.memberKeys, IsWorded key) ∧
        ∀ title ∈ declaration.memberModels, IsWorded title := by
  have free : (∀ name ∈ declaration.memberNames, Usable reservedMembers name) ↔
      "_" ∉ declaration.memberNames :=
    ⟨fun usable listed => (usable _ listed).named rfl,
      fun free name listed => ⟨spelled.members name listed, ne_of_mem_of_not_mem listed free⟩⟩
  rw [free, spelled.wildcard]
  simp only [not_or, not_exists, not_and, not_not]

def Spelled (graph : Graph) (fallbacks : String → Prop) (declaration : Declaration) : Prop :=
  Throughout (IsSpelled graph fallbacks) declaration

/-- Names are made from titles, also where a type is a model under its question marks. -/
def spelled (graph : Graph) (fallbacks : String → Prop) : Standard where
  name := Titled graph fallbacks
  type type := ∀ title ∈ type.required.modelName?, Titled graph fallbacks title
  declaration := Spelled graph fallbacks

/-- The models that the alternatives of a union hold. -/
def UnionDraft.held (draft : UnionDraft) : List String :=
  draft.alternatives.filterMap fun alternative => alternative.payload.modelName?

theorem UnionDraft.takes_concat (draft : UnionDraft) (added : Code.Alternative)
    (attempts : List Code.Attempt) (models : LocalModels Declaration) (name : String) :
    UnionDraft.takes ⟨draft.alternatives ++ [added], attempts, models⟩ name =
      (draft.takes name || added.property == name) := by
  simp [takes]

theorem UnionDraft.held_concat (draft : UnionDraft) (added : Code.Alternative)
    (attempts : List Code.Attempt) (models : LocalModels Declaration) :
    UnionDraft.held ⟨draft.alternatives ++ [added], attempts, models⟩ =
      draft.held ++ added.payload.modelName?.toList := by
  cases holds : added.payload.modelName? <;> simp [held, holds]

structure RecordDraft.IsSpelled (graph : Graph) (fallbacks : String → Prop) (draft : RecordDraft) :
    Prop where
  named : ∀ property ∈ draft.properties, property.name = memberName property.key
  models : ∀ model ∈ draft.models, Spelled graph fallbacks model.definition

structure UnionDraft.IsSpelled (graph : Graph) (fallbacks : String → Prop) (draft : UnionDraft) :
    Prop where
  held : ∀ title ∈ draft.held, Titled graph fallbacks title
  members : ∀ alternative ∈ draft.alternatives, Admissible reservedMembers alternative.property
  wildcard : draft.takes "_" = true ↔ ∃ title ∈ draft.held, ¬ IsWorded title
  models : ∀ model ∈ draft.models, Spelled graph fallbacks model.definition

section

variable {graph : Graph} {fallbacks : String → Prop} {settings : Settings} {name : String} {depth : Nat}
  {verdict : Verdict}

theorem RecordDraft.isSpelled_empty : ({} : RecordDraft).IsSpelled graph fallbacks :=
  ⟨List.forall_mem_nil _, List.forall_mem_nil _⟩

theorem UnionDraft.isSpelled_empty : ({} : UnionDraft).IsSpelled graph fallbacks :=
  ⟨List.forall_mem_nil _, List.forall_mem_nil _, by simp [takes, UnionDraft.held], List.forall_mem_nil _⟩

theorem fieldMember_spelled (field : String × NodeId) (draft : RecordDraft)
    (met : (spelled graph fallbacks).OfVerdict verdict) (before : draft.IsSpelled graph fallbacks) :
    ((fieldMember graph settings name depth field).settle draft verdict).1.IsSpelled graph fallbacks := by
  refine fieldMember_preserves ?_ met before
  intro draft typed models kept fits _ absorbed
  refine ⟨?_, fits.absorb? absorbed kept.models⟩
  exact List.forall_mem_append.mpr ⟨kept.named, List.forall_mem_singleton.mpr rfl⟩

theorem optionMember_spelled (option : NodeId × Nat) (draft : UnionDraft)
    (met : (spelled graph fallbacks).OfVerdict verdict) (before : draft.IsSpelled graph fallbacks) :
    ((optionMember graph name depth option).settle draft verdict).1.IsSpelled graph fallbacks := by
  refine optionMember_preserves ?_ ?_ met before
  · intro draft kept
    obtain ⟨held, members, wildcard, models⟩ := kept
    exact ⟨by simpa [UnionDraft.held] using held, by simpa using members,
      by simpa [UnionDraft.takes, UnionDraft.held] using wildcard, by simpa using models⟩
  · intro draft typed models kept fits absorbed
    have titled : ∀ title ∈ typed.type.required.modelName?, Titled graph fallbacks title := fits.type
    have property := draft.propertyFor_eq_wildcard_iff (option.2 + 1) typed.type.isOptional_required
      fun title listed => (titled title listed).admissible.identifier
    refine ⟨?_, ?_, ?_, fits.absorb? absorbed kept.models⟩
    · rw [UnionDraft.held_concat, List.forall_mem_append]
      exact ⟨kept.held, by simpa using titled⟩
    · rw [List.forall_mem_append, List.forall_mem_singleton]
      exact ⟨kept.members, draft.propertyFor_admissible _ _⟩
    · rw [UnionDraft.takes_concat, UnionDraft.held_concat, Bool.or_eq_true, beq_iff_eq, property,
        ← Bool.not_eq_true, kept.wildcard, or_and_left, and_iff_right (Classical.em _)]
      simp only [List.mem_append, Option.mem_toList, or_and_right, exists_or]
      rfl

/-- A declaration whose members' types are models under titles is spelled with titles itself. -/
theorem Declares.spelled {J : Judgement} {id : NodeId} {description : Option String}
    {scope : Model.Scope} {state next : State} {events : List Event} {definition : Declaration}
    (below : ∀ {id site state events verdict next}, J id site state events verdict next →
      (spelled graph fallbacks).OfVerdict verdict)
    (titled : Titled graph fallbacks name)
    (declares : Declares graph settings J id name description scope depth state events
      (some definition) next) :
    Spelled graph fallbacks definition := by
  have drafted := declares.drafted (I := RecordDraft.IsSpelled graph fallbacks)
    (K := UnionDraft.IsSpelled graph fallbacks) below
    (fun field draft _ => fieldMember_spelled field draft)
    (fun option draft _ => optionMember_spelled option draft)
    RecordDraft.isSpelled_empty UnionDraft.isSpelled_empty
  cases drafted with
  | @record draft kept =>
      have names : (draft.toDeclaration settings name description).memberNames =
          (draft.toDeclaration settings name description).memberKeys.map memberName := by
        simp only [RecordDraft.toDeclaration, Declaration.memberNames, Declaration.memberKeys,
          List.map_map]
        exact List.map_congr_left kept.named
      refine Declaration.forall_everything.mpr ⟨⟨titled, List.forall_mem_nil _, ?_, ?_⟩, kept.models⟩
      · rw [names, List.forall_mem_map]
        exact fun key _ => memberName_admissible key
      · simp only [names, List.mem_map, Code.memberName_eq_wildcard_iff]
        exact (or_iff_left (by simp [RecordDraft.toDeclaration, Declaration.memberModels])).symm
  | enumeration raws =>
      obtain ⟨_, _, usable⟩ := caseLabels_distinct raws
      refine Declaration.forall_everything.mpr
        ⟨⟨titled, List.forall_mem_nil _, ?_, ?_⟩, List.forall_mem_nil _⟩
      · rw [Declaration.memberNames, (cases_zipWith raws).1]
        exact fun label listed => (usable label listed).toAdmissible
      · rw [Declaration.memberNames, (cases_zipWith raws).1]
        refine iff_of_false (fun listed => (usable _ listed).named rfl) ?_
        simp [Declaration.memberKeys, Declaration.memberModels]
  | @union draft kept =>
      refine Declaration.forall_everything.mpr ⟨⟨titled, kept.held, ?_, ?_⟩, kept.models⟩
      · intro member listed
        obtain ⟨alternative, held, rfl⟩ := List.mem_map.mp listed
        exact kept.members alternative held
      · have wildcard := kept.wildcard
        simpa [Declaration.memberNames, Declaration.memberKeys, Declaration.memberModels,
          UnionDraft.takes, UnionDraft.held] using wildcard

theorem spelled_met (graph : Graph) (settings : Settings) (fallbacks : String → Prop) :
    (Typing.spelled graph fallbacks).Met graph settings (Title graph fallbacks) where
  label := .label
  member member := by
    cases member with
    | field kind listed => exact .field kind listed
    | option kind listed => exact .option _
  typeName title := ⟨_, title, rfl⟩
  primitive _ := nofun
  model _ _ _ titled := by
    rintro _ ⟨⟩
    exact titled
  collection _ _ _ := nofun
  optional titled _ := titled
  made below titled declares := declares.spelled below titled

end

end RouterClient.Typing
