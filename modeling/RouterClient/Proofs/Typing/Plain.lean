import RouterClient.Proofs.Typing.Identifiers
import RouterClient.Proofs.Code.Blocks

/-! # Plain names

Typing makes up every name itself, from keys, labels and positions.  So as long as the protocols of the
settings are identifiers, whatever it writes outside of literals and comments is plain, and every
declaration that it makes or holds is balanced.
-/

namespace RouterClient

open Code (Plain intercalate_plain plain_of_isIdentifier)

theorem conformanceClause_plain {protocols : List String}
    (plain : ∀ name ∈ protocols, Plain name) : Plain (conformanceClause protocols) := by
  refine intercalate_plain ?_
  suffices named : ∀ names : List String, (∀ name ∈ names, Plain name) →
      ∀ name ∈ protocols.foldl
        (fun named name => if named.contains name then named else named ++ [name]) names, Plain name from
    named _ (List.forall_mem_singleton.mpr (by decide))
  induction protocols with
  | nil => exact fun names named => named
  | cons protocol more ih =>
      obtain ⟨first, later⟩ := List.forall_mem_cons.mp plain
      intro names named
      refine ih later _ ?_
      simp only
      split
      · exact named
      · exact List.forall_mem_append.mpr ⟨named, List.forall_mem_singleton.mpr first⟩

/-- Settings whose protocols are identifiers. -/
structure Settings.NamesProtocols (settings : Settings) : Prop where
  structs : ∀ name ∈ settings.structProtocols, Code.isIdentifier name.toList = true
  enums : ∀ name ∈ settings.enumProtocols, Code.isIdentifier name.toList = true

theorem Settings.NamesProtocols.structClause {settings : Settings}
    (named : settings.NamesProtocols) : Plain settings.structClause :=
  conformanceClause_plain fun name listed => plain_of_isIdentifier (named.structs name listed)

theorem Settings.NamesProtocols.enumClause {settings : Settings}
    (named : settings.NamesProtocols) : Plain settings.enumClause :=
  conformanceClause_plain fun name listed => plain_of_isIdentifier (named.enums name listed)

end RouterClient

namespace RouterClient.Typing

open Model (GlobalModels LocalModels Scope)
open Schema (NodeId Graph Literal)
open Code (Attempt Declaration EnumCase Heading Plain Steady TypeExpr memberName_plain
  plain_of_isIdentifier typeName_plain)

/-! ## The names of cases and alternatives -/

theorem caseLabels_plain (raws : List String) : ∀ label ∈ caseLabels raws, Plain label := by
  obtain ⟨_, _, usable⟩ := caseLabels_distinct raws
  exact fun label listed => plain_of_isIdentifier (usable label listed).identifier

theorem initialCase_plain {graph : Graph} {settings : Settings} {field : NodeId} {type : TypeExpr}
    {label : String} (given : initialCase graph settings field type = some label) :
    Plain label := by
  unfold initialCase at given
  split at given
  · cases given
  · obtain ⟨text, _, first⟩ := Option.bind_eq_some_iff.mp given
    exact caseLabels_plain [text] label (List.mem_of_head? first)

theorem UnionDraft.propertyFor_plain (draft : UnionDraft) (position : Nat) (payload : TypeExpr) :
    Plain (draft.propertyFor position payload) :=
  plain_of_isIdentifier (draft.propertyFor_admissible position payload).identifier

/-! ## Declarations -/

/-- A type whose names are plain, with a model to be nested that is balanced. -/
structure Typed.IsPlain (typed : Typed) : Prop where
  type : typed.type.IsPlain
  named : ∀ model, typed.model = some model → Plain model.name
  steady : ∀ model, typed.model = some model → Steady model.definition.lines

/-- A verdict whose type, if there is one, is plain. -/
def PlainVerdict (verdict : Verdict) : Prop :=
  ∀ typed, verdict = .ok (some typed) → typed.IsPlain

structure RecordDraft.IsPlain (draft : RecordDraft) : Prop where
  properties : ∀ property ∈ draft.properties, property.IsPlain
  models : ∀ model ∈ draft.models, Steady model.definition.lines

structure UnionDraft.IsPlain (draft : UnionDraft) : Prop where
  alternatives : ∀ alternative ∈ draft.alternatives, alternative.IsPlain
  attempts : ∀ alternative, .decode alternative ∈ draft.attempts → alternative.IsPlain
  models : ∀ model ∈ draft.models, Steady model.definition.lines

theorem Typed.IsPlain.absorb? {typed : Typed} {models grown : LocalModels Declaration}
    (plain : typed.IsPlain) (absorbed : models.absorb? typed.model = .ok grown)
    (before : ∀ model ∈ models, Steady model.definition.lines) :
    ∀ model ∈ grown, Steady model.definition.lines := by
  intro model listed
  rcases LocalModels.mem_of_absorb? absorbed listed with listed | same
  · exact before model listed
  · exact plain.steady model same

section

variable {graph : Graph} {settings : Settings} {scope : Scope} {state next last : State}
  {name : String} {description : Option String} {depth : Nat} {id : NodeId} {events : List Event}

theorem fieldMember_keeps (field : String × NodeId) {draft : RecordDraft} {verdict : Verdict}
    (plain : PlainVerdict verdict) (before : draft.IsPlain) :
    ((fieldMember graph settings name depth field).settle draft verdict).1.IsPlain := by
  refine fieldMember_preserves ?_ plain before
  intro draft typed models kept plain _ absorbed
  refine ⟨?_, plain.absorb? absorbed kept.models⟩
  refine List.forall_mem_append.mpr ⟨kept.properties, List.forall_mem_singleton.mpr ?_⟩
  exact ⟨memberName_plain field.1, plain.type, fun label => initialCase_plain⟩

theorem UnionDraft.IsPlain.attemptNull {draft : UnionDraft} (plain : draft.IsPlain) :
    draft.attemptNull.IsPlain := by
  unfold UnionDraft.attemptNull
  split
  · exact plain
  · refine ⟨plain.alternatives, fun alternative listed => ?_, plain.models⟩
    rcases List.mem_append.mp listed with listed | listed
    · exact plain.attempts alternative listed
    · cases List.mem_singleton.mp listed

theorem optionMember_keeps (option : NodeId × Nat) {draft : UnionDraft} {verdict : Verdict}
    (plain : PlainVerdict verdict) (before : draft.IsPlain) :
    ((optionMember graph name depth option).settle draft verdict).1.IsPlain := by
  refine optionMember_preserves (fun kept => kept.attemptNull) ?_ plain before
  intro draft typed models kept plain absorbed
  have fresh : Code.Alternative.IsPlain
      ⟨draft.propertyFor (option.2 + 1) typed.type.required, typed.type.required⟩ := by
    refine ⟨draft.propertyFor_plain _ _, ?_⟩
    rw [TypeExpr.IsPlain, TypeExpr.required_base]
    exact plain.type
  refine ⟨?_, fun alternative listed => ?_, plain.absorb? absorbed kept.models⟩
  · exact List.forall_mem_append.mpr ⟨kept.alternatives, List.forall_mem_singleton.mpr fresh⟩
  · rcases List.mem_append.mp listed with listed | listed
    · exact kept.attempts alternative listed
    · obtain rfl := Attempt.decode.inj (List.mem_singleton.mp listed)
      exact fresh

/-- The cases of an enum have plain labels, whatever its values are. -/
theorem enumCases_plain (raws : List String) :
    ∀ enumCase ∈ List.zipWith EnumCase.mk (caseLabels raws) raws, Plain enumCase.label := by
  intro enumCase listed
  refine caseLabels_plain raws _ ?_
  rw [← (cases_zipWith raws).1]
  exact List.mem_map_of_mem listed

/-! ## Runs of typing -/

/-- The nodes have plain names and are mentioned by plain names, and every global model is balanced. -/
structure PlainGlobals (globals : GlobalModels Declaration) : Prop where
  named : ∀ id name, globals.nameOf id = some name → Plain name
  promoted : ∀ id name, globals.globalName id = some name → Plain name
  held : ∀ entry ∈ globals.models, Steady entry.2.definition.lines

/-- The nodes that are visible have plain names. -/
def PlainScope (scope : Scope) : Prop :=
  ∀ id name, scope.lookup id = some name → Plain name

structure State.IsPlain (state : State) : Prop where
  globals : PlainGlobals state.globals
  scope : PlainScope state.scope

/-- What typing does to plain states: they stay plain, and the type is plain. -/
def KeepsPlain (state : State) (verdict : Verdict) (next : State) : Prop :=
  state.IsPlain → next.IsPlain ∧ PlainVerdict verdict

/-- Names and types are plain, and declarations are balanced. -/
def plainly : Standard where
  name := Plain
  type := TypeExpr.IsPlain
  declaration := fun declaration => Steady declaration.lines

theorem plainVerdict_iff {verdict : Verdict} : PlainVerdict verdict ↔ plainly.OfVerdict verdict :=
  ⟨fun plain typed same => ⟨(plain typed same).type, (plain typed same).named, (plain typed same).steady⟩,
    fun met typed same => ⟨(met typed same).type, (met typed same).named, (met typed same).model⟩⟩

theorem plainGlobals_iff {globals : GlobalModels Declaration} :
    PlainGlobals globals ↔ plainly.OfGlobals globals :=
  ⟨fun plain => ⟨plain.named, plain.promoted, plain.held⟩,
    fun met => ⟨met.named, met.promoted, met.held⟩⟩

theorem State.isPlain_iff : state.IsPlain ↔ plainly.OfState state :=
  ⟨fun plain => ⟨plainGlobals_iff.mp plain.globals, plain.scope⟩,
    fun met => ⟨plainGlobals_iff.mpr met.globals, met.scope⟩⟩

theorem keepsPlain_iff {verdict : Verdict} :
    KeepsPlain state verdict next ↔ Upholds plainly state verdict next := by
  rw [KeepsPlain, Upholds, State.isPlain_iff, State.isPlain_iff, plainVerdict_iff]

theorem PlainScope.empty : PlainScope {} :=
  Standard.OfScope.empty plainly

theorem PlainGlobals.empty : PlainGlobals {} :=
  plainGlobals_iff.mpr (.empty plainly)

theorem PlainGlobals.nameFor {globals : GlobalModels Declaration} {proposal : String}
    (plain : PlainGlobals globals) (id : NodeId) (proposed : Plain proposal) :
    Plain (globals.resolveName id proposal).1 :=
  (plainGlobals_iff.mp plain).nameFor id proposed

/-- A declaration of members with plain types is balanced. -/
theorem Declares.steady {J : Judgement} {definition : Declaration}
    (below : ∀ {id site state events verdict next}, J id site state events verdict next →
      PlainVerdict verdict)
    (protocols : settings.NamesProtocols) (named : Plain name)
    (declares : Declares graph settings J id name description scope depth state events
      (some definition) next) :
    Steady definition.lines := by
  have drafted := declares.drafted (I := RecordDraft.IsPlain) (K := UnionDraft.IsPlain) below
    (fun field _ _ => fieldMember_keeps field) (fun option _ _ => optionMember_keeps option)
    ⟨List.forall_mem_nil _, List.forall_mem_nil _⟩
    ⟨List.forall_mem_nil _, by simp, List.forall_mem_nil _⟩
  cases drafted with
  | record kept =>
      exact Code.record_steady ⟨named, protocols.structClause⟩ kept.properties kept.models
  | enumeration raws => exact Code.enumeration_steady ⟨named, protocols.enumClause⟩ (enumCases_plain raws)
  | union kept =>
      exact Code.choice_steady ⟨named, protocols.structClause⟩ kept.alternatives kept.attempts
        kept.models

theorem plainly_met (graph : Graph) (protocols : settings.NamesProtocols) :
    plainly.Met graph settings fun _ => True where
  label _ := trivial
  member _ := trivial
  typeName {text} _ := typeName_plain text
  primitive p := by
    change Plain _
    cases p <;> decide
  model _ _ _ named := named
  collection _ _ plain := plain
  optional plain _ := plain
  made below named declares :=
    declares.steady (fun derived => plainVerdict_iff.mpr (below derived)) protocols named

/-- A declaration keeps a plain state plain and is balanced. -/
theorem Declares.plain {J : Judgement} {definition : Option Declaration}
    (below : ∀ {id site state events verdict next}, J id site state events verdict next →
      KeepsPlain state verdict next)
    (protocols : settings.NamesProtocols) (visible : PlainScope scope) (named : Plain name)
    (declares : Declares graph settings J id name description scope depth state events definition
      next)
    (plain : state.IsPlain) :
    next.IsPlain ∧ ∀ declaration, definition = some declaration → Steady declaration.lines := by
  have upheld := declares.upheld (plainly_met graph protocols)
    (fun derived => keepsPlain_iff.mp (below derived)) visible named (State.isPlain_iff.mp plain)
  exact ⟨State.isPlain_iff.mpr upheld.1, upheld.2⟩

theorem proposedName_plain (graph : Graph) (id : NodeId) (site : Site) :
    Plain (proposedName graph id site) :=
  typeName_plain _

/-- Typing keeps a plain state plain, and the type that it gives is plain. -/
theorem Derives.plain {budget : Nat} {site : Site} {verdict : Verdict}
    (protocols : settings.NamesProtocols)
    (derived : Derives graph settings budget id site state events verdict next) :
    KeepsPlain state verdict next :=
  keepsPlain_iff.mpr (derived.upheld (plainly_met graph protocols))

end

end RouterClient.Typing
