import RouterClient.Proofs.Code.Fields
import RouterClient.Proofs.Code.Identifiers
import RouterClient.Proofs.Typing.Transforms
import RouterClient.Proofs.Typing.Valueless

/-! # Cases of an enum

Every string value of an enumeration has one case, and no two cases have one label: a label that is taken is
numbered, and the numbers never run out.  The case that an initializer assigns by itself is that of the only
value of the field's enum.
-/

namespace RouterClient.Typing

open Model (Scope)
open Schema (Graph NodeId Kind Literal)
open Code (Declaration EnumCase Heading TypeExpr Usable codingKey? memberName reservedMembers)

/-- The label that a base gives after some labels: the base itself where it is free, and otherwise the
first of its numbered forms that is, from two on. -/
inductive FirstFree (taken : List String) (base : String) : String → Prop where
  | bare : base ∉ taken → FirstFree taken base base
  | numbered (number : Nat) :
      base ∈ taken → 2 ≤ number → base ++ toString number ∉ taken →
      (∀ earlier, 2 ≤ earlier → earlier < number → base ++ toString earlier ∈ taken) →
      FirstFree taken base (base ++ toString number)

section

variable {taken other : List String} {base label : String}

theorem FirstFree.not_mem (first : FirstFree taken base label) : label ∉ taken := by
  cases first with
  | bare free => exact free
  | numbered _ _ _ free _ => exact free

theorem FirstFree.usable (first : FirstFree taken base label) (usable : Usable reservedMembers base) :
    Usable reservedMembers label := by
  cases first with
  | bare _ => exact usable
  | numbered number _ _ _ _ => exact usable.toAdmissible.numbered number

/-- Only which labels are taken matters, not their order. -/
theorem FirstFree.of_mem_iff (first : FirstFree taken base label)
    (same : ∀ label, label ∈ taken ↔ label ∈ other) : FirstFree other base label := by
  cases first with
  | bare free => exact .bare (by rwa [← same])
  | numbered number used later free earlier =>
      refine .numbered number ((same _).mp used) later (by rwa [← same]) ?_
      exact fun number' from_two before => (same _).mp (earlier number' from_two before)

/-- The search stops at a number that is free, or when its tries are used up, and passes no free one. -/
theorem numbered_stops (taken : List String) (base : String) (tries number : Nat) :
    ∃ count ≤ tries, numbered taken base tries number = base ++ toString (number + count) ∧
      (base ++ toString (number + count) ∉ taken ∨ count = tries) ∧
      ∀ earlier < count, base ++ toString (number + earlier) ∈ taken := by
  induction tries generalizing number with
  | zero => exact ⟨0, Nat.le_refl _, rfl, .inr rfl, nofun⟩
  | succ tries ih =>
      by_cases used : base ++ toString number ∈ taken
      · obtain ⟨count, within, found, stops, passed⟩ := ih (number + 1)
        have next (count : Nat) : number + 1 + count = number + (count + 1) := by omega
        simp only [next] at found stops passed
        refine ⟨count + 1, Nat.succ_le_succ within, ?_, by simpa using stops, ?_⟩
        · rw [numbered, if_pos (by simpa using used), found]
        · intro earlier before
          cases earlier with
          | zero => exact used
          | succ earlier => exact passed earlier (Nat.lt_of_succ_lt_succ before)
      · refine ⟨0, Nat.zero_le _, ?_, .inl used, nofun⟩
        rw [numbered, if_neg (by simpa using used)]
        rfl

/-- There are more numbers to try than labels that are taken. -/
theorem numbered_firstFree (used : base ∈ taken) :
    FirstFree taken base (numbered taken base taken.length 2) := by
  obtain ⟨count, within, found, stops, passed⟩ := numbered_stops taken base taken.length 2
  have distinct : Function.Injective fun count => base ++ toString (2 + count) :=
    fun _ _ same => Nat.add_left_cancel (Code.numbered_injective base same)
  have free : base ++ toString (2 + count) ∉ taken := by
    rcases stops with free | rfl
    · exact free
    · obtain ⟨fresh, bounded, free⟩ := Code.exists_fresh taken distinct
      rcases Nat.lt_or_eq_of_le bounded with before | rfl
      · exact absurd (passed fresh before) free
      · exact free
  rw [found]
  refine .numbered (2 + count) used (by omega) free fun earlier from_two before => ?_
  have passed := passed (earlier - 2) (by omega)
  rwa [Nat.add_sub_cancel' from_two] at passed

theorem freeLabel_firstFree (taken : List String) (base : String) :
    FirstFree taken base (freeLabel taken base) := by
  unfold freeLabel
  split
  · next used => exact numbered_firstFree (by simpa using used)
  · next free => exact .bare (by simpa using free)

end

/-- What a label is made from is usable, whatever the value is. -/
theorem labelBase_usable (position : Nat) (raw : String) :
    Usable reservedMembers (labelBase position raw) := by
  have value : Code.Admissible reservedMembers "value" := ⟨by decide, by decide⟩
  unfold labelBase
  simp only
  split
  · exact value.numbered position
  · next named => exact ⟨Code.memberName_admissible raw, named⟩

theorem labelsFrom_concat (taken : List String) (position : Nat) (raws : List String) (raw : String) :
    ∃ label, labelsFrom taken position (raws ++ [raw]) = labelsFrom taken position raws ++ [label] ∧
      FirstFree ((labelsFrom taken position raws).reverse ++ taken)
        (labelBase (position + raws.length) raw) label := by
  induction raws generalizing taken position with
  | nil => exact ⟨_, rfl, freeLabel_firstFree taken (labelBase position raw)⟩
  | cons first more ih =>
      obtain ⟨label, split, free⟩ := ih (freeLabel taken (labelBase position first) :: taken) (position + 1)
      refine ⟨label, by simp [labelsFrom, split], ?_⟩
      have later : position + (first :: more).length = position + 1 + more.length := by
        rw [List.length_cons]
        omega
      rw [later]
      simpa [labelsFrom] using free

/-- One value more has one label more, the first that is free after the labels of the values before it. -/
theorem caseLabels_concat (raws : List String) (raw : String) :
    ∃ label, caseLabels (raws ++ [raw]) = caseLabels raws ++ [label] ∧
      FirstFree (caseLabels raws) (labelBase (raws.length + 1) raw) label := by
  obtain ⟨label, split, free⟩ := labelsFrom_concat [] 1 raws raw
  refine ⟨label, split, ?_⟩
  rw [List.append_nil, Nat.add_comm] at free
  exact free.of_mem_iff fun _ => List.mem_reverse

/-- Values that come to one label, a reserved word and a value without letters. -/
example : caseLabels ["in progress", "in-progress", "default", "!"] =
    ["inProgress", "inProgress2", "_default", "value4"] := by
  decide +kernel

theorem caseLabels_distinct (raws : List String) :
    (caseLabels raws).length = raws.length ∧ (caseLabels raws).Nodup ∧
      ∀ label ∈ caseLabels raws, Usable reservedMembers label := by
  induction raws using List.reverseRecOn with
  | nil => exact ⟨rfl, List.nodup_nil, nofun⟩
  | append_singleton raws raw ih =>
      obtain ⟨length, distinct, usable⟩ := ih
      obtain ⟨label, split, free⟩ := caseLabels_concat raws raw
      rw [split]
      refine ⟨by simp [length], ?_, ?_⟩
      · rw [← List.concat_eq_append, List.nodup_concat]
        exact ⟨free.not_mem, distinct⟩
      · rw [List.forall_mem_append, List.forall_mem_singleton]
        exact ⟨usable, free.usable (labelBase_usable _ raw)⟩

/-! ## Values -/

/-- Each of some texts once, in the order in which they are first found. -/
structure Firsts (texts found : List String) : Prop where
  complete : ∀ text, text ∈ found ↔ text ∈ texts
  ordered : found.Pairwise fun first second => texts.idxOf first < texts.idxOf second

theorem firsts_foldl (texts : List String) :
    Firsts texts
      (texts.foldl (fun found raw => if found.contains raw then found else found ++ [raw]) []) := by
  induction texts using List.reverseRecOn with
  | nil => exact ⟨by simp, List.Pairwise.nil⟩
  | append_singleton texts text ih =>
      obtain ⟨complete, ordered⟩ := ih
      rw [List.foldl_append, List.foldl_cons, List.foldl_nil]
      generalize texts.foldl _ [] = found at complete ordered
      have before : found.Pairwise fun first second =>
          (texts ++ [text]).idxOf first < (texts ++ [text]).idxOf second := by
        refine ordered.imp_of_mem fun {first second} listed listed' before => ?_
        rwa [List.idxOf_append_of_mem ((complete first).mp listed),
          List.idxOf_append_of_mem ((complete second).mp listed')]
      by_cases seen : text ∈ found
      · rw [if_pos (by simpa using seen)]
        refine ⟨fun other => ?_, before⟩
        have known := (complete text).mp seen
        grind
      · rw [if_neg (by simpa using seen)]
        have unknown : text ∉ texts := fun known => seen ((complete text).mpr known)
        refine ⟨fun other => by simp [complete], List.pairwise_append.mpr ⟨before, ?_, ?_⟩⟩
        · exact List.pairwise_singleton _ _
        · intro first listed second last
          obtain rfl := List.mem_singleton.mp last
          have known := (complete first).mp listed
          rw [List.idxOf_append_of_mem known, List.idxOf_append_of_notMem unknown]
          exact Nat.lt_add_right _ (List.idxOf_lt_length_iff.mpr known)

/-- The cases of an enum for some values: one for each string among them, in the order in which they first
stand there, with the labels made for them, and written so that label and string can be read back. -/
structure Enumerates (values : List Literal) (cases : List EnumCase) : Prop where
  raws : Firsts (values.filterMap Literal.string?) (cases.map EnumCase.raw)
  labels : cases.map EnumCase.label = caseLabels (cases.map EnumCase.raw)
  read : ∀ enumCase ∈ cases, codingKey? enumCase.line = some (enumCase.label, enumCase.raw)

/-- The cases for some values have their labels and their values. -/
theorem cases_zipWith (raws : List String) :
    (List.zipWith EnumCase.mk (caseLabels raws) raws).map EnumCase.label = caseLabels raws ∧
      (List.zipWith EnumCase.mk (caseLabels raws) raws).map EnumCase.raw = raws := by
  have length := (caseLabels_distinct raws).1
  rw [← List.map_uncurry_zip_eq_zipWith, List.map_map, List.map_map]
  exact ⟨List.map_fst_zip (Nat.le_of_eq length), List.map_snd_zip (Nat.le_of_eq length.symm)⟩

theorem enumerates_zipWith (values : List Literal) :
    Enumerates values
      (List.zipWith EnumCase.mk (caseLabels (stringValues values)) (stringValues values)) := by
  obtain ⟨_, _, usable⟩ := caseLabels_distinct (stringValues values)
  obtain ⟨labels, raws⟩ := cases_zipWith (stringValues values)
  refine ⟨by rw [raws]; exact firsts_foldl _, by rw [raws, labels], ?_⟩
  intro enumCase listed
  have label : enumCase.label ∈ caseLabels (stringValues values) := by
    rw [← labels]
    exact List.mem_map_of_mem listed
  have names := Code.nameChars_of_isIdentifier (usable _ label).identifier
  exact Code.codingKey?_raw (fun blank => absurd (names _ blank) (by decide)) enumCase.raw

/-! ## Initial cases -/

section

variable {graph : Graph} {settings : Settings} {field owner : NodeId} {type : TypeExpr}
  {label text : String}

theorem declareEnum_literal (settings : Settings) (name : String) (description : Option String)
    (text : String) :
    ∃ label, (caseLabels [text]).head? = some label ∧
      declareEnum settings name description [.string text] = some (.enumeration
        { access := settings.access, name, conformance := settings.enumClause, description }
        [⟨label, text⟩]) :=
  ⟨_, rfl, rfl⟩

/-- An initial case is that of a literal that transforms lead to from the field. -/
theorem initialCase_literal (initial : initialCase graph settings field type = some label) :
    type.isOptional = false ∧
      ∃ owner text, graph.TransformsTo field owner ∧ graph.kind owner = .literal (.string text) ∧
        (caseLabels [text]).head? = some label := by
  unfold initialCase at initial
  split at initial
  · cases initial
  · next required =>
    have required : settings.assignsLiterals = true ∧ type.isOptional = false := by
      simpa using required
    obtain ⟨text, only, head⟩ := Option.bind_eq_some_iff.mp initial
    obtain ⟨owner, leads, kind⟩ := onlyString?_eq_some_iff.mp only
    exact ⟨required.2, owner, text, leads, kind, head⟩

/-- What transforms around a nominal node are typed as is the model of that node. -/
theorem Derives.model_of_transformsTo {budget : Nat} {site : Site} {state next : State}
    {events : List Event} {verdict : Verdict} {typed : Typed}
    (derived : Derives graph settings budget field site state events verdict next)
    (leads : graph.TransformsTo field owner) (nominal : (graph.kind owner).isNominal = true)
    (present : verdict = .ok (some typed)) :
    ∃ name binding, typed.type = .model owner name binding := by
  refine Derives.induction (P := fun id _ _ _ verdict _ => graph.TransformsTo id owner →
      ∀ typed, verdict = .ok (some typed) → ∃ name binding, typed.type = .model owner name binding)
    (fun _ => nofun) (fun typed => typed) ?_ derived leads typed present
  intro budget id site state events verdict next below step leads typed present
  -- A node that is no transform is the owner itself.
  have bare (bare : (graph.kind id).transformed? = none) : (graph.kind id).isNominal = true := by
    rwa [← leads.eq_of_bare bare]
  have own (nominal : (graph.kind id).isNominal = true) : owner = id := by
    apply leads.eq_of_bare
    cases kind : graph.kind id <;> simp_all [Kind.isNominal, Kind.transformed?]
  cases step with
  | primitive kind | empty kind | unsupported kind | collection kind _ =>
      simp [kind, Kind.isNominal, Kind.transformed?] at bare
  | endless kind _ | optional kind _ _ =>
      rcases kind with kind | kind <;> simp [kind, Kind.isNominal, Kind.transformed?] at bare
  | transform kind inner =>
      exact below inner (leads.of_transform (by rw [kind]; rfl)) typed present
  | promoted nominal _ | visible nominal _ _ =>
      cases present
      exact ⟨_, _, by rw [own nominal]⟩
  | accepted fresh _ _ _ _ | nested fresh _ _ _ =>
      cases present
      exact ⟨_, _, by rw [own fresh.nominal]⟩
  | collided _ _ _ _ _ | void _ _ _ _ | hollow _ _ _ _ => cases present

end

/-- There is one label for each value, and no two are the same; every label is usable, and it is the first
that is free after the labels before it.  An enum is declared just where a value is a string, and it
enumerates the strings.  A case that an initializer assigns by itself is the only case of the enum of the
field's type, and stands for the only string that the field allows. -/
theorem cases_follow_values (settings : Settings) :
    (∀ raws : List String,
      (caseLabels raws).length = raws.length ∧ (caseLabels raws).Nodup ∧
      (∀ label ∈ caseLabels raws, Usable reservedMembers label) ∧
      ∀ raw, ∃ label, caseLabels (raws ++ [raw]) = caseLabels raws ++ [label] ∧
        FirstFree (caseLabels raws) (labelBase (raws.length + 1) raw) label) ∧
    (∀ (name : String) (description : Option String) (values : List Literal),
      (declareEnum settings name description values = none ↔
        ∀ value ∈ values, value.string? = none) ∧
      ∀ definition, declareEnum settings name description values = some definition →
        ∃ heading cases, definition = .enumeration heading cases ∧
          definition.lines = Code.docComment? description ++
            Code.Lines.block heading.enumLine (cases.map EnumCase.line) ∧
          Enumerates values cases) ∧
    ∀ (graph : Graph) (field : NodeId) (type : TypeExpr) (label : String),
      initialCase graph settings field type = some label →
      ∃ owner text, graph.TransformsTo field owner ∧
        graph.kind owner = .literal (.string text) ∧
        (∀ typer name description scope depth state, ∃ heading,
          declare graph settings typer owner name description scope depth state =
            .ok (some (.enumeration heading [⟨label, text⟩])) state) ∧
        (∀ budget site state typed next,
          typeWithin graph settings budget field site state = .ok (some typed) next →
          ∃ name binding, typed.type = .model owner name binding) ∧
        ∀ key, (fieldProperty graph settings (key, field) type).parameter =
          Code.annotated (memberName key) type ++ " = ." ++ label := by
  refine ⟨fun raws => ?_, fun name description values => ⟨declareEnum_eq_none_iff, ?_⟩, ?_⟩
  · obtain ⟨length, distinct, usable⟩ := caseLabels_distinct raws
    exact ⟨length, distinct, usable, caseLabels_concat raws⟩
  · intro definition declared
    unfold declareEnum at declared
    simp only at declared
    split at declared
    · cases declared
    · cases declared
      exact ⟨_, _, rfl, by rw [Declaration.lines], enumerates_zipWith values⟩
  · intro graph field type label initial
    obtain ⟨required, owner, text, leads, kind, head⟩ := initialCase_literal initial
    refine ⟨owner, text, leads, kind, ?_, ?_, ?_⟩
    · intro typer name description scope depth state
      obtain ⟨label', head', declared⟩ := declareEnum_literal settings name description text
      obtain rfl := Option.some.inj (head.symm.trans head')
      refine ⟨{ access := settings.access, name, conformance := settings.enumClause, description }, ?_⟩
      simp only [declare, kind, declared]
      rfl
    · intro budget site state typed next run
      obtain ⟨events, verdict, _, ran, derived⟩ :=
        typeWithin_follows graph settings budget field site state
      have run : typeWithin graph settings budget field site state =
          ending (.ok (some typed)) next := run
      obtain ⟨rfl, rfl⟩ := ending_inj (run.symm.trans ran)
      exact derived.model_of_transformsTo leads (by rw [kind]; rfl) rfl
    · intro key
      simp only [Code.Property.parameter, fieldProperty, required, initial]
      rfl

/-- A literal under a transform. -/
def refinedLiteralGraph : Graph where
  nodes := #[{ kind := .literal (.string "in progress") }, { kind := .transform ⟨0⟩ }]

example : initialCase refinedLiteralGraph { assignsLiterals := true } ⟨1⟩ (.model ⟨0⟩ "Status" .scope) =
    some "inProgress" := by
  decide +kernel

end RouterClient.Typing
