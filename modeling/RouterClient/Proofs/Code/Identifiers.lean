import Mathlib.Data.Finset.Card
import Mathlib.Data.Finset.Image
import RouterClient.Proofs.Code.Names

/-! # Usable names

Whatever text a name is made from, it is an identifier, and none that Swift reserves where the name stands.
One such name is still of no use in a declaration: a text without an ASCII letter or digit comes down to the
wildcard `_`.
-/

namespace RouterClient.Code

/-- A text with an ASCII letter or digit. -/
def IsWorded (text : String) : Prop :=
  ∃ c ∈ text.toList, isWordChar c = true

instance (text : String) : Decidable (IsWorded text) :=
  decidable_of_iff (text.toList.any isWordChar = true) List.any_eq_true

/-- An identifier that is none of the reserved names. -/
structure Admissible (reserved : List String) (name : String) : Prop where
  identifier : isIdentifier name.toList = true
  free : name ∉ reserved

/-- A name that can be declared: it is not the wildcard either. -/
structure Usable (reserved : List String) (name : String) : Prop extends Admissible reserved name where
  named : name ≠ "_"

section

variable {c : Char} {cs rest suffix : List Char} {reserved : List String} {name : String}

/-! ## Identifiers -/

theorem isIdentifier_cons (names : ∀ d ∈ c :: rest, isNameChar d = true)
    (letter : c.isDigit = false) : isIdentifier (c :: rest) = true := by
  obtain ⟨first, later⟩ := List.forall_mem_cons.mp names
  rw [isIdentifier, Bool.and_eq_true, List.all_eq_true]
  refine ⟨?_, later⟩
  simpa [isNameChar, isWordChar, letter] using first

theorem isIdentifier_append (identifier : isIdentifier cs = true)
    (names : ∀ c ∈ suffix, isNameChar c = true) : isIdentifier (cs ++ suffix) = true := by
  cases cs with
  | nil => cases identifier
  | cons c rest =>
      rw [isIdentifier, Bool.and_eq_true, List.all_eq_true] at identifier
      rw [List.cons_append, isIdentifier, Bool.and_eq_true, List.all_append, Bool.and_eq_true,
        List.all_eq_true, List.all_eq_true]
      exact ⟨identifier.1, identifier.2, names⟩

theorem isIdentifier_escapeDigit (names : ∀ c ∈ cs, isNameChar c = true) :
    isIdentifier (escapeDigit cs) = true := by
  obtain ⟨c, rest, split, letter⟩ := escapeDigit_head cs
  rw [split]
  refine isIdentifier_cons ?_ letter
  rw [← split]
  exact escapeDigit_nameChars names

/-- A word that does not start with an underscore is told apart by one in front. -/
theorem admissible_escape (lettered : ∀ word ∈ reserved, word.toList.head? ≠ some '_')
    (names : ∀ c ∈ cs, isNameChar c = true) :
    Admissible reserved (.ofList (escapeReserved reserved (escapeDigit cs))) := by
  have identifier := isIdentifier_escapeDigit names
  unfold escapeReserved
  split
  · refine ⟨?_, fun listed => lettered _ listed (by rw [String.toList_ofList]; rfl)⟩
    rw [String.toList_ofList]
    refine isIdentifier_cons ?_ rfl
    exact List.forall_mem_cons.mpr ⟨rfl, nameChars_of_isIdentifier identifier⟩
  · next free => exact ⟨by rwa [String.toList_ofList], by simpa using free⟩

theorem reservedTypes_lettered : ∀ word ∈ reservedTypes, word.toList.head? ≠ some '_' := by
  decide

theorem reservedMembers_lettered : ∀ word ∈ reservedMembers, word.toList.head? ≠ some '_' := by
  decide

theorem typeName_admissible (text : String) : Admissible reservedTypes (typeName text) :=
  admissible_escape reservedTypes_lettered (capitalize_nameChars (camel_nameChars _ _))

theorem memberName_admissible (text : String) : Admissible reservedMembers (memberName text) :=
  admissible_escape reservedMembers_lettered (camel_nameChars _ _)

namespace Admissible

/-- A name with something after it in which no reserved word ends. -/
theorem append (admissible : Admissible reserved name) {suffix : String}
    (names : ∀ c ∈ suffix.toList, isNameChar c = true)
    (apart : ∀ word ∈ reserved, ¬ suffix.toList <:+ word.toList) :
    Admissible reserved (name ++ suffix) where
  identifier := by
    rw [String.toList_append]
    exact isIdentifier_append admissible.identifier names
  free listed := by
    refine apart _ listed ?_
    rw [String.toList_append]
    exact List.suffix_append _ _

/-- Swift reserves no member's name that ends in anything but a letter. -/
theorem append_member (admissible : Admissible reservedMembers name) {suffix : String}
    (names : ∀ c ∈ suffix.toList, isNameChar c = true)
    (ends : ∃ c, suffix.toList.getLast? = some c ∧ c.isAlpha = false) :
    Admissible reservedMembers (name ++ suffix) := by
  have letters : ∀ word ∈ reservedMembers, word.toList.getLast?.all Char.isAlpha = true := by decide
  refine admissible.append names fun word listed => ?_
  rintro ⟨before, split⟩
  obtain ⟨c, last, other⟩ := ends
  have letter := letters word listed
  simp [← split, List.getLast?_append, last, other] at letter

end Admissible

/-! ## The wildcard -/

theorem not_isWorded_wildcard : ¬ IsWorded "_" := by
  decide

theorem isWorded_append {name suffix : String} :
    IsWorded (name ++ suffix) ↔ IsWorded name ∨ IsWorded suffix := by
  simp only [IsWorded, String.toList_append, List.mem_append, or_and_right, exists_or]

/-- Names of words are not the wildcard. -/
theorem ne_wildcard_of_isWorded (worded : IsWorded name) : name ≠ "_" := by
  rintro rfl
  exact not_isWorded_wildcard worded

theorem isWordChar_toUpper (word : isWordChar c = true) : isWordChar c.toUpper = true :=
  (wordChar_facts word).1

theorem isWordChar_toLower (c : Char) : isWordChar c.toLower = isWordChar c := by
  by_cases upper : c.isUpper = true
  · have all : ∀ n < 128, (Char.ofNat n).isUpper = true →
        isWordChar (Char.ofNat n).toLower = true := by
      decide
    have alpha : c.isAlpha = true := (Bool.or_eq_true _ _).mpr (.inl upper)
    have word : isWordChar c = true := by rw [isWordChar, alpha, Bool.true_or]
    have lower := of_isWordChar (P := fun c => c.isUpper = true → isWordChar c.toLower = true) all word
    rw [lower upper, word]
  · have same : c.toLower = c := dif_neg fun within => upper (decide_eq_true within)
    rw [same]

theorem Admissible.usable_iff {p : Prop} (admissible : Admissible reserved name)
    (wildcard : name = "_" ↔ ¬ p) : Usable reserved name ↔ p :=
  ⟨fun usable => not_not.mp (mt wildcard.mpr usable.named),
    fun holds => ⟨admissible, fun same => wildcard.mp same holds⟩⟩

theorem camel_of_unworded (unworded : ∀ c ∈ cs, isWordChar c = false) (pending : Bool) :
    camel pending cs = [] ∨ camel pending cs = ['_'] := by
  induction cs generalizing pending with
  | nil => cases pending <;> simp
  | cons c rest ih =>
      obtain ⟨other, unworded⟩ := List.forall_mem_cons.mp unworded
      simpa [camel, other] using ih unworded true

theorem exists_word_camel (worded : ∃ c ∈ cs, isWordChar c = true) (pending : Bool) :
    ∃ c ∈ camel pending cs, isWordChar c = true := by
  fun_induction camel pending cs with
  | case1 | case2 => simp at worded
  | case3 c rest word letter ih => exact ⟨c.toUpper, .head _, isWordChar_toUpper word⟩
  | case4 c rest word letter ih => exact ⟨c, .tail _ (.head _), word⟩
  | case5 _ c rest word _ ih => exact ⟨c, .head _, word⟩
  | case6 _ c rest other ih =>
      apply ih
      simpa [other] using worded

theorem exists_word_capitalize (worded : ∃ c ∈ cs, isWordChar c = true) :
    ∃ c ∈ capitalize cs, isWordChar c = true := by
  obtain ⟨c, listed, word⟩ := worded
  cases cs with
  | nil => cases listed
  | cons first rest =>
      rcases List.mem_cons.mp listed with rfl | listed
      · exact ⟨c.toUpper, .head _, isWordChar_toUpper word⟩
      · exact ⟨c, .tail _ listed, word⟩

theorem subset_escapeDigit (cs : List Char) : cs ⊆ escapeDigit cs := by
  unfold escapeDigit
  split
  · exact List.nil_subset _
  · split
    · exact List.subset_cons_self _ _
    · exact List.Subset.refl _

theorem subset_escapeReserved (reserved : List String) (cs : List Char) :
    cs ⊆ escapeReserved reserved cs := by
  unfold escapeReserved
  split
  · exact List.subset_cons_self _ _
  · exact List.Subset.refl _

/-- A word in camel case is still there when the name is escaped. -/
theorem isWorded_escape (reserved : List String) (worded : ∃ c ∈ cs, isWordChar c = true) :
    IsWorded (.ofList (escapeReserved reserved (escapeDigit cs))) := by
  obtain ⟨c, listed, word⟩ := worded
  refine ⟨c, ?_, word⟩
  rw [String.toList_ofList]
  exact subset_escapeReserved _ _ (subset_escapeDigit cs listed)

theorem escape_wildcard (free : "_" ∉ reserved) (bare : cs = [] ∨ cs = ['_']) :
    String.ofList (escapeReserved reserved (escapeDigit cs)) = "_" := by
  have escaped : escapeDigit cs = ['_'] := by rcases bare with rfl | rfl <;> rfl
  have kept : String.ofList ['_'] ∉ reserved := free
  rw [escaped, escapeReserved, if_neg (by simpa using kept)]

theorem camelize_of_not_isWorded {text : String} (unworded : ¬ IsWorded text) :
    camelize text.toList = [] ∨ camelize text.toList = ['_'] := by
  refine camel_of_unworded (fun c listed => ?_) false
  exact Bool.eq_false_iff.mpr fun word => unworded ⟨c, listed, word⟩

end

theorem typeName_isWorded {text : String} (worded : IsWorded text) : IsWorded (typeName text) :=
  isWorded_escape _ (exists_word_capitalize (exists_word_camel worded false))

theorem memberName_isWorded {text : String} (worded : IsWorded text) : IsWorded (memberName text) :=
  isWorded_escape _ (exists_word_camel worded false)

/-- The name of a type is the wildcard just where its text has neither letters nor digits. -/
theorem typeName_eq_wildcard_iff {text : String} : typeName text = "_" ↔ ¬ IsWorded text := by
  constructor
  · intro wildcard worded
    exact ne_wildcard_of_isWorded (typeName_isWorded worded) wildcard
  · intro unworded
    refine escape_wildcard (by decide) ?_
    rcases camelize_of_not_isWorded unworded with bare | bare <;> rw [bare]
    · exact .inl rfl
    · exact .inr rfl

/-- The name of a member is the wildcard just where its text has neither letters nor digits. -/
theorem memberName_eq_wildcard_iff {text : String} : memberName text = "_" ↔ ¬ IsWorded text := by
  constructor
  · intro wildcard worded
    exact ne_wildcard_of_isWorded (memberName_isWorded worded) wildcard
  · intro unworded
    exact escape_wildcard (by decide) (camelize_of_not_isWorded unworded)

theorem typeName_usable_iff {text : String} : Usable reservedTypes (typeName text) ↔ IsWorded text :=
  (typeName_admissible text).usable_iff typeName_eq_wildcard_iff

theorem memberName_usable_iff {text : String} :
    Usable reservedMembers (memberName text) ↔ IsWorded text :=
  (memberName_admissible text).usable_iff memberName_eq_wildcard_iff

/-- The backing variable of an accessor is no wildcard, even where the accessor is. -/
theorem backing_usable (text : String) : Usable reservedMembers ("_" ++ memberName text) := by
  obtain ⟨c, rest, split, _⟩ := memberName_head text
  have chars : ("_" ++ memberName text).toList = '_' :: c :: rest := by
    rw [String.toList_append, split]
    rfl
  refine ⟨⟨?_, fun listed => ?_⟩, fun wildcard => ?_⟩
  · have names := memberName_nameChars text
    rw [split] at names
    rw [chars]
    exact isIdentifier_cons (List.forall_mem_cons.mpr ⟨rfl, names⟩) rfl
  · exact reservedMembers_lettered _ listed (by rw [chars]; rfl)
  · rw [wildcard] at chars
    cases chars

theorem isWorded_typeName {text : String} : IsWorded (typeName text) ↔ IsWorded text := by
  refine ⟨fun worded => ?_, typeName_isWorded⟩
  by_contra unworded
  exact ne_wildcard_of_isWorded worded (typeName_eq_wildcard_iff.mpr unworded)

/-! ## Names with a suffix -/

/-- No reserved type is called like the class of a namespace. -/
theorem typeName_route_usable (text : String) : Usable reservedTypes (typeName text ++ "Route") where
  toAdmissible := by
    have names : "Route".toList.all isNameChar = true := by decide
    have apart : ∀ word ∈ reservedTypes, "Route".toList.isSuffixOf word.toList = false := by decide
    refine (typeName_admissible text).append (List.all_eq_true.mp names) fun word listed ends => ?_
    have found := List.isSuffixOf_iff_suffix.mpr ends
    rw [apart word listed] at found
    cases found
  named := ne_wildcard_of_isWorded (isWorded_append.mpr (.inr (by decide)))

/-- A number ends in a digit. -/
theorem toString_ends (n : Nat) :
    ∃ c, (toString n).toList.getLast? = some c ∧ c.isDigit = true := by
  have last := List.getLast?_eq_some_getLast (Nat.toDigits_ne_nil (n := n) (b := 10))
  refine ⟨_, by simpa using last, ?_⟩
  exact Nat.isDigit_of_mem_toDigits (by decide) (Nat.le_refl 10) (List.mem_of_getLast? last)

theorem isAlpha_of_isDigit {c : Char} (digit : c.isDigit = true) : c.isAlpha = false := by
  have all : ∀ n < 128, (Char.ofNat n).isDigit = true → (Char.ofNat n).isAlpha = false := by decide
  have word : isWordChar c = true := by rw [isWordChar, digit, Bool.or_true]
  exact of_isWordChar (P := fun c => c.isDigit = true → c.isAlpha = false) all word digit

theorem isWorded_numbered (name : String) (n : Nat) : IsWorded (name ++ toString n) := by
  obtain ⟨c, last, digit⟩ := toString_ends n
  refine isWorded_append.mpr (.inr ⟨c, List.mem_of_getLast? last, ?_⟩)
  rw [isWordChar, digit, Bool.or_true]

/-- A number after a member's name makes it usable. -/
theorem Admissible.numbered {name : String} (admissible : Admissible reservedMembers name) (n : Nat) :
    Usable reservedMembers (name ++ toString n) where
  toAdmissible := by
    obtain ⟨c, last, digit⟩ := toString_ends n
    exact admissible.append_member (toString_nameChars n) ⟨c, last, isAlpha_of_isDigit digit⟩
  named := ne_wildcard_of_isWorded (isWorded_numbered name n)

theorem numbered_injective (name : String) : Function.Injective fun n : Nat => name ++ toString n := by
  intro few many same
  have digits : Nat.toDigits 10 few = Nat.toDigits 10 many := by
    simpa [← String.toList_inj, String.toList_append] using same
  have read := congrArg (fun digits => Nat.ofDigitChars 10 digits 0) digits
  simpa using read

/-! ## Names after a type -/

/-- The name of the model that a type is. -/
def TypeExpr.modelName? : TypeExpr → Option String
  | model _ name _ => some name
  | primitive _ | collection _ _ | optional _ => none

theorem alternativeName?_admissible {signature name : String}
    (given : alternativeName? signature = some name) : Admissible reservedMembers name := by
  unfold alternativeName? at given
  split at given
  · rw [← Option.some.inj given]
    exact memberName_admissible _
  · cases given

theorem alternativeName?_eq_wildcard_iff {signature name : String}
    (given : alternativeName? signature = some name) : name = "_" ↔ ¬ IsWorded signature := by
  have lowered : IsWorded (.ofList (uncapitalize signature.toList)) ↔ IsWorded signature := by
    cases split : signature.toList with
    | nil => simp [IsWorded, split, uncapitalize]
    | cons c rest => simp [IsWorded, split, uncapitalize, isWordChar_toLower]
  unfold alternativeName? at given
  split at given
  · rw [← Option.some.inj given, memberName_eq_wildcard_iff, lowered]
  · cases given

theorem alternativeName?_of_not_isWorded {signature : String}
    (identifier : isIdentifier signature.toList = true) (unworded : ¬ IsWorded signature) :
    alternativeName? signature = some "_" := by
  have given : alternativeName? signature =
      some (memberName (.ofList (uncapitalize signature.toList))) := by
    rw [alternativeName?, if_pos identifier]
  rw [given, (alternativeName?_eq_wildcard_iff given).mpr unworded]

/-- A type without brackets that is no model has a name of words. -/
theorem TypeExpr.isWorded_of_alternativeName? {type : TypeExpr} (required : type.isOptional = false)
    (other : type.modelName? = none) {name : String} (given : alternativeName? type.text = some name) :
    IsWorded type.text := by
  have bracketed {text : String} (bracket : isIdentifier text.toList = false) :
      alternativeName? text ≠ some name := by
    unfold alternativeName?
    rw [if_neg (by rw [bracket]; exact Bool.false_ne_true)]
    exact nofun
  cases type with
  | primitive p => cases p <;> decide
  | model owner title binding => cases other
  | optional inner => cases required
  | collection arrangement element =>
      refine absurd given (bracketed ?_)
      cases arrangement <;> simp [text, collectionText, String.toList_append, isIdentifier, isWordChar]

/-! ## Declarations -/

namespace Declaration

/-- The names of the properties or cases that a declaration has. -/
def memberNames : Declaration → List String
  | record _ properties _ => properties.map Property.name
  | choice _ alternatives _ _ => alternatives.map Alternative.property
  | enumeration _ cases => cases.map EnumCase.label

/-- The keys that the members of a declaration are called after. -/
def memberKeys : Declaration → List String
  | record _ properties _ => properties.map Property.key
  | choice _ _ _ _ | enumeration _ _ => []

/-- The names of models that the members of a declaration are called after. -/
def memberModels : Declaration → List String
  | choice _ alternatives _ _ => alternatives.filterMap fun alternative => alternative.payload.modelName?
  | record _ _ _ | enumeration _ _ => []

end Declaration

/-! ## Fresh names -/

/-- Among more names than are taken, one is free. -/
theorem exists_fresh (taken : List String) {names : Nat → String} (distinct : names.Injective) :
    ∃ count ≤ taken.length, names count ∉ taken := by
  have fewer : taken.toFinset.card < ((Finset.range (taken.length + 1)).image names).card := by
    rw [Finset.card_image_of_injective _ distinct, Finset.card_range]
    exact Nat.lt_succ_of_le taken.toFinset_card_le
  obtain ⟨name, made, free⟩ := Finset.exists_mem_notMem_of_card_lt_card fewer
  obtain ⟨count, within, rfl⟩ := Finset.mem_image.mp made
  exact ⟨count, Nat.lt_succ_iff.mp (Finset.mem_range.mp within), by simpa using free⟩

end RouterClient.Code
