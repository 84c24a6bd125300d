import RouterClient.Proofs.Code.Address

/-! # What the reader of a line passes over

The layout reads every line of a file once more, and counts the braces that are neither in a string
literal nor in a comment.  Names and types hold nothing that the reader looks for, a literal is closed
where it was opened whatever it stands for, and a doc comment is a comment up to its end.
-/

namespace RouterClient.Text

section

variable {mark c : Char} {cs line piece : List Char}

theorem pieces_cons_of_ne (cs : List Char) (other : c ≠ mark) :
    ∃ piece more, pieces mark cs = piece :: more ∧ pieces mark (c :: cs) = (c :: piece) :: more := by
  obtain ⟨piece, more, found⟩ := List.exists_cons_of_ne_nil (pieces_ne_nil mark cs)
  refine ⟨piece, more, found, ?_⟩
  rw [pieces] at found
  simp only [pieces, List.foldr_cons, if_neg other, found]

theorem mark_not_mem_pieces (listed : piece ∈ pieces mark cs) : mark ∉ piece := by
  induction cs generalizing piece with
  | nil =>
      obtain rfl := List.mem_singleton.mp listed
      exact List.not_mem_nil
  | cons c more ih =>
      by_cases marks : c = mark
      · subst marks
        rw [pieces_cons_mark] at listed
        rcases List.mem_cons.mp listed with rfl | listed
        · exact List.not_mem_nil
        · exact ih listed
      · obtain ⟨first, others, found, grown⟩ := pieces_cons_of_ne more marks
        rw [found] at ih
        rw [grown] at listed
        rcases List.mem_cons.mp listed with rfl | listed
        · rw [List.mem_cons, not_or]
          exact ⟨Ne.symm marks, ih List.mem_cons_self⟩
        · exact ih (List.mem_cons_of_mem _ listed)

/-- A text without the mark is the first piece when a mark follows it. -/
theorem pieces_append_mark (free : mark ∉ line) :
    pieces mark (line ++ mark :: cs) = line :: pieces mark cs := by
  induction line with
  | nil => exact pieces_cons_mark mark cs
  | cons c more ih =>
      rw [List.mem_cons, not_or] at free
      obtain ⟨other, free⟩ := free
      obtain ⟨piece, others, found, grown⟩ :=
        pieces_cons_of_ne (more ++ mark :: cs) (Ne.symm other)
      rw [ih free] at found
      obtain ⟨rfl, rfl⟩ := List.cons.inj found
      exact grown

theorem lines_append (free : '\n' ∉ line) (last : line.getLast? ≠ some '\r') :
    lines (line ++ '\n' :: cs) = line :: lines cs := by
  obtain ⟨piece, more, found⟩ := List.exists_cons_of_ne_nil (pieces_ne_nil '\n' cs)
  rw [lines, pieces_append_mark free, lines, found, linesOfPieces, dropCarriageReturn, if_neg last]
  exact nofun

theorem feed_not_mem_lines (listed : line ∈ lines cs) : '\n' ∉ line := by
  have inside (ps : List (List Char)) (free : ∀ piece ∈ ps, '\n' ∉ piece)
      (listed : line ∈ linesOfPieces ps) : '\n' ∉ line := by
    induction ps with
    | nil => cases listed
    | cons piece more ih =>
        obtain ⟨first, later⟩ := List.forall_mem_cons.mp free
        cases more with
        | nil =>
            rw [linesOfPieces] at listed
            split at listed
            · cases listed
            · obtain rfl := List.mem_singleton.mp listed
              exact first
        | cons second others =>
            have parts : linesOfPieces (piece :: second :: others) =
                dropCarriageReturn piece :: linesOfPieces (second :: others) := rfl
            rw [parts] at listed
            rcases List.mem_cons.mp listed with rfl | listed
            · rw [dropCarriageReturn]
              split
              · exact fun feed => first ((List.dropLast_sublist _).subset feed)
              · exact first
            · exact ih later listed
  exact inside _ (fun _ => mark_not_mem_pieces) listed

theorem mem_of_mem_trimEnd (listed : c ∈ trimEnd cs) : c ∈ cs :=
  List.mem_reverse.mp ((List.dropWhile_sublist _).subset (List.mem_reverse.mp listed))

theorem getLast?_trimEnd (last : (trimEnd cs).getLast? = some c) : isBlank c = false := by
  rw [trimEnd, List.getLast?_reverse] at last
  have kept := List.head?_dropWhile_not isBlank cs.reverse
  rw [last] at kept
  exact kept

end

end RouterClient.Text

namespace RouterClient.Code

/-- A character that neither ends a line nor means anything to the reader of a line. -/
def isPlain (c : Char) : Bool :=
  c != '"' && c != '/' && c != '\x7b' && c != '\x7d' && c != '\n' && c != '\r'

/-- A text of plain characters. -/
def Plain (text : String) : Prop :=
  ∀ c ∈ text.toList, isPlain c = true

instance (text : String) : Decidable (Plain text) :=
  decidable_of_iff (text.toList.all isPlain = true) List.all_eq_true

/-- A text over which the reader of a line passes: it comes from code to code, counts no brace, and
meets no end of the line. -/
structure Passed (text : String) : Prop where
  read : ∀ seen, text.toList.foldl LineState.step (.code false, seen) = (.code false, seen)
  whole : ∀ c ∈ text.toList, c ≠ '\n' ∧ c ≠ '\r'

/-- A line that stays one line when it is written among others. -/
def Whole (line : String) : Prop :=
  '\n' ∉ line.toList ∧ line.toList.getLast? ≠ some '\r'

/-- A line that leaves the level as it is. -/
structure Neutral (line : String) : Prop where
  whole : Whole line
  braces : (countBraces line.toList).opening = (countBraces line.toList).closing
  front : closesBlock (Text.trim line.toList) = false

/-- A line that opens a block. -/
structure Opens (line : String) : Prop where
  whole : Whole line
  braces : countBraces line.toList = ⟨1, 0⟩

section

variable {first second text : String}

theorem Plain.append (before : Plain first) (after : Plain second) : Plain (first ++ second) := by
  intro c listed
  rw [String.toList_append] at listed
  exact (List.mem_append.mp listed).elim (before c) (after c)

theorem Plain.passed (plain : Plain text) : Passed text where
  whole c listed := by
    have meant := plain c listed
    constructor <;> rintro rfl <;> cases meant
  read seen := by
    have through (cs : List Char) (all : ∀ c ∈ cs, isPlain c = true) :
        cs.foldl LineState.step (.code false, seen) = (.code false, seen) := by
      induction cs with
      | nil => rfl
      | cons c more ih =>
          obtain ⟨meant, later⟩ := List.forall_mem_cons.mp all
          simp only [isPlain, Bool.and_eq_true, bne_iff_ne] at meant
          obtain ⟨⟨⟨⟨⟨quote, slash⟩, opening⟩, closing⟩, _⟩, _⟩ := meant
          rw [List.foldl_cons, LineState.step, if_neg quote, if_neg slash, if_neg opening,
            if_neg closing]
          exact ih later
    exact through _ plain

theorem Passed.append (before : Passed first) (after : Passed second) : Passed (first ++ second) where
  read seen := by rw [String.toList_append, List.foldl_append, before.read, after.read]
  whole c listed := by
    rw [String.toList_append] at listed
    exact (List.mem_append.mp listed).elim (before.whole c) (after.whole c)

/-- Inside a literal, what stands for a character leaves the reader inside. -/
theorem escape_read (text : List Char) (seen : Braces) :
    (escape text).foldl LineState.step (.string, seen) = (.string, seen) := by
  induction text with
  | nil => rfl
  | cons c more ih =>
      rw [escape_cons, List.foldl_append]
      rcases escapeChar_cases c with ⟨plain, quote, slash⟩ | ⟨d, escaped, _⟩
      · rw [plain, List.foldl_cons, List.foldl_nil, LineState.step, if_neg slash, if_neg quote]
        exact ih
      · rw [escaped]
        exact ih

theorem escapeChar_whole (c : Char) : ∀ d ∈ escapeChar c, d ≠ '\n' ∧ d ≠ '\r' := by
  intro d listed
  unfold escapeChar at listed
  split at listed
  · rcases List.mem_pair.mp listed with rfl | rfl <;> decide
  split at listed
  · rcases List.mem_pair.mp listed with rfl | rfl <;> decide
  split at listed
  · rcases List.mem_pair.mp listed with rfl | rfl <;> decide
  split at listed
  · rcases List.mem_pair.mp listed with rfl | rfl <;> decide
  split at listed
  · rcases List.mem_pair.mp listed with rfl | rfl <;> decide
  · next feed carriage _ =>
    obtain rfl := List.mem_singleton.mp listed
    exact ⟨feed, carriage⟩

/-- A literal is passed over, whatever it stands for. -/
theorem literal_passed (text : String) : Passed (literal text) where
  read seen := by
    rw [literal_toList, List.cons_append, List.foldl_cons, List.foldl_append]
    have opened : LineState.step (.code false, seen) '"' = (.string, seen) := rfl
    rw [opened, escape_read]
    rfl
  whole c listed := by
    rw [literal_toList, List.cons_append] at listed
    rcases List.mem_cons.mp listed with rfl | listed
    · decide
    rcases List.mem_append.mp listed with listed | listed
    · obtain ⟨d, _, inside⟩ := List.mem_flatMap.mp listed
      exact escapeChar_whole d c inside
    · obtain rfl := List.mem_singleton.mp listed
      decide

/-! ## Lines -/

theorem Passed.isWhole (passed : Passed text) : Whole text where
  left listed := (passed.whole _ listed).1 rfl
  right last := (passed.whole _ (List.mem_of_getLast? last)).2 rfl

/-- Only braces are counted. -/
theorem step_count {c : Char} (opening : c ≠ '\x7b') (closing : c ≠ '\x7d')
    (state : LineState × Braces) : (LineState.step state c).2 = state.2 := by
  rcases state with ⟨_ | _ | _ | _, seen⟩
  · simp only [LineState.step, if_neg opening, if_neg closing]
    split
    · rfl
    · split
      · split <;> rfl
      · rfl
  · simp only [LineState.step]
    split
    · rfl
    · split <;> rfl
  · rfl
  · rfl

theorem step_blank {c : Char} (blank : Text.isBlank c = true) (state : LineState × Braces) :
    (LineState.step state c).2 = state.2 :=
  step_count (by rintro rfl; cases blank) (by rintro rfl; cases blank) state

theorem foldl_blank {cs : List Char} (blank : ∀ c ∈ cs, Text.isBlank c = true)
    (state : LineState × Braces) : (cs.foldl LineState.step state).2 = state.2 := by
  induction cs generalizing state with
  | nil => rfl
  | cons c more ih =>
      obtain ⟨first, later⟩ := List.forall_mem_cons.mp blank
      rw [List.foldl_cons, ih later, step_blank first]

/-- Braces are only counted further. -/
theorem closing_le_step (state : LineState × Braces) (c : Char) :
    state.2.closing ≤ (LineState.step state c).2.closing := by
  by_cases opening : c = '\x7b'
  · subst opening
    rcases state with ⟨_ | _ | _ | _, seen⟩ <;> exact Nat.le_refl _
  by_cases closing : c = '\x7d'
  · subst closing
    rcases state with ⟨_ | _ | _ | _, seen⟩
    · exact Nat.le_succ _
    · exact Nat.le_refl _
    · exact Nat.le_refl _
    · exact Nat.le_refl _
  · exact Nat.le_of_eq (congrArg Braces.closing (step_count opening closing state)).symm

theorem closing_le_foldl (cs : List Char) (state : LineState × Braces) :
    state.2.closing ≤ (cs.foldl LineState.step state).2.closing := by
  induction cs generalizing state with
  | nil => exact Nat.le_refl _
  | cons c more ih => exact Nat.le_trans (closing_le_step state c) (ih _)

/-- A brace at the start of a line is counted. -/
theorem closing_pos_of_closesBlock {line : List Char} (closes : closesBlock line = true) :
    0 < (countBraces line).closing := by
  cases line with
  | nil => cases closes
  | cons c more =>
      obtain rfl : c = '\x7d' := by simpa [closesBlock] using closes
      have grows := closing_le_foldl more (LineState.step (.code false, ⟨0, 0⟩) '\x7d')
      exact grows

theorem not_closesBlock_of_closing {line : List Char} (none : (countBraces line).closing = 0) :
    closesBlock line = false := by
  by_contra closes
  have positive := closing_pos_of_closesBlock (Bool.not_eq_false _ ▸ closes)
  exact Nat.lt_irrefl 0 (none ▸ positive)

/-- Trimming a line does not change its braces. -/
theorem countBraces_trim (line : List Char) : countBraces (Text.trim line) = countBraces line := by
  have start (cs : List Char) : countBraces (Text.trimStart cs) = countBraces cs := by
    induction cs with
    | nil => rfl
    | cons c more ih =>
        cases blank : Text.isBlank c with
        | false => rw [Text.trimStart, List.dropWhile_cons_of_neg (by simp [blank])]
        | true =>
            rw [Text.trimStart, List.dropWhile_cons_of_pos blank]
            refine ih.trans ?_
            have passed : LineState.step (.code false, ⟨0, 0⟩) c = (.code false, ⟨0, 0⟩) := by
              have quote : c ≠ '"' := by rintro rfl; cases blank
              have slash : c ≠ '/' := by rintro rfl; cases blank
              have opening : c ≠ '\x7b' := by rintro rfl; cases blank
              have closing : c ≠ '\x7d' := by rintro rfl; cases blank
              simp only [LineState.step, if_neg quote, if_neg slash, if_neg opening, if_neg closing]
            rw [countBraces, countBraces, List.foldl_cons, passed]
  have finish (cs : List Char) : countBraces (Text.trimEnd cs) = countBraces cs := by
    have parts : Text.trimEnd cs ++ (cs.reverse.takeWhile Text.isBlank).reverse = cs := by
      rw [Text.trimEnd, ← List.reverse_append, List.takeWhile_append_dropWhile, List.reverse_reverse]
    have blank : ∀ c ∈ (cs.reverse.takeWhile Text.isBlank).reverse, Text.isBlank c = true := by
      intro c listed
      exact List.all_eq_true.mp List.all_takeWhile c (List.mem_reverse.mp listed)
    conv => rhs; rw [← parts]
    rw [countBraces, countBraces, List.foldl_append, foldl_blank blank]
  rw [Text.trim, finish, start]

/-- A line without braces leaves the level as it is. -/
theorem Neutral.of_none (whole : Whole text) (none : countBraces text.toList = ⟨0, 0⟩) :
    Neutral text where
  whole := whole
  braces := by rw [none]
  front := not_closesBlock_of_closing (by rw [countBraces_trim, none])

theorem Passed.neutral (passed : Passed text) : Neutral text :=
  .of_none passed.isWhole (by rw [countBraces, passed.read])

/-- The head of a block. -/
theorem Passed.opens (passed : Passed text) : Opens (text ++ " \x7b") where
  whole := by
    refine ⟨fun listed => ?_, by simp [String.toList_append, List.getLast?_append]⟩
    rw [String.toList_append] at listed
    rcases List.mem_append.mp listed with listed | listed
    · exact (passed.whole _ listed).1 rfl
    · revert listed
      decide
  braces := by
    rw [countBraces, String.toList_append, List.foldl_append, passed.read]
    rfl

/-- A comment goes on up to the end of the line. -/
theorem foldl_comment (cs : List Char) (seen : Braces) :
    cs.foldl LineState.step (.comment, seen) = (.comment, seen) := by
  induction cs with
  | nil => rfl
  | cons c more ih => exact ih

/-- Every line of a doc comment leaves the level as it is. -/
theorem docComment_neutral (description : Option String) :
    ∀ line ∈ docComment? description, Neutral line := by
  intro line listed
  cases description with
  | none => cases listed
  | some description =>
      obtain ⟨written, found, rfl⟩ := List.mem_map.mp listed
      have inside : (String.ofList (Text.trimEnd written)).toList = Text.trimEnd written :=
        String.toList_ofList
      refine .of_none ⟨fun feed => ?_, fun last => ?_⟩ ?_
      · rw [String.toList_append, inside] at feed
        rcases List.mem_append.mp feed with feed | feed
        · revert feed
          decide
        · exact Text.feed_not_mem_lines found (Text.mem_of_mem_trimEnd feed)
      · rw [String.toList_append, inside, List.getLast?_append] at last
        cases ending : (Text.trimEnd written).getLast? with
        | none => simp [ending] at last
        | some c =>
            rw [ending] at last
            cases last
            have blank := Text.getLast?_trimEnd ending
            revert blank
            decide
      · rw [countBraces, String.toList_append, List.foldl_append]
        exact congrArg Prod.snd (foldl_comment _ _)

end

/-! ## Names -/

/-- A character of a name. -/
def isNameChar (c : Char) : Bool :=
  isWordChar c || c == '_'

section

variable {c : Char} {cs : List Char}

theorem toNat_lt_of_isWordChar (word : isWordChar c = true) : c.toNat < 128 := by
  have upper (is : c.isUpper = true) : c.val ≤ 'Z'.val := (of_decide_eq_true is).2
  have lower (is : c.isLower = true) : c.val ≤ 'z'.val :=
    of_decide_eq_true ((Bool.and_eq_true _ _).mp is).2
  have digit (is : c.isDigit = true) : c.val ≤ '9'.val :=
    of_decide_eq_true ((Bool.and_eq_true _ _).mp is).2
  have kinds : (c.isUpper || c.isLower || c.isDigit) = true := word
  simp only [Bool.or_eq_true] at kinds
  have low : c.val ≤ 'z'.val := by
    rcases kinds with (is | is) | is
    · exact UInt32.le_trans (upper is) (by decide)
    · exact lower is
    · exact UInt32.le_trans (digit is) (by decide)
  exact Nat.lt_of_le_of_lt (UInt32.le_iff_toNat_le.mp low) (by decide)

/-- There are few enough word characters to look at each of them. -/
theorem of_isWordChar {P : Char → Prop} (all : ∀ n < 128, P (.ofNat n)) (word : isWordChar c = true) :
    P c := by
  have holds := all c.toNat (toNat_lt_of_isWordChar word)
  rwa [Char.ofNat_toNat] at holds

theorem wordChar_facts (word : isWordChar c = true) :
    isWordChar c.toUpper = true ∧ isPlain c = true := by
  have all : ∀ n < 128, isWordChar (Char.ofNat n) = true →
      isWordChar (Char.ofNat n).toUpper = true ∧ isPlain (Char.ofNat n) = true := by
    decide
  exact of_isWordChar (P := fun c => isWordChar c = true → isWordChar c.toUpper = true ∧ isPlain c = true)
    all word word

theorem isPlain_of_isNameChar (name : isNameChar c = true) : isPlain c = true := by
  rcases (Bool.or_eq_true _ _).mp name with word | score
  · exact (wordChar_facts word).2
  · rw [beq_iff_eq.mp score]
    decide

theorem nameChar_of_wordChar (word : isWordChar c = true) : isNameChar c = true := by
  rw [isNameChar, word, Bool.true_or]

theorem camel_nameChars (pending : Bool) (cs : List Char) :
    ∀ c ∈ camel pending cs, isNameChar c = true := by
  fun_induction camel pending cs with
  | case1 => simp [isNameChar]
  | case2 => simp
  | case3 c rest word _ ih =>
      simp only [List.forall_mem_cons]
      exact ⟨nameChar_of_wordChar (wordChar_facts word).1, ih⟩
  | case4 c rest word _ ih =>
      simp only [List.forall_mem_cons]
      exact ⟨rfl, nameChar_of_wordChar word, ih⟩
  | case5 _ c rest word _ ih =>
      simp only [List.forall_mem_cons]
      exact ⟨nameChar_of_wordChar word, ih⟩
  | case6 _ c rest _ ih => exact ih

theorem escapeDigit_nameChars (names : ∀ c ∈ cs, isNameChar c = true) :
    ∀ c ∈ escapeDigit cs, isNameChar c = true := by
  unfold escapeDigit
  split
  · simp [isNameChar]
  · split
    · exact List.forall_mem_cons.mpr ⟨rfl, names⟩
    · exact names

theorem escapeReserved_nameChars (reserved : List String) (names : ∀ c ∈ cs, isNameChar c = true) :
    ∀ c ∈ escapeReserved reserved cs, isNameChar c = true := by
  unfold escapeReserved
  split
  · exact List.forall_mem_cons.mpr ⟨rfl, names⟩
  · exact names

theorem capitalize_nameChars (names : ∀ c ∈ cs, isNameChar c = true) :
    ∀ c ∈ capitalize cs, isNameChar c = true := by
  cases cs with
  | nil => exact nofun
  | cons c rest =>
      obtain ⟨first, later⟩ := List.forall_mem_cons.mp names
      refine List.forall_mem_cons.mpr ⟨?_, later⟩
      rcases (Bool.or_eq_true _ _).mp first with word | score
      · exact nameChar_of_wordChar (wordChar_facts word).1
      · rw [beq_iff_eq.mp score]
        decide

theorem typeName_nameChars (text : String) : ∀ c ∈ (typeName text).toList, isNameChar c = true := by
  rw [typeName, String.toList_ofList]
  exact escapeReserved_nameChars _ (escapeDigit_nameChars (capitalize_nameChars (camel_nameChars _ _)))

theorem memberName_nameChars (text : String) : ∀ c ∈ (memberName text).toList, isNameChar c = true := by
  rw [memberName, String.toList_ofList]
  exact escapeReserved_nameChars _ (escapeDigit_nameChars (camel_nameChars _ _))

/-- The name of a type is plain, whatever text it is made from. -/
theorem typeName_plain (text : String) : Plain (typeName text) :=
  fun c listed => isPlain_of_isNameChar (typeName_nameChars text c listed)

/-- The name of a member is plain, whatever text it is made from. -/
theorem memberName_plain (text : String) : Plain (memberName text) :=
  fun c listed => isPlain_of_isNameChar (memberName_nameChars text c listed)

theorem nameChars_of_isIdentifier (identifier : isIdentifier cs = true) :
    ∀ c ∈ cs, isNameChar c = true := by
  cases cs with
  | nil => exact nofun
  | cons c rest =>
      rw [isIdentifier, Bool.and_eq_true, List.all_eq_true] at identifier
      obtain ⟨first, later⟩ := identifier
      refine List.forall_mem_cons.mpr ⟨?_, later⟩
      rcases (Bool.or_eq_true _ _).mp first with letter | score
      · exact nameChar_of_wordChar (by rw [isWordChar, letter, Bool.true_or])
      · rw [beq_iff_eq.mp score]
        decide

theorem plain_of_isIdentifier {text : String} (identifier : isIdentifier text.toList = true) :
    Plain text :=
  fun c listed => isPlain_of_isNameChar (nameChars_of_isIdentifier identifier c listed)

theorem toString_nameChars (n : Nat) : ∀ c ∈ (toString n).toList, isNameChar c = true := by
  intro c listed
  have digits : c ∈ Nat.toDigits 10 n := by simpa using listed
  have digit := Nat.isDigit_of_mem_toDigits (by decide) (Nat.le_refl 10) digits
  exact nameChar_of_wordChar (by rw [isWordChar, digit, Bool.or_true])

end

end RouterClient.Code
