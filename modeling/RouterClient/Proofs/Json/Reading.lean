import RouterClient.Json.Tree
import RouterClient.Proofs.Json.Scanning

/-! # Reading follows the grammar

A text whose tree has no fault for a loose reader starts with a value of the grammar, after blanks, and a
value of the grammar is read whole.  The tree of the value is the same whatever follows it.
-/

namespace RouterClient.Json

open Grammar

namespace Tree

/-- A reading, with what is left of the text as it is. -/
def Reading.bare {α : Type} {n : Nat} (reading : Reading α n) : α × Option (List Char) :=
  (reading.result, reading.rest.map Subtype.val)

@[simp] theorem Reading.bare_within {α β : Type} {m n : Nat} (reading : Reading α m) (wrap : α → β)
    (h : m ≤ n) :
    (reading.within wrap h).bare = (wrap reading.bare.1, reading.bare.2) := by
  obtain ⟨result, rest⟩ := reading
  cases rest <;> rfl

/-! ## One step of reading -/

theorem length_lt_succ (cs : List Char) : cs.length < cs.length + 1 :=
  Nat.lt_succ_self _

def wordFrom (word : List Char) (tree : Tree) (cs : List Char) : Tree × Option (List Char) :=
  (readWord word tree cs (cs.length + 1) (length_lt_succ cs)).bare

def numberFrom (cs : List Char) : Tree × Option (List Char) :=
  (readNumber cs (cs.length + 1) (length_le_succ cs)).bare

/-- A string after its opening quote, with what is left of the text as it is. -/
def stringFrom (cs : List Char) : Except (Fault × Fault) (Except Fault String × List Char) :=
  (readString cs).map fun found => (found.1, found.2.1)

/-- The value that starts with a character, and what is left of the text. -/
def valueFrom (c : Char) (after : List Char) : Tree × Option (List Char) :=
  if c = 'n' then wordFrom ['u', 'l', 'l'] null after
  else if c = 't' then wordFrom ['r', 'u', 'e'] (bool true) after
  else if c = 'f' then wordFrom ['a', 'l', 's', 'e'] (bool false) after
  else if c = '-' ∨ c.isDigit then numberFrom (c :: after)
  else if c = '"' then
    match stringFrom after with
    | .ok (text, rest) => (string text, some rest)
    | .error (strict, loose) => (brokenString strict loose, none)
  else if c = '[' then
    match skipBlank after with
    | [] => (array [] .ended, none)
    | next :: rest =>
      if next = ']' then (array [] .closed, some rest)
      else (array (readItems after).bare.1.1 (readItems after).bare.1.2, (readItems after).bare.2)
  else if c = '\x7b' then
    match skipBlank after with
    | [] => (object [] .ended, none)
    | next :: rest =>
      if next = '\x7d' then (object [] .closed, some rest)
      else (object (readMembers after).bare.1.1 (readMembers after).bare.1.2, (readMembers after).bare.2)
  else (broken .notAValue .notAValue, none)

/-- How a list or an object goes on after one of its parts. -/
inductive Sequel where
  | ended
  | closed (rest : List Char)
  | endedAfterComma
  | trailingComma
  | more (rest : List Char)
  | unseparated

/-- How a list or an object that `closing` closes goes on. -/
def sequel (closing : Char) (after : List Char) : Sequel :=
  match skipBlank after with
  | [] => .ended
  | c :: rest =>
    if c = closing then .closed rest
    else if c = ',' then
      match skipBlank rest with
      | [] => .endedAfterComma
      | next :: _ => if next = closing then .trailingComma else .more rest
    else .unseparated

/-- The items from one on that has been read. -/
def itemsFrom : Tree × Option (List Char) → (List Tree × ListEnding) × Option (List Char)
  | (item, none) => (([item], .ended), none)
  | (item, some after) =>
    match sequel ']' after with
    | .ended => (([item], .ended), none)
    | .closed rest => (([item], .closed), some rest)
    | .endedAfterComma => (([item], .endedAfterComma), none)
    | .trailingComma => (([item], .trailingComma), none)
    | .more rest =>
      ((item :: (readItems rest).bare.1.1, (readItems rest).bare.1.2), (readItems rest).bare.2)
    | .unseparated => (([item], .unseparated), none)

/-- The members from one on whose value has been read. -/
def membersFrom (key : Except Fault String) :
    Tree × Option (List Char) →
      (List (Except Fault String × Tree) × ObjectEnding) × Option (List Char)
  | (value, none) => (([(key, value)], .ended), none)
  | (value, some after) =>
    match sequel '\x7d' after with
    | .ended => (([(key, value)], .ended), none)
    | .closed rest => (([(key, value)], .closed), some rest)
    | .endedAfterComma => (([(key, value)], .endedAfterComma), none)
    | .trailingComma => (([(key, value)], .trailingComma), none)
    | .more rest =>
      (((key, value) :: (readMembers rest).bare.1.1, (readMembers rest).bare.1.2),
        (readMembers rest).bare.2)
    | .unseparated => (([(key, value)], .unseparated), none)

/-- The members from one on whose opening quote has been read. -/
def keyFrom (cs : List Char) :
    (List (Except Fault String × Tree) × ObjectEnding) × Option (List Char) :=
  match stringFrom cs with
  | .error (strict, loose) => (([], .brokenKey strict loose), none)
  | .ok (key, after) =>
    match skipBlank after with
    | [] => (([], .lonelyKey key true), none)
    | c :: rest =>
      if c ≠ ':' then (([], .lonelyKey key false), none) else membersFrom key (read rest).bare

section

variable {cs after : List Char} {c : Char}

theorem valueFrom_number (starts : c = '-' ∨ c.isDigit = true) :
    valueFrom c after = numberFrom (c :: after) := by
  have other {d : Char} (letter : d.isDigit = false) (unsigned : d ≠ '-') : c ≠ d := by
    rintro rfl
    rcases starts with rfl | digit
    · exact unsigned rfl
    · simp [digit] at letter
  unfold valueFrom
  rw [if_neg (other (by decide) (by decide)), if_neg (other (by decide) (by decide)),
    if_neg (other (by decide) (by decide)), if_pos starts]

theorem valueFrom_string (after : List Char) :
    valueFrom '"' after = match stringFrom after with
      | .ok (text, rest) => (string text, some rest)
      | .error (strict, loose) => (brokenString strict loose, none) := rfl

theorem valueFrom_array (after : List Char) :
    valueFrom '[' after = match skipBlank after with
      | [] => (array [] .ended, none)
      | next :: rest =>
        if next = ']' then (array [] .closed, some rest)
        else (array (readItems after).bare.1.1 (readItems after).bare.1.2, (readItems after).bare.2) :=
  rfl

theorem valueFrom_object (after : List Char) :
    valueFrom '\x7b' after = match skipBlank after with
      | [] => (object [] .ended, none)
      | next :: rest =>
        if next = '\x7d' then (object [] .closed, some rest)
        else
          (object (readMembers after).bare.1.1 (readMembers after).bare.1.2,
            (readMembers after).bare.2) :=
  rfl

theorem readWord_bare (word : List Char) (tree : Tree) (cs : List Char) (n : Nat) (h : cs.length < n) :
    (readWord word tree cs n h).bare = wordFrom word tree cs := by
  simp only [wordFrom, readWord]
  cases scanWord word cs <;> rfl

theorem readNumber_bare (cs : List Char) (n : Nat) (h : cs.length ≤ n) :
    (readNumber cs n h).bare = numberFrom cs := by
  simp only [numberFrom, readNumber]
  cases scanNumeral cs <;> rfl

theorem read_bare_nil (blank : skipBlank cs = []) : (read cs).bare = (absent, none) := by
  rw [read]
  split
  · rfl
  · next other => simp [blank] at other

theorem read_bare_cons (starts : skipBlank cs = c :: after) : (read cs).bare = valueFrom c after := by
  rw [read]
  split
  · next other => simp [starts] at other
  · next c' after' same =>
    obtain ⟨rfl, rfl⟩ := List.cons.inj (same.symm.trans starts)
    unfold valueFrom
    split
    · exact readWord_bare _ _ _ _ _
    split
    · exact readWord_bare _ _ _ _ _
    split
    · exact readWord_bare _ _ _ _ _
    split
    · exact readNumber_bare _ _ _
    split
    · simp only [stringFrom]
      cases readString after' <;> rfl
    split
    · split
      · next ended =>
        simp only [ended]
        rfl
      · next starts =>
        simp only [starts]
        split
        · rfl
        · rw [Reading.bare_within]
    split
    · split
      · next ended =>
        simp only [ended]
        rfl
      · next starts =>
        simp only [starts]
        split
        · rfl
        · rw [Reading.bare_within]
    · rfl

/-! What comes next in the text says how a list or an object goes on. -/

section

variable {closing next : Char} {rest more : List Char}

theorem sequel_ended (ends : skipBlank after = []) : sequel closing after = .ended := by
  simp only [sequel, ends]

theorem sequel_closed (starts : skipBlank after = closing :: rest) :
    sequel closing after = .closed rest := by
  simp only [sequel, starts, if_pos]

theorem sequel_endedAfterComma (other : ',' ≠ closing) (starts : skipBlank after = ',' :: rest)
    (ends : skipBlank rest = []) : sequel closing after = .endedAfterComma := by
  simp only [sequel, starts, ends, if_neg other, if_pos]

theorem sequel_trailingComma (other : ',' ≠ closing) (starts : skipBlank after = ',' :: rest)
    (goes : skipBlank rest = closing :: more) : sequel closing after = .trailingComma := by
  simp only [sequel, starts, goes, if_neg other, if_pos]

theorem sequel_more (other : ',' ≠ closing) (starts : skipBlank after = ',' :: rest)
    (goes : skipBlank rest = next :: more) (open_ : next ≠ closing) :
    sequel closing after = .more rest := by
  simp only [sequel, starts, goes, if_neg other, if_neg open_, if_pos]

theorem sequel_unseparated (starts : skipBlank after = c :: rest) (open_ : c ≠ closing)
    (apart : c ≠ ',') : sequel closing after = .unseparated := by
  simp only [sequel, starts, if_neg open_, if_neg apart]

end

theorem readItems_bare (cs : List Char) : (readItems cs).bare = itemsFrom (read cs).bare := by
  rw [readItems]
  split
  · next item same => rw [same]; rfl
  · next item after same =>
    rw [same]
    simp only [Reading.bare, Option.map_some, itemsFrom]
    split
    · next ended =>
      rw [sequel_ended ended]
      rfl
    · next c rest starts =>
      split
      · next closed =>
        subst closed
        rw [sequel_closed starts]
        rfl
      · next open_ =>
        split
        · next comma =>
          subst comma
          split
          · next ended =>
            rw [sequel_endedAfterComma open_ starts ended]
            rfl
          · next goes =>
            split
            · next closed =>
              subst closed
              rw [sequel_trailingComma open_ starts goes]
              rfl
            · next goesOn =>
              rw [sequel_more open_ starts goes goesOn]
              exact Reading.bare_within _ _ _
        · next apart =>
          rw [sequel_unseparated starts open_ apart]
          rfl

theorem readMembers_bare_nil (blank : skipBlank cs = []) :
    (readMembers cs).bare = (([], .endedAfterComma), none) := by
  rw [readMembers]
  split
  · rfl
  · next other => simp [blank] at other

theorem readMembers_bare_cons (starts : skipBlank cs = c :: after) :
    (readMembers cs).bare = if c ≠ '"' then (([], .unquotedKey), none) else keyFrom after := by
  rw [readMembers]
  split
  · next other => simp [starts] at other
  · next c' after' same =>
    obtain ⟨rfl, rfl⟩ := List.cons.inj (same.symm.trans starts)
    split
    · rfl
    unfold keyFrom stringFrom
    cases scanned : readString after' with
    | error faults => rfl
    | ok found =>
      simp only [Except.map]
      split
      · next ended => simp only [ended]; rfl
      · next starts =>
        simp only [starts]
        split
        · rfl
        split
        · next same => rw [same]; rfl
        · next same =>
          rw [same]
          simp only [Reading.bare, Option.map_some, membersFrom]
          split
          · next ended =>
            rw [sequel_ended ended]
            rfl
          · next starts =>
            split
            · next closed =>
              subst closed
              rw [sequel_closed starts]
              rfl
            · next open_ =>
              split
              · next comma =>
                subst comma
                split
                · next ended =>
                  rw [sequel_endedAfterComma open_ starts ended]
                  rfl
                · next goes =>
                  split
                  · next closed =>
                    subst closed
                    rw [sequel_trailingComma open_ starts goes]
                    rfl
                  · next goesOn =>
                    rw [sequel_more open_ starts goes goesOn]
                    exact Reading.bare_within _ _ _
              · next apart =>
                rw [sequel_unseparated starts open_ apart]
                rfl

/-! ## What is read is a value of the grammar -/

/-- The blanks in front of a text. -/
theorem skipBlank_split (cs : List Char) : ∃ before, IsBlank before ∧ cs = before ++ skipBlank cs :=
  ⟨cs.takeWhile isJsonBlank, fun _ => List.mem_takeWhile_imp, List.takeWhile_append_dropWhile.symm⟩

theorem split_of_skipBlank (starts : skipBlank cs = after) :
    ∃ before, IsBlank before ∧ cs = before ++ after := by
  obtain ⟨before, blank, split⟩ := skipBlank_split cs
  exact ⟨before, blank, by rwa [starts] at split⟩

theorem wordFrom_sound {word : List Char} {tree : Tree}
    (clean : (wordFrom word tree cs).1.looseFault? = none) :
    ∃ rest, cs = word ++ rest ∧ (wordFrom word tree cs).2 = some rest := by
  unfold wordFrom readWord at clean ⊢
  split
  · next rest found => exact ⟨rest.1, scanWord_ok found, rfl⟩
  · next found =>
    rw [found] at clean
    cases clean

theorem numberFrom_sound (clean : (numberFrom cs).1.looseFault? = none) :
    ∃ taken rest, IsNumber taken ∧ cs = taken ++ rest ∧ (numberFrom cs).2 = some rest := by
  unfold numberFrom readNumber at clean ⊢
  split
  · next rest found =>
    obtain ⟨taken, number, split⟩ := scanNumeral_ok found
    exact ⟨taken, rest.1, number, split, rfl⟩
  · next found =>
    rw [found] at clean
    cases clean

theorem stringFrom_ok {text : Except Fault String} {rest : List Char}
    (run : stringFrom cs = .ok (text, rest)) :
    ∃ inside, IsChars inside ∧ cs = inside ++ '"' :: rest := by
  have read : ∃ text rest', scanString false (cs.length + 1) [] cs (length_le_succ cs) =
      .ok (text, rest') ∧ rest'.1 = rest := by
    simp only [stringFrom, readString] at run
    split at run
    · next loose strict =>
      cases run
      exact ⟨_, _, loose, rfl⟩
    · next loose strict =>
      cases run
      exact ⟨_, _, loose, rfl⟩
    · cases run
    · cases run
  obtain ⟨_, _, scanned, rfl⟩ := read
  exact scanString_ok scanned

/-- A value of the grammar is read in front of a text. -/
def ReadsValue (cs : List Char) : Prop :=
  ∃ before value rest, IsBlank before ∧ IsValue value ∧ cs = before ++ (value ++ rest) ∧
    (read cs).bare.2 = some rest

/-- Elements are read in front of a text, up to a bracket. -/
def ReadsItems (cs : List Char) : Prop :=
  ∃ inside rest, IsElements inside ∧ cs = inside ++ ']' :: rest ∧ (readItems cs).bare.2 = some rest

/-- Members are read in front of a text, up to a brace. -/
def ReadsMembers (cs : List Char) : Prop :=
  ∃ inside rest, IsMembers inside ∧ cs = inside ++ '\x7d' :: rest ∧
    (readMembers cs).bare.2 = some rest

/-- The items that are read have no fault. -/
def CleanItems (cs : List Char) : Prop :=
  itemsFault? (readItems cs).bare.1.1 = none ∧ (readItems cs).bare.1.2.looseFault? = none

/-- The members that are read have no fault. -/
def CleanMembers (cs : List Char) : Prop :=
  membersFault? (readMembers cs).bare.1.1 = none ∧ (readMembers cs).bare.1.2.looseFault? = none

theorem valueFrom_sound (clean : (valueFrom c after).1.looseFault? = none)
    (items : CleanItems after → ReadsItems after)
    (members : CleanMembers after → ReadsMembers after) :
    ∃ value rest, IsValue value ∧ c :: after = value ++ rest ∧ (valueFrom c after).2 = some rest := by
  have word {word : List Char} {tree : Tree} (valid : IsValue (c :: word))
      (same : valueFrom c after = wordFrom word tree after) :
      ∃ value rest, IsValue value ∧ c :: after = value ++ rest ∧ (valueFrom c after).2 = some rest := by
    rw [same] at clean ⊢
    obtain ⟨rest, split, left⟩ := wordFrom_sound clean
    exact ⟨c :: word, rest, valid, congrArg (c :: ·) split, left⟩
  by_cases null : c = 'n'
  · subst null
    exact word .null rfl
  by_cases true : c = 't'
  · subst true
    exact word .true rfl
  by_cases false : c = 'f'
  · subst false
    exact word .false rfl
  by_cases number : c = '-' ∨ c.isDigit = Bool.true
  · rw [valueFrom_number number] at clean ⊢
    obtain ⟨taken, rest, valid, split, left⟩ := numberFrom_sound clean
    exact ⟨taken, rest, .number valid, split, left⟩
  by_cases quote : c = '"'
  · subst quote
    rw [valueFrom_string] at clean ⊢
    split
    · next run =>
      obtain ⟨inside, valid, split⟩ := stringFrom_ok run
      exact ⟨_, _, .string valid, by rw [split]; simp, rfl⟩
    · next run =>
      rw [run] at clean
      cases clean
  by_cases bracket : c = '['
  · subst bracket
    rw [valueFrom_array] at clean ⊢
    split
    · next ended =>
      rw [ended] at clean
      cases clean
    · next next rest starts =>
      simp only [starts] at clean
      obtain ⟨before, blank, split⟩ := split_of_skipBlank starts
      split
      · next closed =>
        exact ⟨_, rest, .emptyArray blank, by rw [split, closed]; simp, rfl⟩
      · next opened =>
        simp only [if_neg opened, looseFault?, Option.or_eq_none_iff] at clean
        obtain ⟨inside, rest, valid, split, left⟩ := items clean
        exact ⟨_, rest, .array valid, by rw [split]; simp, left⟩
  by_cases brace : c = '\x7b'
  · subst brace
    rw [valueFrom_object] at clean ⊢
    split
    · next ended =>
      rw [ended] at clean
      cases clean
    · next next rest starts =>
      simp only [starts] at clean
      obtain ⟨before, blank, split⟩ := split_of_skipBlank starts
      split
      · next closed =>
        exact ⟨_, rest, .emptyObject blank, by rw [split, closed]; simp, rfl⟩
      · next opened =>
        simp only [if_neg opened, looseFault?, Option.or_eq_none_iff] at clean
        obtain ⟨inside, rest, valid, split, left⟩ := members clean
        exact ⟨_, rest, .object valid, by rw [split]; simp, left⟩
  unfold valueFrom at clean
  rw [if_neg null, if_neg true, if_neg false, if_neg number, if_neg quote, if_neg bracket,
    if_neg brace] at clean
  cases clean

theorem skipBlank_of_closed {closing : Char} {rest : List Char}
    (found : sequel closing after = .closed rest) : skipBlank after = closing :: rest := by
  unfold sequel at found
  grind

theorem skipBlank_of_more {closing : Char} {rest : List Char}
    (found : sequel closing after = .more rest) : skipBlank after = ',' :: rest := by
  unfold sequel at found
  grind

/-- Items that have no fault go on with a bracket, or with a comma and more items. -/
theorem itemsFrom_clean {item : Tree} {items : List Tree} {ending : ListEnding}
    {left : Option (List Char)} (same : itemsFrom (item, some after) = ((items, ending), left))
    (clean : itemsFault? items = none) (closed : ending.looseFault? = none) :
    item.looseFault? = none ∧
      ((∃ rest, skipBlank after = ']' :: rest ∧ left = some rest) ∨
        ∃ rest, skipBlank after = ',' :: rest ∧ CleanItems rest ∧ left = (readItems rest).bare.2) := by
  simp only [itemsFrom] at same
  cases found : sequel ']' after with
  | closed rest =>
      rw [found] at same
      cases same
      exact ⟨(Option.or_eq_none_iff.mp clean).1, .inl ⟨rest, skipBlank_of_closed found, rfl⟩⟩
  | more rest =>
      rw [found] at same
      cases same
      obtain ⟨first, more⟩ := Option.or_eq_none_iff.mp clean
      exact ⟨first, .inr ⟨rest, skipBlank_of_more found, ⟨more, closed⟩, rfl⟩⟩
  | ended | endedAfterComma | trailingComma | unseparated =>
      rw [found] at same
      cases same
      cases closed

/-- Members that have no fault go on with a brace, or with a comma and more members. -/
theorem membersFrom_clean {key : Except Fault String} {value : Tree}
    {members : List (Except Fault String × Tree)} {ending : ObjectEnding} {left : Option (List Char)}
    (same : membersFrom key (value, some after) = ((members, ending), left))
    (clean : membersFault? members = none) (closed : ending.looseFault? = none) :
    value.looseFault? = none ∧
      ((∃ rest, skipBlank after = '\x7d' :: rest ∧ left = some rest) ∨
        ∃ rest, skipBlank after = ',' :: rest ∧ CleanMembers rest ∧
          left = (readMembers rest).bare.2) := by
  simp only [membersFrom] at same
  cases found : sequel '\x7d' after with
  | closed rest =>
      rw [found] at same
      cases same
      exact ⟨(Option.or_eq_none_iff.mp clean).1, .inl ⟨rest, skipBlank_of_closed found, rfl⟩⟩
  | more rest =>
      rw [found] at same
      cases same
      obtain ⟨first, more⟩ := Option.or_eq_none_iff.mp clean
      exact ⟨first, .inr ⟨rest, skipBlank_of_more found, ⟨more, closed⟩, rfl⟩⟩
  | ended | endedAfterComma | trailingComma | unseparated =>
      rw [found] at same
      cases same
      cases closed

/-- Members that have no fault have a key, a colon and a value. -/
theorem keyFrom_clean (closed : (keyFrom cs).1.2.looseFault? = none) :
    ∃ inside key left rest, IsChars inside ∧ cs = inside ++ '"' :: left ∧
      skipBlank left = ':' :: rest ∧ keyFrom cs = membersFrom key (read rest).bare := by
  unfold keyFrom at closed ⊢
  split at closed
  · cases closed
  · next key left found =>
    obtain ⟨inside, valid, split⟩ := stringFrom_ok found
    split at closed
    · cases closed
    · next c rest starts =>
      split at closed
      · cases closed
      · next colon =>
        obtain rfl := Decidable.not_not.mp colon
        exact ⟨inside, key, left, rest, valid, split, starts, by simp only [colon, if_false]⟩

/-- A value that is read has an element around it, up to what comes after its blanks. -/
theorem ReadsValue.element (reads : ReadsValue cs) {left rest : List Char}
    (left_eq : (read cs).bare.2 = some left) (starts : skipBlank left = rest) :
    ∃ element, IsElement element ∧ cs = element ++ rest := by
  obtain ⟨before, value, other, blank, valid, split, same⟩ := reads
  obtain rfl := Option.some.inj (same.symm.trans left_eq)
  obtain ⟨after, blank', split'⟩ := split_of_skipBlank starts
  refine ⟨_, .mk blank valid blank', ?_⟩
  rw [split, split', List.append_assoc, List.append_assoc]

mutual

theorem read_sound (cs : List Char) (clean : (read cs).bare.1.looseFault? = none) :
    ReadsValue cs := by
  cases starts : skipBlank cs with
  | nil =>
      rw [read_bare_nil starts] at clean
      cases clean
  | cons c after =>
      have shorter := length_lt_of_skipBlank starts
      rw [read_bare_cons starts] at clean
      obtain ⟨before, blank, split⟩ := split_of_skipBlank starts
      obtain ⟨value, rest, valid, split', left⟩ :=
        valueFrom_sound clean (readItems_sound after) (readMembers_sound after)
      exact ⟨before, value, rest, blank, valid, by rw [split, split'],
        by rw [read_bare_cons starts]; exact left⟩
termination_by (cs.length, 0)

theorem readItems_sound (cs : List Char) (clean : CleanItems cs) : ReadsItems cs := by
  have value := read_sound cs
  unfold CleanItems at clean
  unfold ReadsItems
  rw [readItems_bare] at clean ⊢
  rcases found : (read cs).bare with ⟨item, _ | after⟩
  · rw [found] at clean
    cases clean.2
  · rw [found] at clean value
    obtain ⟨item_clean, ends⟩ := itemsFrom_clean rfl clean.1 clean.2
    have value := value item_clean
    have left : (read cs).bare.2 = some after := by rw [found]
    rcases ends with ⟨rest, starts, same⟩ | ⟨rest, starts, more, same⟩
    · obtain ⟨element, valid, split⟩ := value.element left starts
      exact ⟨element, rest, .last valid, split, same⟩
    · obtain ⟨element, valid, split⟩ := value.element left starts
      have shorter : rest.length < cs.length := by
        rw [split]
        simp
        omega
      obtain ⟨inside, other, elements, split', left'⟩ := readItems_sound rest more
      refine ⟨_, other, .more valid elements, ?_, same.trans left'⟩
      rw [split, split']
      simp
termination_by (cs.length, 1)

theorem readMembers_sound (cs : List Char) (clean : CleanMembers cs) : ReadsMembers cs := by
  unfold CleanMembers at clean
  unfold ReadsMembers
  cases starts : skipBlank cs with
  | nil =>
      rw [readMembers_bare_nil starts] at clean
      cases clean.2
  | cons c afterQuote =>
      obtain ⟨before, blank, split⟩ := split_of_skipBlank starts
      rw [readMembers_bare_cons starts] at clean ⊢
      by_cases quote : c = '"'
      · subst quote
        rw [if_neg (not_not_intro rfl)] at clean ⊢
        obtain ⟨key, kept, left, rest, valid, split', starts', same⟩ := keyFrom_clean clean.2
        obtain ⟨between, blank', split''⟩ := split_of_skipBlank starts'
        have shorter : rest.length < cs.length := by
          rw [split, split', split'']
          simp
          omega
        have value := read_sound rest
        rw [same] at clean ⊢
        rcases found : (read rest).bare with ⟨content, _ | after⟩
        · rw [found] at clean
          cases clean.2
        · rw [found] at clean value
          obtain ⟨content_clean, ends⟩ := membersFrom_clean rfl clean.1 clean.2
          have value := value content_clean
          have left_eq : (read rest).bare.2 = some after := by rw [found]
          rcases ends with ⟨last, starts, ended⟩ | ⟨last, starts, more, ended⟩
          · obtain ⟨element, element_valid, whole⟩ := value.element left_eq starts
            refine ⟨_, last, .last (.mk blank valid blank' element_valid), ?_, ended⟩
            rw [split, split', split'', whole]
            simp
          · obtain ⟨element, element_valid, whole⟩ := value.element left_eq starts
            have shorter : last.length < cs.length := by
              rw [split, split', split'', whole]
              simp
              omega
            obtain ⟨inside, other, members, whole', left'⟩ := readMembers_sound last more
            refine ⟨_, other, .more (.mk blank valid blank' element_valid) members, ?_,
              ended.trans left'⟩
            rw [split, split', split'', whole, whole']
            simp
      · rw [if_pos quote] at clean
        cases clean.2
termination_by (cs.length, 1)

end

/-! ## A value of the grammar is read -/

theorem skipBlank_append {before : List Char} (blank : IsBlank before) (cs : List Char) :
    skipBlank (before ++ cs) = skipBlank cs :=
  List.dropWhile_append_of_pos blank

theorem skipBlank_cons (visible : isJsonBlank c = false) (cs : List Char) :
    skipBlank (c :: cs) = c :: cs := by
  simp [skipBlank, visible]

theorem not_blank_of_isDigit (digit : c.isDigit = true) : isJsonBlank c = false := by
  simp only [isJsonBlank, Bool.or_eq_false_iff, beq_eq_false_iff_ne]
  exact ⟨⟨⟨digit_ne digit, digit_ne digit⟩, digit_ne digit⟩, digit_ne digit⟩

/-- A value starts with a character that neither is a blank nor closes a list. -/
theorem starts_of_isValue {value : List Char} (valid : IsValue value) :
    ∃ c more, value = c :: more ∧ isJsonBlank c = false ∧ c ≠ ']' := by
  cases valid with
  | number number =>
      obtain ⟨c, more, rfl, starts⟩ := number.starts
      refine ⟨c, more, rfl, ?_⟩
      rcases starts with rfl | digit
      · decide
      · exact ⟨not_blank_of_isDigit digit, digit_ne digit⟩
  | null | true | false | string | emptyArray | array | emptyObject | object =>
      exact ⟨_, _, rfl, by decide⟩

theorem starts_of_isElement {element : List Char} (valid : IsElement element) (other : List Char) :
    ∃ c more, skipBlank (element ++ other) = c :: more ∧ c ≠ ']' := by
  obtain ⟨blank, value, _⟩ := valid
  obtain ⟨c, more, rfl, visible, open_⟩ := starts_of_isValue value
  rw [List.append_assoc, skipBlank_append blank, List.append_assoc, List.cons_append,
    skipBlank_cons visible]
  exact ⟨c, _, rfl, open_⟩

theorem starts_of_isElements {elements : List Char} (valid : IsElements elements)
    (other : List Char) : ∃ c more, skipBlank (elements ++ other) = c :: more ∧ c ≠ ']' := by
  cases valid with
  | last element => exact starts_of_isElement element other
  | more element _ =>
      rw [List.append_assoc]
      exact starts_of_isElement element _

theorem starts_of_isMembers {members : List Char} (valid : IsMembers members) (other : List Char) :
    ∃ more, skipBlank (members ++ other) = '"' :: more := by
  have member {first : List Char} (valid : IsMember first) (other : List Char) :
      ∃ more, skipBlank (first ++ other) = '"' :: more := by
    obtain ⟨blank, _, _, _⟩ := valid
    rw [List.append_assoc, skipBlank_append blank, List.cons_append, skipBlank_cons (by decide)]
    exact ⟨_, rfl⟩
  cases valid with
  | last first => exact member first other
  | more first _ =>
      rw [List.append_assoc]
      exact member first _

theorem wordFrom_append (word : List Char) (tree : Tree) (other : List Char) :
    wordFrom word tree (word ++ other) = (tree, some other) := by
  obtain ⟨_, found⟩ := scanWord_append word other
  simp only [wordFrom, readWord, found]
  rfl

theorem numberFrom_append (number : IsNumber cs) :
    ∃ kept, ∀ other, EndsNumber other → numberFrom (cs ++ other) = (Tree.number kept, some other) := by
  obtain ⟨numeral, scanned⟩ := scanNumeral_append number
  refine ⟨numeral.value?.elim (.error .numberTooLarge) .ok, fun other ends => ?_⟩
  obtain ⟨_, found⟩ := landed_ok (scanned other ends)
  simp only [numberFrom, readNumber, found]
  cases numeral.value? <;> rfl

theorem stringFrom_append (valid : IsChars cs) :
    ∃ kept, ∀ other, stringFrom (cs ++ '"' :: other) = .ok (kept, other) := by
  obtain ⟨_, loose, scanned⟩ := scanString_append false valid []
  obtain ⟨text, rfl⟩ := loose rfl
  obtain ⟨kept, _, strictly⟩ := scanString_append true valid []
  refine ⟨kept, fun other => ?_⟩
  obtain ⟨_, loose⟩ := landed_ok (scanned _ other (length_le_succ _))
  have strict := strictly _ other (length_le_succ _)
  simp only [stringFrom, readString, loose]
  cases kept with
  | error fault =>
      cases found : scanString true _ [] (cs ++ '"' :: other) (length_le_succ _) with
      | error other =>
          rw [found] at strict
          cases strict
          rfl
      | ok => rw [found] at strict; cases strict
  | ok text =>
      obtain ⟨_, found⟩ := landed_ok strict
      simp only [found]
      rfl

/-- A value that has one tree, wherever it stands.  What follows a number must not carry it on. -/
def ValueReads (value : List Char) : Prop :=
  ∃ tree, ∀ before other, IsBlank before → (IsNumber value → EndsNumber other) →
    (read (before ++ (value ++ other))).bare = (tree, some other)

/-- An element that has one tree, wherever it stands in a list or an object. -/
def ElementReads (element : List Char) : Prop :=
  ∃ tree, ∀ c other, c = ',' ∨ c = ']' ∨ c = '\x7d' →
    ∃ left, (read (element ++ c :: other)).bare = (tree, some left) ∧ skipBlank left = c :: other

def ElementsRead (elements : List Char) : Prop :=
  ∃ items, ∀ other, (readItems (elements ++ ']' :: other)).bare = ((items, .closed), some other)

/-- A member that has one key and one tree, wherever it stands in an object. -/
def MemberReads (member : List Char) : Prop :=
  ∃ key tree, ∀ c other, c = ',' ∨ c = '\x7d' →
    ∃ left, (readMembers (member ++ c :: other)).bare = membersFrom key (tree, some left) ∧
      skipBlank left = c :: other

def MembersRead (members : List Char) : Prop :=
  ∃ found, ∀ other,
    (readMembers (members ++ '\x7d' :: other)).bare = ((found, .closed), some other)

theorem not_isNumber_cons {c : Char} (unsigned : c ≠ '-') (letter : c.isDigit = false)
    (more : List Char) : ¬ IsNumber (c :: more) := by
  intro number
  obtain ⟨d, _, same, starts⟩ := number.starts
  obtain rfl := (List.cons.inj same).1
  rcases starts with rfl | digit
  · exact unsigned rfl
  · simp [digit] at letter

/-- A value is read by its first character. -/
theorem valueReads_of {c : Char} {more : List Char} (tree : Tree) (visible : isJsonBlank c = false)
    (reads : ∀ other, (IsNumber (c :: more) → EndsNumber other) →
      valueFrom c (more ++ other) = (tree, some other)) : ValueReads (c :: more) := by
  refine ⟨tree, fun before other blank ends => ?_⟩
  have starts : skipBlank (before ++ (c :: more ++ other)) = c :: (more ++ other) := by
    rw [skipBlank_append blank, List.cons_append, skipBlank_cons visible]
  rw [read_bare_cons starts, reads other ends]

theorem endsNumber_of_blank (blank : isJsonBlank c = true) :
    c.isDigit = false ∧ c ≠ '.' ∧ c ≠ 'e' ∧ c ≠ 'E' := by
  simp only [isJsonBlank, Bool.or_eq_true, beq_iff_eq] at blank
  rcases blank with ((rfl | rfl) | rfl) | rfl <;> decide

theorem ValueReads.element {before value after : List Char} (reads : ValueReads value)
    (blank : IsBlank before) (blank' : IsBlank after) :
    ElementReads (before ++ (value ++ after)) := by
  obtain ⟨tree, reads⟩ := reads
  refine ⟨tree, fun c other closing => ⟨after ++ c :: other, ?_, ?_⟩⟩
  · have ends : EndsNumber (after ++ c :: other) := by
      intro d first
      cases after with
      | nil =>
          obtain rfl : c = d := Option.some.inj first
          rcases closing with rfl | rfl | rfl <;> decide
      | cons b after =>
          obtain rfl : b = d := Option.some.inj first
          exact endsNumber_of_blank (blank' b List.mem_cons_self)
    have same := reads before (after ++ c :: other) blank fun _ => ends
    rwa [← List.append_assoc value, ← List.append_assoc before] at same
  · rw [skipBlank_append blank']
    apply skipBlank_cons
    rcases closing with rfl | rfl | rfl <;> decide

theorem keyFrom_ok {key : Except Fault String} {rest : List Char}
    (scanned : stringFrom cs = .ok (key, after)) (starts : skipBlank after = ':' :: rest) :
    keyFrom cs = membersFrom key (read rest).bare := by
  simp only [keyFrom, scanned, starts, ne_eq, not_true_eq_false, if_false]

mutual

theorem value_reads : ∀ {value : List Char}, IsValue value → ValueReads value
  | _, .null => valueReads_of null (by decide) fun other _ => wordFrom_append _ _ other
  | _, .true => valueReads_of (bool true) (by decide) fun other _ => wordFrom_append _ _ other
  | _, .false => valueReads_of (bool false) (by decide) fun other _ => wordFrom_append _ _ other
  | _, .number valid => by
      obtain ⟨kept, reads⟩ := numberFrom_append valid
      obtain ⟨c, more, rfl, starts⟩ := valid.starts
      refine valueReads_of (number kept) ?_ fun other ends => ?_
      · rcases starts with rfl | digit
        · decide
        · exact not_blank_of_isDigit digit
      · rw [valueFrom_number starts]
        exact reads other (ends valid)
  | _, .string valid => by
      obtain ⟨kept, reads⟩ := stringFrom_append valid
      refine valueReads_of (string kept) (by decide) fun other _ => ?_
      rw [List.append_assoc, List.singleton_append, valueFrom_string, reads]
  | _, .emptyArray blank => by
      refine valueReads_of (array [] .closed) (by decide) fun other _ => ?_
      rw [List.append_assoc, List.singleton_append, valueFrom_array, skipBlank_append blank,
        skipBlank_cons (by decide)]
      rfl
  | _, .array valid => by
      obtain ⟨items, reads⟩ := elements_read valid
      refine valueReads_of (array items .closed) (by decide) fun other _ => ?_
      obtain ⟨c, rest, starts, other_⟩ := starts_of_isElements valid (']' :: other)
      rw [List.append_assoc, List.singleton_append, valueFrom_array, reads, starts]
      simp only [if_neg other_]
  | _, .emptyObject blank => by
      refine valueReads_of (object [] .closed) (by decide) fun other _ => ?_
      rw [List.append_assoc, List.singleton_append, valueFrom_object, skipBlank_append blank,
        skipBlank_cons (by decide)]
      rfl
  | _, .object valid => by
      obtain ⟨found, reads⟩ := members_read valid
      refine valueReads_of (object found .closed) (by decide) fun other _ => ?_
      obtain ⟨rest, starts⟩ := starts_of_isMembers valid ('\x7d' :: other)
      rw [List.append_assoc, List.singleton_append, valueFrom_object, reads, starts]
      rfl

theorem element_reads : ∀ {element : List Char}, IsElement element → ElementReads element
  | _, .mk blank valid blank' => (value_reads valid).element blank blank'

theorem elements_read : ∀ {elements : List Char}, IsElements elements → ElementsRead elements
  | _, .last valid => by
      obtain ⟨tree, reads⟩ := element_reads valid
      refine ⟨[tree], fun other => ?_⟩
      obtain ⟨left, same, starts⟩ := reads ']' other (.inr (.inl rfl))
      rw [readItems_bare, same]
      simp only [itemsFrom, sequel_closed starts]
  | _, .more valid more => by
      obtain ⟨tree, reads⟩ := element_reads valid
      obtain ⟨items, goes⟩ := elements_read more
      refine ⟨tree :: items, fun other => ?_⟩
      obtain ⟨left, same, starts⟩ := reads ',' _ (.inl rfl)
      obtain ⟨c, rest, next, open_⟩ := starts_of_isElements more (']' :: other)
      rw [List.append_assoc, List.cons_append, readItems_bare, same]
      simp only [itemsFrom, sequel_more (by decide) starts next open_, goes]

theorem member_reads : ∀ {member : List Char}, IsMember member → MemberReads member
  | _, .mk blank key blank' valid => by
      obtain ⟨kept, scanned⟩ := stringFrom_append key
      obtain ⟨tree, reads⟩ := element_reads valid
      refine ⟨kept, tree, fun c other closing => ?_⟩
      obtain ⟨left, same, starts⟩ := reads c other (closing.imp_right .inr)
      refine ⟨left, ?_, starts⟩
      rw [List.append_assoc, List.cons_append, List.append_assoc, List.cons_append,
        List.append_assoc, List.cons_append, ← same]
      rw [readMembers_bare_cons (by rw [skipBlank_append blank]; exact skipBlank_cons (by decide) _),
        if_neg (not_not_intro rfl)]
      refine keyFrom_ok (scanned _) ?_
      rw [skipBlank_append blank']
      exact skipBlank_cons (by decide) _

theorem members_read : ∀ {members : List Char}, IsMembers members → MembersRead members
  | _, .last valid => by
      obtain ⟨key, tree, reads⟩ := member_reads valid
      refine ⟨[(key, tree)], fun other => ?_⟩
      obtain ⟨left, same, starts⟩ := reads '\x7d' other (.inr rfl)
      rw [same]
      simp only [membersFrom, sequel_closed starts]
  | _, .more valid more => by
      obtain ⟨key, tree, reads⟩ := member_reads valid
      obtain ⟨found, goes⟩ := members_read more
      refine ⟨(key, tree) :: found, fun other => ?_⟩
      obtain ⟨left, same, starts⟩ := reads ',' _ (.inl rfl)
      obtain ⟨rest, next⟩ := starts_of_isMembers more ('\x7d' :: other)
      rw [List.append_assoc, List.cons_append, same]
      have more : sequel '\x7d' left = .more _ := sequel_more (by decide) starts next (by decide)
      simp only [membersFrom, more, goes]

end

end

end Tree

end RouterClient.Json
