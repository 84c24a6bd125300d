import RouterClient.Document.Lowering
import RouterClient.Proofs.Document.Thorough
import RouterClient.Proofs.Json.Reading

/-! # What follows the first value of a text

A text is read up to the end of its first value.  What is accepted starts with a whole value, but
nothing looks at what follows that value: every other remainder gives the same document, the same
settings or the same mistake.  So an accepted text is one value exactly if its remainder is blank.
-/

namespace RouterClient

namespace Json

open Grammar Json.Tree

/-- A text as its first value, the blanks before that value and what follows it.  A number goes on
for as long as it can. -/
structure FirstValue (cs before value after : List Char) : Prop where
  whole : cs = before ++ (value ++ after)
  blank : IsBlank before
  valid : IsValue value
  ended : IsNumber value → EndsNumber after

section

variable {cs before value after : List Char}

theorem endsNumber_nil : EndsNumber [] :=
  nofun

theorem endsNumber_blank (blank : IsBlank cs) : EndsNumber cs :=
  fun c first => endsNumber_of_blank (blank c (List.mem_of_mem_head? first))

/-- The tree of the first value is the tree of that value alone. -/
theorem FirstValue.read_eq (first : FirstValue cs before value after) :
    (read cs).bare = ((read value).result, some after) := by
  obtain ⟨tree, reads⟩ := value_reads first.valid
  have alone := reads [] [] nofun fun _ => endsNumber_nil
  rw [List.nil_append, List.append_nil] at alone
  have same : (read value).result = tree := congrArg Prod.fst alone
  rw [first.whole, reads before after first.blank first.ended, same]

theorem FirstValue.after_unique {before' value' after' : List Char}
    (first : FirstValue cs before value after) (other : FirstValue cs before' value' after') :
    after = after' :=
  Option.some.inj (congrArg Prod.snd (first.read_eq.symm.trans other.read_eq))

/-- A text is one value exactly if nothing but blanks follows its first value. -/
theorem FirstValue.isElement_iff (first : FirstValue cs before value after) :
    IsElement cs ↔ IsBlank after := by
  constructor
  · intro element
    obtain ⟨blank, valid, blank'⟩ := element
    rw [first.after_unique ⟨rfl, blank, valid, fun _ => endsNumber_blank blank'⟩]
    exact blank'
  · intro blank
    rw [first.whole]
    exact .mk first.blank first.valid blank

theorem FirstValue.ofText_eq {text : String} (first : FirstValue text.toList before value after) :
    Tree.ofText text = Tree.ofText (String.ofList value) := by
  rw [Tree.ofText, Tree.ofText, String.toList_ofList]
  exact congrArg Prod.fst first.read_eq

/-- A list or an object is no number. -/
theorem not_isNumber_of_isNest {more : List Char} (blank : IsBlank before)
    (nest : (read (before ++ (value ++ more))).result.IsNest) : ¬ IsNumber value := by
  intro number
  obtain ⟨c, inside, rfl, starts⟩ := number.starts
  have visible : isJsonBlank c = false := by
    rcases starts with rfl | digit
    · decide
    · exact not_blank_of_isDigit digit
  have same : (read (before ++ (c :: inside ++ more))).bare = numberFrom (c :: (inside ++ more)) := by
    rw [← valueFrom_number starts]
    refine read_bare_cons ?_
    rw [skipBlank_append blank, List.cons_append, skipBlank_cons visible]
  have tree := congrArg Prod.fst same
  rw [show (read (before ++ (c :: inside ++ more))).result = _ from tree] at nest
  unfold numberFrom readNumber at nest
  cases found : scanNumeral (c :: (inside ++ more)) with
  | ok => rw [found] at nest; exact nest
  | error => rw [found] at nest; exact nest

/-- A list or an object without a fault is the first value of its text. -/
theorem firstValue_of_clean (clean : (read cs).result.looseFault? = none)
    (nest : (read cs).result.IsNest) :
    ∃ before value after, FirstValue cs before value after ∧ ¬ IsNumber value := by
  obtain ⟨before, value, after, blank, valid, rfl, _⟩ := read_sound cs clean
  have unsigned := not_isNumber_of_isNest blank nest
  exact ⟨before, value, after, ⟨rfl, blank, valid, fun number => absurd number unsigned⟩, unsigned⟩

theorem FirstValue.append (first : FirstValue cs before value after) (unsigned : ¬ IsNumber value)
    (more : List Char) : FirstValue (cs ++ more) before value (after ++ more) where
  whole := by rw [first.whole, List.append_assoc, List.append_assoc]
  blank := first.blank
  valid := first.valid
  ended number := absurd number unsigned

end

/-- Texts of which only the first value counts. -/
structure ReadsFirstValue {ε α : Type} (parse : String → Except ε α) : Prop where
  /-- What is accepted starts with a value, and is one value if nothing but blanks follows. -/
  starts : ∀ text found, parse text = .ok found →
    ∃ before value after, FirstValue text.toList before value after ∧
      (IsElement text.toList ↔ IsBlank after)
  /-- Whatever stands around the first value, that value alone decides. -/
  decides : ∀ text before value after, FirstValue text.toList before value after →
    parse text = parse (String.ofList value)
  /-- What is accepted stays so with anything behind it. -/
  passes : ∀ text found, parse text = .ok found → ∀ more, parse (text ++ more) = .ok found

/-- Whoever accepts a text by its tree, and only if the tree is a list or an object without a fault,
reads its first value. -/
theorem readsFirstValue_of_tree {ε α : Type} {parse : String → Except ε α}
    (ofTree : Tree → Except ε α)
    (same : ∀ text, parse text = ofTree (Tree.ofText text))
    (clean : ∀ tree found, ofTree tree = .ok found → tree.looseFault? = none ∧ tree.IsNest) :
    ReadsFirstValue parse := by
  have accepted {text : String} {found : α} (run : parse text = .ok found) :
      ∃ before value after, FirstValue text.toList before value after ∧ ¬ IsNumber value := by
    rw [same] at run
    obtain ⟨faultless, nest⟩ := clean _ _ run
    exact firstValue_of_clean faultless nest
  have decides (text : String) (before value after : List Char)
      (first : FirstValue text.toList before value after) :
      parse text = parse (String.ofList value) := by
    rw [same, same, first.ofText_eq]
  refine ⟨fun text found run => ?_, decides, fun text found run more => ?_⟩
  · obtain ⟨before, value, after, first, _⟩ := accepted run
    exact ⟨before, value, after, first, first.isElement_iff⟩
  · obtain ⟨before, value, after, first, unsigned⟩ := accepted run
    have longer := first.append unsigned more.toList
    rw [← String.toList_append] at longer
    rw [decides _ _ _ _ longer, ← decides _ _ _ _ first, run]

end Json

open Json Json.Decode

theorem Document.readsFirstValue (origin : String) :
    ReadsFirstValue fun text => Document.ofText text origin := by
  refine readsFirstValue_of_tree
    (fun tree => Document.ofDecoded origin (Written.Document.decode .text textLevels tree))
    (fun _ => rfl) fun tree document run => ?_
  cases decoded : Written.Document.decode .text textLevels tree with
  | error mistake =>
      rw [decoded] at run
      cases run
  | ok written => exact record_clean Written.Document.thorough_fields decoded

theorem Settings.readsFirstValue : ReadsFirstValue Settings.ofText :=
  readsFirstValue_of_tree (record "Configuration" (fields .text) {} .text textLevels) (fun _ => rfl)
    fun _ _ run => record_clean thorough_fields run

/-- A document or a configuration is read up to the end of its first value. -/
theorem texts_read_first_value (origin : String) :
    ReadsFirstValue (fun text => Document.ofText text origin) ∧ ReadsFirstValue Settings.ofText :=
  ⟨Document.readsFirstValue origin, Settings.readsFirstValue⟩

/-- An empty object with a word behind it is accepted, and it is no value. -/
theorem garbage_accepted :
    ¬ Grammar.IsElement "\x7b\x7d garbage".toList ∧
      (∃ document, Document.ofText "\x7b\x7d garbage" "doc.json" = .ok document) ∧
      ∃ settings, Settings.ofText "\x7b\x7d garbage" = .ok settings := by
  have valid : Grammar.IsValue ('\x7b' :: ([] ++ ['\x7d'])) := .emptyObject nofun
  have first : FirstValue "\x7b\x7d garbage".toList [] ['\x7b', '\x7d'] " garbage".toList :=
    { whole := rfl
      blank := nofun
      valid
      ended := fun number => absurd number (Tree.not_isNumber_cons (by decide) (by decide) _) }
  have tree : Tree.ofText "\x7b\x7d garbage" = .object [] .closed := by
    have read : (Tree.read ['\x7b', '\x7d']).bare = Tree.valueFrom '\x7b' ['\x7d'] :=
      Tree.read_bare_cons rfl
    rw [first.ofText_eq]
    exact congrArg Prod.fst read
  refine ⟨?_, ?_, ?_⟩
  · rw [first.isElement_iff]
    exact fun blank => absurd (blank 'g' (by decide)) (by decide)
  · rw [Document.ofText, Decode.ofText, tree]
    exact ⟨_, rfl⟩
  · rw [Settings.ofText, Decode.ofText, tree]
    exact ⟨_, rfl⟩

end RouterClient
