import RouterClient.Proofs.Document.Decoding
import RouterClient.Settings

/-! # What is accepted has been read to its end

A decoder stops at the first thing that is wrong, and what it passes over it reads all the same.  So a tree
that is accepted while its text is read has no fault, wherever in it a fault might stand.
-/

namespace RouterClient

namespace Json

/-- A list or an object. -/
def Tree.IsNest : Tree → Prop
  | array _ _ | object _ _ => True
  | _ => False

namespace Decode

/-- A decoder that accepts only trees without a fault. -/
def Thorough {α : Type} (decode : Nat → Tree → Decoded α) : Prop :=
  ∀ levels tree value, decode levels tree = .ok value → tree.looseFault? = none

/-- A field that accepts only trees without a fault. -/
def FieldRule.Thorough {σ : Type} (field : FieldRule σ) : Prop :=
  ∀ levels tree before after, field.decode levels tree before = .ok after → tree.looseFault? = none

section

variable {α σ : Type} {decode : Nat → Tree → Decoded α} {levels : Nat} {tree : Tree}

theorem thorough_bool : Thorough fun _ => bool := by
  intro levels tree value run
  change bool tree = .ok value at run
  unfold bool at run
  split at run
  · rfl
  · exact absurd run (mismatch_ne_ok _ _ _)

theorem thorough_stringAs (expected : String) : Thorough fun _ => stringAs expected := by
  intro levels tree value run
  change stringAs expected tree = .ok value at run
  unfold stringAs at run
  split at run
  · rfl
  · exact absurd run (mismatch_ne_ok _ _ _)

theorem unit_clean {u : Unit} (run : unit tree = .ok u) : tree.looseFault? = none := by
  unfold unit at run
  split at run
  · rfl
  · exact absurd run (mismatch_ne_ok _ _ _)

theorem Thorough.option (thorough : Thorough decode) :
    Thorough fun levels => Decode.option (decode levels) := by
  intro levels tree value run
  change Decode.option (decode levels) tree = .ok value at run
  unfold Decode.option at run
  split at run
  · rfl
  · obtain ⟨found, decoded, _⟩ := map_ok run
    exact thorough _ _ _ decoded

/-! ## Lists -/

theorem items_clean {decode : Tree → Decoded α} {trees : List Tree} {i : Nat} {found : List α}
    (each : ∀ tree value, decode tree = .ok value → tree.looseFault? = none)
    (run : items decode i trees = .ok found) : Tree.itemsFault? trees = none := by
  induction trees generalizing i found with
  | nil => rfl
  | cons tree more ih =>
      obtain ⟨first, decoded, later⟩ := bind_ok run
      obtain ⟨others, rest, _⟩ := bind_ok later
      exact Option.or_eq_none_iff.mpr ⟨each tree first (under_ok decoded), ih rest⟩

theorem listEnd_ok {ending : ListEnding} {u : Unit} (run : listEnd ending = .ok u) :
    ending = .closed := by
  cases ending with
  | closed => rfl
  | _ => cases run

theorem Thorough.list (thorough : Thorough decode) : Thorough (list · decode) := by
  intro levels tree value run
  change Decode.list levels decode tree = .ok value at run
  unfold Decode.list at run
  split at run
  · next trees ending =>
    obtain ⟨left, _, later⟩ := bind_ok run
    obtain ⟨found, read, last⟩ := bind_ok later
    obtain ⟨_, ended, _⟩ := bind_ok last
    obtain rfl := listEnd_ok ended
    exact Option.or_eq_none_iff.mpr ⟨items_clean (thorough left) read, rfl⟩
  · exact absurd run (mismatch_ne_ok _ _ _)

/-! ## Tables -/

theorem entries_clean {decode : Tree → Decoded α} {start found : Table String α}
    {members : List (Except Fault String × Tree)}
    (each : ∀ tree value, decode tree = .ok value → tree.looseFault? = none)
    (run : entries decode start members = .ok found) : Tree.membersFault? members = none := by
  induction members generalizing start with
  | nil => rfl
  | cons member more ih =>
      obtain ⟨name, tree⟩ := member
      obtain ⟨_, _, later⟩ := bind_ok run
      obtain ⟨value, decoded, rest⟩ := bind_ok later
      exact Option.or_eq_none_iff.mpr ⟨each tree value (under_ok decoded), ih rest⟩

theorem objectEnd_ok {ending : ObjectEnding} {u : Unit} (run : objectEnd ending = .ok u) :
    ending = .closed := by
  cases ending with
  | closed => rfl
  | lonelyKey name ended => cases ended <;> cases run
  | _ => cases run

theorem tableEnd_ok {ending : ObjectEnding} {u : Unit} (run : tableEnd ending = .ok u) :
    ending = .closed := by
  unfold tableEnd at run
  split at run
  · obtain ⟨_, _, last⟩ := bind_ok run
    exact objectEnd_ok last
  · exact objectEnd_ok run

theorem Thorough.table (thorough : Thorough decode) : Thorough (table · decode) := by
  intro levels tree value run
  change Decode.table levels decode tree = .ok value at run
  unfold Decode.table at run
  split at run
  · next members ending =>
    obtain ⟨left, _, later⟩ := bind_ok run
    obtain ⟨found, read, last⟩ := bind_ok later
    obtain ⟨_, ended, _⟩ := bind_ok last
    obtain rfl := tableEnd_ok ended
    exact Option.or_eq_none_iff.mpr ⟨entries_clean (thorough left) read, rfl⟩
  · exact absurd run (mismatch_ne_ok _ _ _)

/-! ## Any value -/

mutual

theorem thorough_value : ∀ {levels : Nat} {tree : Tree} {found : Value},
    value levels tree = .ok found → tree.looseFault? = none
  | _, .null, _, _ | _, .bool _, _, _ | _, .number _, _, _ | _, .string _, _, _ => rfl
  | _, .array trees ending, _, run => by
      obtain ⟨left, _, later⟩ := bind_ok run
      obtain ⟨found, read, last⟩ := bind_ok later
      obtain ⟨_, ended, _⟩ := bind_ok last
      obtain rfl := listEnd_ok ended
      exact Option.or_eq_none_iff.mpr ⟨valueItems_clean read, rfl⟩
  | _, .object members ending, _, run => by
      obtain ⟨left, _, later⟩ := bind_ok run
      obtain ⟨found, read, last⟩ := bind_ok later
      obtain ⟨_, ended, _⟩ := bind_ok last
      obtain rfl := tableEnd_ok ended
      exact Option.or_eq_none_iff.mpr ⟨valueMembers_clean read, rfl⟩

theorem valueItems_clean : ∀ {levels i : Nat} {trees : List Tree} {found : List Value},
    valueItems levels i trees = .ok found → Tree.itemsFault? trees = none
  | _, _, [], _, _ => rfl
  | _, _, tree :: more, _, run => by
      obtain ⟨first, decoded, later⟩ := bind_ok run
      obtain ⟨others, rest, _⟩ := bind_ok later
      exact Option.or_eq_none_iff.mpr ⟨thorough_value (under_ok decoded), valueItems_clean rest⟩

theorem valueMembers_clean : ∀ {levels : Nat} {start found : Table String Value}
    {members : List (Except Fault String × Tree)},
    valueMembers levels start members = .ok found → Tree.membersFault? members = none
  | _, _, _, [], _ => rfl
  | _, _, _, (name, tree) :: more, run => by
      obtain ⟨_, _, later⟩ := bind_ok run
      obtain ⟨first, decoded, rest⟩ := bind_ok later
      exact Option.or_eq_none_iff.mpr ⟨thorough_value (under_ok decoded), valueMembers_clean rest⟩

end

/-! ## Choices -/

theorem bracedVariant_clean {variants : List (String × α)} {ending : ObjectEnding}
    {members : List (Except Fault String × Tree)} {found : α}
    (run : bracedVariant variants ending members = .ok found) :
    Tree.membersFault? members = none ∧ ending = .closed := by
  cases members with
  | nil =>
      cases ending with
      | lonelyKey key ended =>
          cases key with
          | error fault => cases run
          | ok name =>
              obtain ⟨_, _, last⟩ := bind_ok run
              cases ended <;> cases last
      | _ => cases run
  | cons member more =>
      obtain ⟨key, content⟩ := member
      cases key with
      | error fault => cases run
      | ok name =>
          obtain ⟨_, _, later⟩ := bind_ok run
          obtain ⟨_, empty, last⟩ := bind_ok later
          split at last
          · exact ⟨Option.or_eq_none_iff.mpr ⟨unit_clean (under_ok empty), rfl⟩, rfl⟩
          · cases last
          · cases last

theorem thorough_choice (variants : List (String × α)) : Thorough (choice variants .text) := by
  intro levels tree value run
  change choiceOfText variants levels tree = .ok value at run
  unfold choiceOfText at run
  split at run
  · rfl
  · cases run
  · cases run
  · cases run
  · obtain ⟨_, _, last⟩ := bind_ok run
    obtain ⟨clean, rfl⟩ := bracedVariant_clean last
    exact Option.or_eq_none_iff.mpr ⟨clean, rfl⟩
  · cases run

/-! ## Structures -/

variable {fields : List (FieldRule σ)}

theorem members_clean {seen names : List String} {start found : σ}
    {members : List (Except Fault String × Tree)} (thorough : ∀ field ∈ fields, field.Thorough)
    (run : Decode.members fields levels seen start members = .ok (names, found)) :
    Tree.membersFault? members = none := by
  induction members generalizing seen start with
  | nil => rfl
  | cons member more ih =>
      obtain ⟨name, tree⟩ := member
      obtain ⟨key, _, later⟩ := bind_ok run
      obtain ⟨field?, named, rest⟩ := bind_ok later
      cases field? with
      | none =>
          cases loose : tree.looseFault? with
          | some fault =>
              simp only [loose] at rest
              cases rest
          | none =>
              simp only [loose] at rest
              exact Option.or_eq_none_iff.mpr ⟨loose, ih rest⟩
      | some field =>
          obtain ⟨next, decoded, others⟩ := bind_ok rest
          have clean := thorough field (fieldOf?_ok named) _ _ _ _ (under_ok decoded)
          exact Option.or_eq_none_iff.mpr ⟨clean, ih others⟩

theorem membersEnd_ok {seen : List String} {ending : ObjectEnding} {u : Unit}
    (run : membersEnd fields seen ending = .ok u) : ending = .closed := by
  cases ending with
  | closed => rfl
  | lonelyKey name ended =>
      obtain ⟨_, _, later⟩ := bind_ok run
      obtain ⟨_, _, later⟩ := bind_ok later
      obtain ⟨_, closed, _⟩ := bind_ok later
      exact objectEnd_ok closed
  | _ =>
      obtain ⟨_, closed, _⟩ := bind_ok run
      exact objectEnd_ok closed

theorem elements_clean {whole : String} {count i : Nat} {ending : ListEnding} {trees : List Tree}
    {start found : σ} (thorough : ∀ field ∈ fields, field.Thorough)
    (run : elements .text whole count levels i ending start fields trees = .ok found) :
    Tree.itemsFault? trees = none ∧ ending = .closed := by
  induction fields generalizing i start trees with
  | nil =>
      obtain ⟨_, ended, _⟩ := bind_ok run
      simp only [elementsEnd] at ended
      split at ended
      · cases ended
      · next left =>
        split at ended
        · simp only [Bool.not_eq_true, Bool.not_eq_false', List.isEmpty_iff] at left
          exact ⟨by rw [left]; rfl, rfl⟩
        all_goals cases ended
  | cons field more ih =>
      obtain ⟨first, later⟩ := List.forall_mem_cons.mp thorough
      cases trees with
      | nil =>
          obtain ⟨_, ended, _⟩ := bind_ok run
          exact ⟨rfl, listEnd_ok ended⟩
      | cons tree trees =>
          obtain ⟨next, decoded, rest⟩ := bind_ok run
          obtain ⟨clean, closed⟩ := ih later rest
          exact ⟨Option.or_eq_none_iff.mpr ⟨first _ _ _ _ (under_ok decoded), clean⟩, closed⟩

theorem record_clean {name : String} {start found : σ} (thorough : ∀ field ∈ fields, field.Thorough)
    (run : record name fields start .text levels tree = .ok found) :
    tree.looseFault? = none ∧ tree.IsNest := by
  unfold record at run
  split at run
  · next written ending =>
    obtain ⟨left, _, later⟩ := bind_ok run
    obtain ⟨⟨seen, last⟩, read, rest⟩ := bind_ok later
    obtain ⟨_, ended, _⟩ := bind_ok rest
    obtain rfl := membersEnd_ok ended
    exact ⟨Option.or_eq_none_iff.mpr ⟨members_clean thorough read, rfl⟩, trivial⟩
  · next trees ending =>
    obtain ⟨left, _, read⟩ := bind_ok run
    obtain ⟨clean, rfl⟩ := elements_clean thorough read
    exact ⟨Option.or_eq_none_iff.mpr ⟨clean, rfl⟩, trivial⟩
  · exact absurd run (mismatch_ne_ok _ _ _)

theorem thorough_record {name : String} {start : σ} (thorough : ∀ field ∈ fields, field.Thorough) :
    Thorough (record name fields start .text) :=
  fun _ _ _ run => (record_clean thorough run).1

theorem Thorough.of (thorough : Thorough decode) (name : String) (set : σ → α → σ) :
    (FieldRule.of name decode set).Thorough := by
  intro levels tree before after run
  obtain ⟨found, decoded, _⟩ := of_ok run
  exact thorough levels tree found decoded

theorem FieldRule.Thorough.kept {field : FieldRule σ} (thorough : field.Thorough) :
    field.kept.Thorough :=
  thorough

theorem FieldRule.Thorough.needed {field : FieldRule σ} (thorough : field.Thorough) :
    field.needed.Thorough :=
  thorough

end

end Decode

end Json

open Json Json.Decode

namespace Written

theorem Schema.thorough_fields {decode : Nat → Tree → Decoded Schema} (thorough : Thorough decode) :
    ∀ field ∈ Schema.fields decode, field.Thorough := by
  have string : Thorough fun _ => Json.Decode.option Json.Decode.string :=
    (thorough_stringAs "a string").option
  have schema : Thorough fun levels => Json.Decode.option (decode levels) := thorough.option
  have value : Thorough Json.Decode.value := fun _ _ _ => thorough_value
  simp only [Schema.fields, List.forall_mem_cons, List.not_mem_nil, false_implies, implies_true]
  exact ⟨(string.of _ _).kept, (string.of _ _).kept, (string.of _ _).kept, (string.of _ _).kept,
    thorough_bool.of _ _, thorough_bool.of _ _, (schema.of _ _).kept, (schema.of _ _).kept,
    (schema.of _ _).kept, (thorough.table.option.of _ _).kept, (value.list.option.of _ _).kept,
    (value.option.of _ _).kept, (thorough.list.option.of _ _).kept, trivial⟩

theorem Schema.thorough_decode (budget : Nat) : Thorough (Schema.decode .text budget) := by
  induction budget with
  | zero => nofun
  | succ budget ih => exact thorough_record (Schema.thorough_fields ih)

theorem thorough_remarkFields : ∀ field ∈ remarkFields, field.Thorough := by
  simp only [remarkFields, List.forall_mem_cons, List.not_mem_nil, false_implies, implies_true]
  exact ⟨thorough_bool.option.of _ _, (thorough_stringAs "a string").option.of _ _, trivial⟩

theorem Procedure.thorough_fields : ∀ field ∈ Procedure.fields .text, field.Thorough := by
  have schema : Thorough fun levels => Schema.decode .text levels levels :=
    fun levels => Schema.thorough_decode levels levels
  simp only [Procedure.fields, List.forall_mem_cons, List.not_mem_nil, false_implies, implies_true]
  exact ⟨((thorough_choice callKinds).of _ _).needed, schema.option.of _ _, schema.list.of _ _,
    schema.option.of _ _, (thorough_record thorough_remarkFields).of _ _, trivial⟩

theorem Router.thorough_fields : ∀ field ∈ Router.fields .text, field.Thorough := by
  simp only [Router.fields, List.forall_mem_cons, List.not_mem_nil, false_implies, implies_true]
  exact ⟨(thorough_record Procedure.thorough_fields).table.of _ _, trivial⟩

theorem Document.thorough_fields : ∀ field ∈ Document.fields .text, field.Thorough := by
  have schema : Thorough fun levels => Schema.decode .text levels levels :=
    fun levels => Schema.thorough_decode levels levels
  simp only [Document.fields, List.forall_mem_cons, List.not_mem_nil, false_implies, implies_true]
  exact ⟨schema.table.of _ _, (thorough_record Router.thorough_fields).table.of _ _, trivial⟩

end Written

namespace Settings

theorem thorough_sectionField {key name : String} {fields : List (FieldRule Settings)}
    (thorough : ∀ field ∈ fields, field.Thorough) : (sectionField .text key name fields).Thorough :=
  fun _ _ _ _ run => (record_clean thorough run).1

theorem thorough_flagField (key : String) (set : Settings → Bool → Settings) :
    (flagField key set).Thorough :=
  thorough_bool.of key set

theorem thorough_fields : ∀ field ∈ Settings.fields .text, field.Thorough := by
  have names : Thorough (list · fun _ => string) := (thorough_stringAs "a string").list
  have file : Thorough fun _ => option filePath := (thorough_stringAs "path string").option
  simp only [Settings.fields, List.forall_mem_cons, List.not_mem_nil, false_implies, implies_true]
  refine ⟨(thorough_choice _).of _ _, thorough_sectionField ?_, thorough_sectionField ?_,
    thorough_sectionField ?_, thorough_sectionField ?_, thorough_flagField _ _,
    thorough_flagField _ _, thorough_flagField _ _, (thorough_stringAs "a string").option.of _ _,
    file.of _ _, file.of _ _, file.of _ _, trivial⟩
  all_goals
    simp only [List.forall_mem_cons, List.not_mem_nil, false_implies, implies_true, and_true]
  · exact ⟨names.of _ _, names.of _ _⟩
  · exact (thorough_choice _).of _ _
  · exact ⟨(thorough_choice _).of _ _, (thorough_choice _).of _ _⟩
  · exact thorough_flagField _ _

end Settings

end RouterClient
