import RouterClient.Proofs.Code.Names

/-! # Question marks

A type is written with a question mark where a value may be absent.  One mark says so; Swift reads two as
another type.  So it matters that no two of them stand side by side, and that none is part of a name.
-/

namespace RouterClient.Code

open Model (LocalModels)
open Schema (NodeId Primitive Arrangement)

/-- No two question marks stand side by side. -/
def Single (text : String) : Prop :=
  ¬ ['?', '?'] <:+: text.toList

/-- A name in which no question mark stands. -/
def Unmarked (name : String) : Prop :=
  '?' ∉ name.toList

/-- A type is written with single question marks, and with one at its end only if it is optional. -/
structure TypeExpr.IsTidy (type : TypeExpr) : Prop where
  single : Single type.text
  unmarked : type.isOptional = false → type.text.toList.getLast? ≠ some '?'

theorem Unmarked.single {name : String} (unmarked : Unmarked name) : Single name :=
  fun inside => unmarked (inside.subset List.mem_cons_self)

theorem Single.append {before after : String} (first : Single before) (second : Single after)
    (apart : before.toList.getLast? ≠ some '?' ∨ after.toList.head? ≠ some '?') :
    Single (before ++ after) := by
  intro inside
  rw [String.toList_append, List.infix_append_iff] at inside
  rcases inside with inside | inside | ⟨left, right, split, ⟨early, early_eq⟩, ⟨late, late_eq⟩⟩
  · exact first inside
  · exact second inside
  · -- One of the marks ends the first text and the other begins the second.
    rcases left with _ | ⟨mark, _ | ⟨other, more⟩⟩
    · rw [List.nil_append] at split
      exact second (split ▸ ⟨[], late, late_eq⟩)
    · simp only [List.cons_append, List.nil_append, List.cons.injEq] at split
      obtain ⟨rfl, rfl⟩ := split
      rcases apart with apart | apart
      · exact apart (by simp [← early_eq])
      · exact apart (by simp [← late_eq])
    · simp only [List.cons_append, List.cons.injEq, List.nil_eq, List.append_eq_nil_iff] at split
      obtain ⟨rfl, rfl, rfl, rfl⟩ := split
      exact first ⟨early, [], by simpa using early_eq⟩

theorem Single.of_append {before after : String} (single : Single (before ++ after)) :
    Single before := by
  intro inside
  rw [Single, String.toList_append] at single
  exact single (inside.trans (List.prefix_append _ _).isInfix)

namespace TypeExpr

theorem isOptional_required (type : TypeExpr) : type.required.isOptional = false := by
  induction type with
  | primitive | model | collection => rfl
  | optional inner ih => exact ih

namespace IsTidy

variable {type : TypeExpr}

theorem primitive (p : Primitive) : (TypeExpr.primitive p).IsTidy := by
  have unmarked : Unmarked (primitiveName p) := by
    unfold Unmarked
    cases p <;> decide
  exact ⟨unmarked.single, fun _ last => unmarked (List.mem_of_getLast? last)⟩

theorem model (owner : NodeId) {name : String} (binding : Binding) (unmarked : Unmarked name) :
    (TypeExpr.model owner name binding).IsTidy :=
  ⟨unmarked.single, fun _ last => unmarked (List.mem_of_getLast? last)⟩

theorem collection (arrangement : Arrangement) (tidy : type.IsTidy) :
    (TypeExpr.collection arrangement type).IsTidy := by
  have around {before after : String} (first : Unmarked before) (last : Unmarked after)
      (closed : after.toList ≠ []) :
      Single (before ++ type.text ++ after) ∧
        (before ++ type.text ++ after).toList.getLast? ≠ some '?' := by
    constructor
    · refine Single.append (first.single.append tidy.single ?_) last.single (.inr fun mark => ?_)
      · exact .inl fun mark => first (List.mem_of_getLast? mark)
      · exact last (List.mem_of_head? mark)
    · rw [String.toList_append, List.getLast?_append_of_ne_nil _ closed]
      exact fun mark => last (List.mem_of_getLast? mark)
  unfold Unmarked at around
  have written : Single (collectionText arrangement type.text) ∧
      (collectionText arrangement type.text).toList.getLast? ≠ some '?' := by
    cases arrangement with
    | array | set | map => exact around (by decide) (by decide) (by decide)
  exact ⟨written.1, fun _ => written.2⟩

/-- A type that is not optional can be marked. -/
theorem optional (tidy : type.IsTidy) (required : type.isOptional = false) :
    (TypeExpr.optional type).IsTidy :=
  ⟨tidy.single.append (by unfold Single; decide) (.inl (tidy.unmarked required)), nofun⟩

theorem inner (tidy : (TypeExpr.optional type).IsTidy) : type.IsTidy := by
  refine ⟨tidy.single.of_append, fun _ last => tidy.single ?_⟩
  obtain ⟨before, written⟩ := List.getLast?_eq_some_iff.mp last
  exact ⟨before, [], by simp [text, String.toList_append, written]⟩

theorem required (tidy : type.IsTidy) : type.required.IsTidy := by
  induction type with
  | primitive | model | collection => exact tidy
  | optional inner ih => exact ih tidy.inner

/-- The written type ends in a question mark just where the type is optional. -/
theorem ends_iff (tidy : type.IsTidy) :
    type.text.toList.getLast? = some '?' ↔ type.isOptional = true := by
  constructor
  · intro last
    by_contra required
    exact tidy.unmarked (Bool.eq_false_iff.mpr required) last
  · intro optional
    cases type with
    | optional inner => simp [text, String.toList_append]
    | _ => cases optional

end IsTidy

end TypeExpr

/-! ## Where types are written -/

/-- The types that a declaration writes for its members, as they are written. -/
def Declaration.signatures : Declaration → List String
  | record _ properties _ => properties.map fun property => property.type.text
  | choice _ alternatives _ _ =>
    alternatives.flatMap fun alternative =>
      [alternative.payload.text ++ "?", alternative.payload.text]
  | enumeration _ _ => []

/-- The types that the methods of a class take and give, as they are written. -/
def RouteClass.signatures (cls : RouteClass) : List String :=
  cls.methods.flatMap fun method => method.types.map TypeExpr.text

end RouterClient.Code
