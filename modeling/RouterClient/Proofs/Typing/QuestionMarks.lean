import RouterClient.Proofs.Code.QuestionMarks
import RouterClient.Proofs.Typing.Names
import RouterClient.Proofs.Typing.Standards

/-! # Question marks of types

No name has a question mark in it, a collection closes with another character, and only a type that is not
optional is marked.  So whatever typing writes has single question marks.
-/

namespace RouterClient.Typing

open Model (LocalModels)
open Schema (NodeId Graph)
open Code (Declaration Single TypeExpr Unmarked typeName_nameChars)

/-- No two question marks stand side by side in what a declaration, or anything nested in it, writes for
the types of its members. -/
def SinglyMarked (declaration : Declaration) : Prop :=
  Throughout (fun inner => ∀ signature ∈ inner.signatures, Single signature) declaration

/-- Names without question marks, and types with single ones. -/
def tidy : Standard where
  name := Unmarked
  type := TypeExpr.IsTidy
  declaration := SinglyMarked

structure RecordDraft.IsTidy (draft : RecordDraft) : Prop where
  properties : ∀ property ∈ draft.properties, property.type.IsTidy
  models : ∀ model ∈ draft.models, SinglyMarked model.definition

theorem RecordDraft.isTidy_empty : ({} : RecordDraft).IsTidy :=
  ⟨List.forall_mem_nil _, List.forall_mem_nil _⟩

structure UnionDraft.IsTidy (draft : UnionDraft) : Prop where
  payloads : ∀ alternative ∈ draft.alternatives,
    alternative.payload.IsTidy ∧ alternative.payload.isOptional = false
  models : ∀ model ∈ draft.models, SinglyMarked model.definition

theorem UnionDraft.isTidy_empty : ({} : UnionDraft).IsTidy :=
  ⟨List.forall_mem_nil _, List.forall_mem_nil _⟩

section

variable {graph : Graph} {settings : Settings} {name : String} {depth : Nat} {verdict : Verdict}

theorem fieldMember_tidy (field : String × NodeId) (draft : RecordDraft)
    (met : tidy.OfVerdict verdict) (before : draft.IsTidy) :
    ((fieldMember graph settings name depth field).settle draft verdict).1.IsTidy := by
  refine fieldMember_preserves ?_ met before
  intro draft typed models kept fits _ absorbed
  refine ⟨?_, fits.absorb? absorbed kept.models⟩
  exact List.forall_mem_append.mpr ⟨kept.properties, List.forall_mem_singleton.mpr fits.type⟩

theorem optionMember_tidy (option : NodeId × Nat) (draft : UnionDraft)
    (met : tidy.OfVerdict verdict) (before : draft.IsTidy) :
    ((optionMember graph name depth option).settle draft verdict).1.IsTidy := by
  refine optionMember_preserves ?_ ?_ met before
  · intro draft kept
    exact ⟨by simpa using kept.payloads, by simpa using kept.models⟩
  · intro draft typed models kept fits absorbed
    refine ⟨?_, fits.absorb? absorbed kept.models⟩
    refine List.forall_mem_append.mpr ⟨kept.payloads, List.forall_mem_singleton.mpr ?_⟩
    have payload : TypeExpr.IsTidy typed.type := fits.type
    exact ⟨payload.required, typed.type.isOptional_required⟩

/-- A declaration of members with tidy types writes single question marks. -/
theorem Declares.singlyMarked {J : Judgement} {id : NodeId} {description : Option String}
    {scope : Model.Scope} {state next : State} {events : List Event} {definition : Declaration}
    (below : ∀ {id site state events verdict next}, J id site state events verdict next →
      tidy.OfVerdict verdict)
    (declares : Declares graph settings J id name description scope depth state events
      (some definition) next) :
    SinglyMarked definition := by
  have drafted := declares.drafted (I := RecordDraft.IsTidy) (K := UnionDraft.IsTidy) below
    (fun field draft _ => fieldMember_tidy field draft)
    (fun option draft _ => optionMember_tidy option draft)
    RecordDraft.isTidy_empty UnionDraft.isTidy_empty
  cases drafted with
  | record kept =>
      refine Declaration.forall_everything.mpr ⟨?_, kept.models⟩
      intro signature written
      obtain ⟨property, listed, rfl⟩ := List.mem_map.mp written
      exact (kept.properties property listed).single
  | enumeration =>
      exact Declaration.forall_everything.mpr ⟨List.forall_mem_nil _, List.forall_mem_nil _⟩
  | union kept =>
      refine Declaration.forall_everything.mpr ⟨?_, kept.models⟩
      intro signature written
      obtain ⟨alternative, listed, written⟩ := List.mem_flatMap.mp written
      obtain ⟨payload, required⟩ := kept.payloads alternative listed
      rcases List.mem_pair.mp written with rfl | rfl
      · exact (payload.optional required).single
      · exact payload.single

theorem tidy_met (graph : Graph) (settings : Settings) :
    tidy.Met graph settings fun _ => True where
  label _ := trivial
  member _ := trivial
  typeName {text} _ mark := absurd (typeName_nameChars text '?' mark) (by decide)
  primitive := .primitive
  model id _ binding unmarked := .model id binding unmarked
  collection arrangement _ := .collection arrangement
  optional := .optional
  made below _ declares := declares.singlyMarked below

end

end RouterClient.Typing
