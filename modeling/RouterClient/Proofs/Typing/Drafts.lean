import RouterClient.Proofs.Typing.Rules
import RouterClient.Proofs.Code.Bodies

/-! # From members to bodies

The fields of an object and the options of a union do the same to the body of their declaration: a
member leaves it alone, or adds a type to it and nests a model in it.  So an invariant of the body
and the state is carried through either kind of declaration at once.
-/

namespace RouterClient.Code

@[simp] theorem TypeExpr.required_base (type : TypeExpr) : type.required.base = type.base := by
  induction type with
  | primitive | model | collection => rfl
  | optional inner ih => exact ih

end RouterClient.Code

namespace RouterClient.Typing

open Model (LocalModels Scope)
open Schema (NodeId Graph)
open Code (Body Declaration EnumCase TypeExpr typeName)

def RecordDraft.body (draft : RecordDraft) : Body :=
  ⟨draft.properties.map Code.Property.type, draft.models⟩

def UnionDraft.body (draft : UnionDraft) : Body :=
  ⟨draft.alternatives.map Code.Alternative.payload, draft.models⟩

/-- What a member whose typing comes to a verdict does to a body, and the failure that keeps the member
out of it. -/
inductive Joins (body : Body) : Verdict → Option Failure → Body → Prop where
  | absent : Joins body (.ok none) none body
  | failed {failure} : Joins body (.error failure) (some failure) body
  | refused {typed name} : Joins body (.ok (some typed)) (some (.nameCollision name)) body
  | kept {typed type models} :
      type.base = typed.type.base → body.models.absorb? typed.model = .ok models →
      Joins body (.ok (some typed)) none ⟨body.types ++ [type], models⟩

/-- What a member whose typing comes to a verdict does to a body. -/
inductive Grows (body : Body) (verdict : Verdict) : Body → Prop where
  | same : Grows body verdict body
  | more {typed type models} :
      verdict = .ok (some typed) → type.base = typed.type.base →
      body.models.absorb? typed.model = .ok models →
      Grows body verdict ⟨body.types ++ [type], models⟩

theorem Joins.grows {body grown : Body} {verdict : Verdict} {failure : Option Failure}
    (joins : Joins body verdict failure grown) : Grows body verdict grown := by
  cases joins with
  | absent | failed | refused => exact .same
  | kept based absorbed => exact .more rfl based absorbed

/-- A member joins a body unless its typing comes to nothing or a name is taken. -/
theorem Member.settle_joins {δ : Type} {member : Member δ} {body : δ → Body}
    (announced : ∀ draft, body (member.announce draft) = body draft)
    (refused : ∀ {draft typed failure}, member.add draft typed = .error failure →
      ∃ name, failure = .nameCollision name)
    (added : ∀ {draft typed grown}, member.add draft typed = .ok grown →
      Joins (body draft) (.ok (some typed)) none (body grown))
    (draft : δ) (verdict : Verdict) :
    Joins (body draft) verdict (member.settle draft verdict).2
      (body (member.settle draft verdict).1) := by
  rw [← announced draft]
  rcases verdict with failure | ⟨_ | typed⟩
  · exact .failed
  · exact .absent
  · cases result : member.add (member.announce draft) typed with
    | error failure =>
        obtain ⟨name, rfl⟩ := refused result
        simp only [settle, result]
        exact .refused
    | ok grown =>
        simp only [settle, result]
        exact added result

/-- What its announcement and its addition keep of a draft, a member keeps. -/
theorem Member.settle_keeps {δ : Type} {member : Member δ} {I : δ → Prop} {T : Typed → Prop}
    (announced : ∀ draft, I draft → I (member.announce draft))
    (added : ∀ {draft typed grown}, I draft → T typed → member.add draft typed = .ok grown → I grown)
    {draft : δ} {verdict : Verdict} (types : ∀ typed, verdict = .ok (some typed) → T typed)
    (before : I draft) : I (member.settle draft verdict).1 := by
  have known := announced draft before
  rcases verdict with failure | ⟨_ | typed⟩
  · exact known
  · exact known
  · unfold settle
    split
    · exact known
    · exact known
    · next same =>
      obtain rfl := Option.some.inj (Except.ok.inj same)
      split
      · exact known
      · next result => exact added known (types _ rfl) result

/-- What a field that joins keeps of a struct, every field keeps. -/
theorem fieldMember_preserves {graph : Graph} {settings : Settings} {name : String} {depth : Nat}
    {field : String × NodeId} {I : RecordDraft → Prop} {T : Typed → Prop}
    (joined : ∀ {draft typed models}, I draft → T typed →
      Code.memberName field.1 ∉ draft.properties.map Code.Property.name →
      draft.models.absorb? typed.model = .ok models →
      I ⟨draft.properties ++ [fieldProperty graph settings field typed.type], models⟩)
    {draft : RecordDraft} {verdict : Verdict} (types : ∀ typed, verdict = .ok (some typed) → T typed)
    (before : I draft) : I ((fieldMember graph settings name depth field).settle draft verdict).1 := by
  refine Member.settle_keeps (fun _ kept => kept) ?_ types before
  intro draft typed grown kept fits added
  simp only [fieldMember, RecordDraft.addField] at added
  split at added
  · cases added
  · next free =>
    split at added
    · cases added
    · next models absorbed =>
      cases added
      refine joined kept fits ?_ absorbed
      simpa [fieldProperty] using free

/-- What an attempt of a null and an option that joins keep of a union, every option keeps. -/
theorem optionMember_preserves {graph : Graph} {name : String} {depth : Nat} {option : NodeId × Nat}
    {I : UnionDraft → Prop} {T : Typed → Prop}
    (attempted : ∀ {draft : UnionDraft}, I draft → I draft.attemptNull)
    (joined : ∀ {draft typed models}, I draft → T typed →
      draft.models.absorb? typed.model = .ok models →
      I {
        alternatives := draft.alternatives ++
          [⟨draft.propertyFor (option.2 + 1) typed.type.required, typed.type.required⟩]
        attempts := draft.attempts ++
          [.decode ⟨draft.propertyFor (option.2 + 1) typed.type.required, typed.type.required⟩]
        models })
    {draft : UnionDraft} {verdict : Verdict} (types : ∀ typed, verdict = .ok (some typed) → T typed)
    (before : I draft) : I ((optionMember graph name depth option).settle draft verdict).1 := by
  refine Member.settle_keeps ?_ ?_ types before
  · intro draft kept
    simp only [optionMember]
    split
    · exact attempted kept
    · exact kept
  · intro draft typed grown kept fits added
    simp only [optionMember, UnionDraft.addOption] at added
    split at added
    · cases added
    · next models absorbed =>
      cases added
      exact joined kept fits absorbed

@[simp] theorem UnionDraft.attemptNull_alternatives (draft : UnionDraft) :
    draft.attemptNull.alternatives = draft.alternatives := by
  unfold attemptNull
  split <;> rfl

@[simp] theorem UnionDraft.attemptNull_models (draft : UnionDraft) :
    draft.attemptNull.models = draft.models := by
  unfold attemptNull
  split <;> rfl

theorem fieldMember_joins (graph : Graph) (settings : Settings) (name : String) (depth : Nat)
    (field : String × NodeId) (draft : RecordDraft) (verdict : Verdict) :
    Joins draft.body verdict
      ((fieldMember graph settings name depth field).settle draft verdict).2
      ((fieldMember graph settings name depth field).settle draft verdict).1.body := by
  refine Member.settle_joins (fun _ => rfl) ?_ ?_ draft verdict
  · intro draft typed failure refused
    simp only [fieldMember, RecordDraft.addField] at refused
    split at refused
    · cases refused
      exact ⟨_, rfl⟩
    · split at refused
      · next taken =>
        cases refused
        exact LocalModels.absorb?_error taken
      · cases refused
  · intro draft typed grown added
    simp only [fieldMember, RecordDraft.addField] at added
    split at added
    · cases added
    · split at added
      · cases added
      · next models absorbed =>
        cases added
        simp only [RecordDraft.body, List.map_append, List.map_singleton]
        exact .kept rfl absorbed

theorem optionMember_joins (graph : Graph) (name : String) (depth : Nat) (option : NodeId × Nat)
    (draft : UnionDraft) (verdict : Verdict) :
    Joins draft.body verdict ((optionMember graph name depth option).settle draft verdict).2
      ((optionMember graph name depth option).settle draft verdict).1.body := by
  refine Member.settle_joins ?_ ?_ ?_ draft verdict
  · intro draft
    simp only [optionMember]
    split
    · simp only [UnionDraft.body, UnionDraft.attemptNull_alternatives, UnionDraft.attemptNull_models]
    · rfl
  · intro draft typed failure refused
    simp only [optionMember, UnionDraft.addOption] at refused
    split at refused
    · next taken =>
      cases refused
      exact LocalModels.absorb?_error taken
    · cases refused
  · intro draft typed grown added
    simp only [optionMember, UnionDraft.addOption] at added
    split at added
    · cases added
    · next models absorbed =>
      cases added
      simp only [UnionDraft.body, List.map_append, List.map_singleton]
      exact .kept typed.type.required_base absorbed

/-- A member of a nominal node's declaration, and the site at which it is typed. -/
inductive IsMember (graph : Graph) (id : NodeId) (depth : Nat) : NodeId → Site → Prop where
  | field {fields field} :
      graph.kind id = .object fields → field ∈ fields →
      IsMember graph id depth field.2 (.member depth false (typeName field.1))
  | option {options option} {position : Nat} :
      graph.kind id = .union options → option ∈ options →
      IsMember graph id depth option (.member depth true ("Option" ++ toString (position + 1)))

theorem IsMember.child {graph : Graph} {id below : NodeId} {depth : Nat} {site : Site}
    (member : IsMember graph id depth below site) : below ∈ (graph.kind id).children := by
  cases member with
  | field kind listed =>
      rw [kind]
      exact List.mem_map_of_mem listed
  | option kind listed =>
      rw [kind]
      exact listed

section

variable {graph : Graph} {settings : Settings} {J : Judgement} {scope : Scope}

/-- What is known of the members is known where they are typed. -/
theorem Members.and {δ : Type} {Q : NodeId → Site → Prop} {members : List (Member δ)}
    {draft final : δ} {state last : State} {events : List Event}
    (runs : Members J scope members draft state events final last)
    (known : ∀ member ∈ members, Q member.id member.site) :
    Members (fun id site state events verdict next =>
        J id site state events verdict next ∧ Q id site)
      scope members draft state events final last := by
  induction runs with
  | nil => exact .nil
  | cons derived _ ih =>
      obtain ⟨first, later⟩ := List.forall_mem_cons.mp known
      exact .cons ⟨derived, first⟩ (ih later)

/-- Only members are typed for a declaration. -/
theorem Declares.at_members {id : NodeId} {name : String} {description : Option String} {depth : Nat}
    {state next : State} {events : List Event} {definition : Option Declaration}
    (declares : Declares graph settings J id name description scope depth state events definition
      next) :
    Declares graph settings (fun below site state events verdict next =>
        J below site state events verdict next ∧ IsMember graph id depth below site)
      id name description scope depth state events definition next := by
  cases declares with
  | record kind runs =>
      refine .record kind (runs.and fun member listed => ?_)
      obtain ⟨field, found, rfl⟩ := List.mem_map.mp listed
      exact .field kind found
  | enumeration kind => exact .enumeration kind
  | literal kind => exact .literal kind
  | union kind runs =>
      refine .union kind (runs.and fun member listed => ?_)
      obtain ⟨option, found, rfl⟩ := List.mem_map.mp listed
      exact .option kind (List.fst_mem_of_mem_zipIdx found)

/-- What each member keeps of a draft, given what is known of verdicts, holds at the end. -/
theorem Members.draft_invariant {δ : Type} {I : δ → Prop} {V : Verdict → Prop}
    {members : List (Member δ)} {draft final : δ} {state last : State} {events : List Event}
    (runs : Members J scope members draft state events final last)
    (known : ∀ {id site state events verdict next}, J id site state events verdict next → V verdict)
    (keeps : ∀ member ∈ members, ∀ draft verdict, V verdict → I draft →
      I (member.settle draft verdict).1)
    (start : I draft) : I final := by
  induction runs with
  | nil => exact start
  | cons derived _ ih =>
      obtain ⟨first, later⟩ := List.forall_mem_cons.mp keeps
      exact ih later (first _ _ (known derived) start)

/-- What holds before the members of a declaration and passes from one member to the next; `done` are
the nodes of the members that have been typed. -/
theorem Members.joins_invariant {δ : Type} {body : δ → Body} {members : List (Member δ)}
    {Q : NodeId → Site → Prop} {I : List NodeId → Body → List Event → State → Prop}
    (joins : ∀ member ∈ members, Q member.id member.site ∧ ∀ draft verdict,
      Joins (body draft) verdict (member.settle draft verdict).2
        (body (member.settle draft verdict).1))
    (pass : ∀ {done before after log id site state events verdict next failure} location,
      Q id site → J id site (state.within scope) events verdict next →
      Joins before verdict failure after → I done before log state →
      I (done ++ [id]) after (log ++ events) ((next.within state.scope).note location failure))
    {draft final : δ} {state last : State} {done : List NodeId} {log events : List Event}
    (runs : Members J scope members draft state events final last)
    (start : I done (body draft) log state) :
    I (done ++ members.map Member.id) (body final) (log ++ events) last := by
  induction runs generalizing done log with
  | nil => simpa using start
  | cons derived _ ih =>
      obtain ⟨asked, settled⟩ := joins _ List.mem_cons_self
      have more := ih (fun member later => joins member (List.mem_cons_of_mem _ later))
        (pass _ asked derived (settled _ _) start)
      rwa [List.append_assoc, List.append_assoc] at more

/-- What holds of a declaration with no members yet and passes from one member to the next holds of the
declaration, whose members are then the children of its node. -/
theorem Declares.joins_invariant {I : List NodeId → Body → List Event → State → Prop} {id : NodeId}
    {name : String} {description : Option String} {depth : Nat} {state next : State}
    {events : List Event} {definition : Option Declaration}
    (declares : Declares graph settings J id name description scope depth state events definition
      next)
    (start : I [] {} [] state)
    (pass : ∀ {done before after log below site state events verdict next failure} location,
      IsMember graph id depth below site → J below site (state.within scope) events verdict next →
      Joins before verdict failure after → I done before log state →
      I (done ++ [below]) after (log ++ events)
        ((next.within state.scope).note location failure)) :
    ∃ body, I (graph.kind id).children body events next ∧
      (∀ declaration, definition = some declaration →
        declaration.body = body ∧ declaration.heading.name = name) ∧
      (definition = none → body.types = []) ∧
      ∀ options, graph.kind id = .union options → body.types = [] → definition = none := by
  cases declares with
  | @record fields _ _ draft _ kind runs =>
      have joins : ∀ member ∈ fields.map (fieldMember graph settings name depth),
          IsMember graph id depth member.id member.site ∧ ∀ draft verdict,
          Joins (RecordDraft.body draft) verdict (member.settle draft verdict).2
            (RecordDraft.body (member.settle draft verdict).1) := by
        intro member listed
        obtain ⟨field, found, rfl⟩ := List.mem_map.mp listed
        exact ⟨.field kind found, fieldMember_joins graph settings name depth field⟩
      have held := Members.joins_invariant joins pass runs start
      refine ⟨draft.body, ?_, ?_, nofun, by simp [kind]⟩
      · simpa [kind, Schema.Kind.children, Function.comp_def, fieldMember] using held
      · intro declaration declared
        cases declared
        exact ⟨rfl, rfl⟩
  | enumeration kind | literal kind =>
      refine ⟨{}, by rw [kind]; exact start, ?_, fun _ => rfl, by simp [kind]⟩
      intro declaration declared
      simp only [declareEnum] at declared
      split at declared
      · cases declared
      · cases declared
        exact ⟨rfl, rfl⟩
  | @union options _ _ draft _ kind runs =>
      have joins : ∀ member ∈ options.zipIdx.map (optionMember graph name depth),
          IsMember graph id depth member.id member.site ∧ ∀ draft verdict,
          Joins (UnionDraft.body draft) verdict (member.settle draft verdict).2
            (UnionDraft.body (member.settle draft verdict).1) := by
        intro member listed
        obtain ⟨option, found, rfl⟩ := List.mem_map.mp listed
        exact ⟨.option kind (List.fst_mem_of_mem_zipIdx found),
          optionMember_joins graph name depth option⟩
      have held := Members.joins_invariant joins pass runs start
      refine ⟨draft.body, ?_, ?_, ?_, ?_⟩
      · simpa [kind, Schema.Kind.children, Function.comp_def, optionMember] using held
      · intro declaration declared
        simp only [UnionDraft.toDeclaration?] at declared
        split at declared
        · cases declared
        · cases declared
          exact ⟨rfl, rfl⟩
      · intro undeclared
        simp only [UnionDraft.toDeclaration?] at undeclared
        split at undeclared
        · next unused => simpa [UnionDraft.body] using unused
        · cases undeclared
      · intro _ _ unused
        have none : draft.alternatives = [] := by simpa [UnionDraft.body] using unused
        simp [UnionDraft.toDeclaration?, none]

/-- The same, where it does not matter which nodes the members are. -/
theorem Declares.body_invariant {I : Body → List Event → State → Prop} {id : NodeId} {name : String}
    {description : Option String} {depth : Nat} {state next : State} {events : List Event}
    {definition : Option Declaration}
    (declares : Declares graph settings J id name description scope depth state events definition
      next)
    (start : I {} [] state)
    (pass : ∀ {before after log id site state events verdict next} location failure,
      J id site (state.within scope) events verdict next → Grows before verdict after →
      I before log state →
      I after (log ++ events) ((next.within state.scope).note location failure)) :
    ∃ body, I body events next ∧ ∀ declaration, definition = some declaration →
      declaration.body = body ∧ declaration.heading.name = name := by
  obtain ⟨body, held, declared, _, _⟩ := declares.joins_invariant (I := fun _ => I) start
    fun location _ derived joins held => pass location _ derived joins.grows held
  exact ⟨body, held, declared⟩

/-- A declaration of a finished draft of which something holds, or of the cases of an enum. -/
inductive Drafted (settings : Settings) (name : String) (description : Option String)
    (I : RecordDraft → Prop) (K : UnionDraft → Prop) : Declaration → Prop where
  | record {draft : RecordDraft} :
      I draft → Drafted settings name description I K (draft.toDeclaration settings name description)
  | enumeration (raws : List String) :
      Drafted settings name description I K
        (.enumeration
          { access := settings.access, name, conformance := settings.enumClause, description }
          (List.zipWith EnumCase.mk (caseLabels raws) raws))
  | union {draft : UnionDraft} :
      K draft →
      Drafted settings name description I K
        (.choice { access := settings.access, name, conformance := settings.structClause, description }
          draft.alternatives draft.attempts draft.models)

theorem Declares.drafted {I : RecordDraft → Prop} {K : UnionDraft → Prop} {V : Verdict → Prop}
    {id : NodeId} {name : String} {description : Option String} {depth : Nat} {state next : State}
    {events : List Event} {definition : Declaration}
    (declares : Declares graph settings J id name description scope depth state events
      (some definition) next)
    (known : ∀ {id site state events verdict next}, J id site state events verdict next → V verdict)
    (field : ∀ field draft verdict, V verdict → I draft →
      I ((fieldMember graph settings name depth field).settle draft verdict).1)
    (option : ∀ option draft verdict, V verdict → K draft →
      K ((optionMember graph name depth option).settle draft verdict).1)
    (noFields : I {}) (noOptions : K {}) : Drafted settings name description I K definition := by
  generalize made : some definition = result at declares
  cases declares with
  | record _ runs =>
      cases made
      refine .record (runs.draft_invariant known ?_ noFields)
      intro member listed
      obtain ⟨own, _, rfl⟩ := List.mem_map.mp listed
      exact field own
  | enumeration _ | literal _ =>
      simp only [declareEnum] at made
      split at made
      · cases made
      · cases made
        exact .enumeration _
  | union _ runs =>
      simp only [UnionDraft.toDeclaration?] at made
      split at made
      · cases made
      · cases made
        refine .union (runs.draft_invariant known ?_ noOptions)
        intro member listed
        obtain ⟨own, _, rfl⟩ := List.mem_map.mp listed
        exact option own

end

end RouterClient.Typing
