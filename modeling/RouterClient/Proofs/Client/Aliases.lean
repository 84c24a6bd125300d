import RouterClient.Proofs.Client.Orphans

/-! # Names at the top of the file

A procedure that is offered brings its class the models that the class does not have yet, and each of them
may get a name at the top of the file.  The candidates follow the procedures in the order of the tree; a
name that is taken by the root class, by a candidate before it or by a global model is not given again.
What a procedure has brought to a class stays there, so a name always stands for a type that is declared.
-/

namespace RouterClient.Typing

open Schema (Graph NodeId)

/-- A type with a model that is still to be nested mentions that model. -/
def Carried (verdict : Verdict) : Prop :=
  ∀ typed model, verdict = .ok (some typed) → typed.model = some model →
    typed.type.base = .model model.owner model.name .scope

theorem Carried.map {verdict : Verdict} {f : Typed → Typed}
    (bases : ∀ typed, (f typed).type.base = typed.type.base)
    (models : ∀ typed, (f typed).model = typed.model) (carried : Carried verdict) :
    Carried (verdict.map (Option.map f)) := by
  intro typed model same holds
  rcases verdict with failure | ⟨_ | inner⟩
  · cases same
  · cases same
  · obtain rfl := Option.some.inj (Except.ok.inj same)
    rw [bases]
    exact carried inner model rfl ((models inner).symm.trans holds)

theorem Carried.whole {typed : Typed} (whole : typed.model = none) : Carried (.ok (some typed)) := by
  intro other model same holds
  cases same
  rw [whole] at holds
  cases holds

theorem Derives.modelMentioned {graph : Graph} {settings : Settings} {budget : Nat} {id : NodeId}
    {site : Site} {state next : State} {events : List Event} {verdict : Verdict}
    (derived : Derives graph settings budget id site state events verdict next) : Carried verdict := by
  refine Derives.induction (P := fun _ _ _ _ verdict _ => Carried verdict)
    nofun (fun carried => carried) ?_ derived
  intro _ _ _ _ _ _ _ below step
  cases step with
  | empty _ | void _ _ _ _ | hollow _ _ _ _ | unsupported _ | endless _ _
  | collided _ _ _ _ _ => exact nofun
  | primitive _ | promoted _ _ | visible _ _ _ | accepted _ _ _ _ _ => exact .whole rfl
  | optional _ _ inner => exact (below inner).map (Typed.mark_base _) (Typed.mark_model _)
  | collection _ inner => exact (below inner).map (Typed.collect_base _) (Typed.collect_model _)
  | transform _ inner => exact below inner
  | nested _ _ _ _ =>
      rintro _ _ ⟨⟩ ⟨⟩
      rfl

end RouterClient.Typing

namespace RouterClient.Code.RouteClass.Offers

/-- The body of the class that offers a method is in the class that the chain starts from. -/
theorem body_mem {cls last : RouteClass} {chain : List RouteClass} {method : Method}
    (offers : cls.Offers chain method) (ends : chain.getLast? = some last) : last.body ∈ cls.bodies := by
  induction offers with
  | @own cls _ _ =>
      obtain rfl : cls = last := Option.some.inj ends
      obtain ⟨name, segment, models, methods, children⟩ := cls
      rw [bodies]
      exact List.mem_cons_self
  | @nested cls child chain _ listed offers ih =>
      obtain ⟨more, rfl⟩ := offers.exists_cons
      obtain ⟨name, segment, models, methods, children⟩ := cls
      rw [List.getLast?_cons_cons] at ends
      rw [bodies, List.mem_cons, List.mem_append]
      exact .inr (.inr (mem_childBodies.mpr ⟨child, listed, ih ends⟩))

end RouterClient.Code.RouteClass.Offers

namespace RouterClient.Client

open Model (LocalModel LocalModels)
open Route (Entry Procedure)
open Schema (Graph NodeId)
open Code (Declaration Method RouteClass typeName)
open Typing

/-- A type brings a class its model, unless it has none or its node has a model there. -/
theorem nest_step {models all : LocalModels Declaration} {typed : Typed} {more : List Typed}
    {names : List String} (nested : nest models (typed :: more) = .ok (all, names)) :
    ∃ brought introduced, nest (models ++ brought) more = .ok (all, introduced) ∧
      names = brought.map LocalModel.name ++ introduced ∧
      ∀ model ∈ brought, models.hasOwner model.owner = false ∧ typed.model = some model := by
  cases holds : typed.model with
  | none =>
      simp only [nest, holds] at nested
      exact ⟨[], names, by simpa using nested, rfl, by simp⟩
  | some model =>
      obtain ⟨grown, introduced, absorbed, rest⟩ := nest_cons nested
      rw [holds] at absorbed
      have absorbs : models.absorb model = .ok grown := absorbed
      simp only [nest, holds, absorbs, bind, Except.bind, rest, pure, Except.pure, Except.ok.injEq,
        Prod.mk.injEq, true_and] at nested
      rcases LocalModels.absorb_ok absorbed with ⟨rfl, owned⟩ | ⟨rfl, unowned, _⟩
      · have known : grown.hasOwner model.owner = true := by simpa [LocalModels.hasOwner] using owned
        exact ⟨[], introduced, by simpa using rest, by simp [← nested, known], by simp⟩
      · have unknown : models.hasOwner model.owner = false := by
          simpa [LocalModels.hasOwner] using unowned
        refine ⟨[model], introduced, rest, by simp [← nested, unknown], ?_⟩
        exact List.forall_mem_singleton.mpr ⟨unknown, rfl⟩

/-- The models that types bring to a class come after those that it has, each from one of the types and
for a node that has no model in the class. -/
theorem nest_joined {models all : LocalModels Declaration} {typeds : List Typed} {names : List String}
    (nested : nest models typeds = .ok (all, names)) :
    ∃ joined, all = models ++ joined ∧ names = joined.map LocalModel.name ∧
      ∀ model ∈ joined, models.hasOwner model.owner = false ∧
        ∃ typed ∈ typeds, typed.model = some model := by
  induction typeds generalizing models names with
  | nil =>
      cases nested
      exact ⟨[], by simp, rfl, nofun⟩
  | cons typed more ih =>
      obtain ⟨brought, introduced, rest, rfl, first⟩ := nest_step nested
      obtain ⟨joined, rfl, rfl, later⟩ := ih rest
      refine ⟨brought ++ joined, by simp, by simp, fun model listed => ?_⟩
      rcases List.mem_append.mp listed with listed | listed
      · exact ⟨(first model listed).1, typed, List.mem_cons_self, (first model listed).2⟩
      · obtain ⟨free, other, among, holds⟩ := later model listed
        simp only [LocalModels.hasOwner, List.any_append, Bool.or_eq_false_iff] at free
        exact ⟨free.1, other, List.mem_cons_of_mem _ among, holds⟩

/-- A procedure of a class, with a model that it is the first to bring there. -/
structure Introduction where
  place : Place
  method : Method
  model : LocalModel Declaration

/-- The name that the model may get. -/
def Introduction.alias (introduction : Introduction) : Alias :=
  introduction.place.alias introduction.model.name

/-- A procedure is offered and brings its class a model. -/
inductive Brings (setting : Setting) (place : Place) (draft : ClassDraft) (key : String)
    (procedure : Procedure) (state : State) : Introduction → Prop where
  | model {typed next model} :
      isIncluded setting.settings procedure = true →
      typeProcedure setting key procedure draft.scope draft.models state.typing = .ok typed next →
      model ∈ typed.models → draft.models.hasOwner model.owner = false →
      Brings setting place draft key procedure state ⟨place, typed.method, model⟩

/-- On the way through the entries of a class, a procedure brings a class a model. -/
inductive Introduces (setting : Setting) :
    Place → ClassDraft → List (String × Entry) → State → Introduction → Prop where
  | here {place draft key procedure more state introduction} :
      Brings setting place draft key procedure state introduction →
      Introduces setting place draft ((key, .procedure procedure) :: more) state introduction
  | later {place draft key procedure more state grown next introduction} :
      addProcedure setting place draft key procedure state = .ok grown next →
      Introduces setting place grown more next introduction →
      Introduces setting place draft ((key, .procedure procedure) :: more) state introduction
  | into {place draft key entries more state introduction} :
      Introduces setting (place.below key (spaceName key)) { scope := draft.scope } entries state
        introduction →
      Introduces setting place draft ((key, .space entries) :: more) state introduction
  | past {place draft key entries more state child next introduction} :
      addEntries setting (place.below key (spaceName key)) { scope := draft.scope } entries state =
        .ok child next →
      Introduces setting place (draft.nest (child.toClass (spaceName key) key)) more next
        introduction →
      Introduces setting place draft ((key, .space entries) :: more) state introduction

/-- The model is nested in the class that the procedure's method belongs to, at or below the class at
`place`, and the method mentions it. -/
structure StandsBelow (place : Place) (cls : RouteClass) (introduction : Introduction)
    (chain : List RouteClass) : Prop where
  offers : cls.Offers chain introduction.method
  segments : introduction.place.segments = place.segments ++ chain.tail.map RouteClass.segment
  classes : introduction.place.classes = place.classes ++ chain.tail.map RouteClass.name
  declared : ∃ last, chain.getLast? = some last ∧ introduction.model ∈ last.models
  mentioned : MentionsLocally introduction.method introduction.model.owner introduction.model.name

section

variable {setting : Setting} {place : Place} {draft grown final : ClassDraft} {key : String}
  {procedure : Procedure} {state next last : State} {entries more : List (String × Entry)}
  {introduction : Introduction}

theorem TopTyped.modelMentioned {id : Option NodeId} {scope : Model.Scope} {fallback : String}
    {state next : Typing.State} {outcome : Outcome} {typed : Typed} {model : LocalModel Declaration}
    (top : TopTyped setting id scope fallback state (.ok outcome) next)
    (present : outcome.typed = some typed) (holds : typed.model = some model) :
    typed.type.base = .model model.owner model.name .scope := by
  rcases top.of_ok with rfl | ⟨_, _, _, derived, _⟩
  · cases present
  · exact derived.modelMentioned typed model (congrArg Except.ok present) holds

/-- A procedure that is typed brings the models for nodes that have no model in its class, in order, and
its method mentions each of them. -/
theorem typeProcedure_brings {typed : TypedProcedure} {after : Typing.State}
    (run : typeProcedure setting key procedure draft.scope draft.models state.typing =
      .ok typed after) :
    ∃ joined : LocalModels Declaration, typed.introduced = joined.map LocalModel.name ∧
      (∀ model, model ∈ joined ↔
        model ∈ typed.models ∧ draft.models.hasOwner model.owner = false) ∧
      ∀ model ∈ joined, MentionsLocally typed.method model.owner model.name := by
  obtain ⟨_, input, _, output, taken, given, made⟩ := (typeProcedure_ok run).of_ok
  obtain ⟨nested, _, method⟩ := typedProcedure_ok made
  obtain ⟨joined, all, names, fresh⟩ := nest_joined nested
  refine ⟨joined, names, fun model => ⟨fun listed => ?_, fun ⟨listed, free⟩ => ?_⟩,
    fun model listed => ?_⟩
  · rw [all]
    exact ⟨List.mem_append_right _ listed, (fresh model listed).1⟩
  · rw [all] at listed
    refine (List.mem_append.mp listed).resolve_left fun known => ?_
    have owned : draft.models.hasOwner model.owner = true := by
      simpa [LocalModels.hasOwner] using ⟨model, known, rfl⟩
    simp [owned] at free
  obtain ⟨_, found, member, holds⟩ := fresh model listed
  refine ⟨found.type, ?_, ?_⟩
  · simp only [method, Method.types, Option.toList_map, ← List.map_append]
    exact List.mem_map_of_mem member
  · rcases List.mem_append.mp member with member | member
    · exact taken.modelMentioned (Option.mem_toList.mp member) holds
    · exact given.modelMentioned (Option.mem_toList.mp member) holds

/-- The candidates of a procedure are the names of what it brings. -/
theorem Settles.introductions {fate : Fate} {noted : List Diagnostic}
    (settled : Settles setting place draft key procedure state fate noted grown next) :
    ∃ introductions : List Introduction,
      next.aliases = state.aliases ++ introductions.map Introduction.alias ∧
      ∀ introduction, introduction ∈ introductions ↔
        Brings setting place draft key procedure state introduction := by
  cases settled with
  | excluded excluded =>
      refine ⟨[], by simp, fun introduction => ⟨nofun, fun brings => ?_⟩⟩
      cases brings with
      | model included => simp [excluded] at included
  | failed _ failed _ _ =>
      refine ⟨[], by simp, fun introduction => ⟨nofun, fun brings => ?_⟩⟩
      cases brings with
      | model _ run => simp [failed] at run
  | @offered typed _ _ included run _ =>
      obtain ⟨joined, names, fresh, _⟩ := typeProcedure_brings run
      refine ⟨joined.map (⟨place, typed.method, ·⟩), ?_, ?_⟩
      · simp only [names, List.map_map]
        rfl
      · intro introduction
        rw [List.mem_map]
        constructor
        · rintro ⟨model, listed, rfl⟩
          obtain ⟨brought, free⟩ := (fresh model).mp listed
          exact .model included run brought free
        · intro brings
          cases brings with
          | model _ run' listed free =>
              cases run.symm.trans run'
              exact ⟨_, (fresh _).mpr ⟨listed, free⟩, rfl⟩

theorem Brings.stands {fate : Fate} {noted : List Diagnostic}
    (brings : Brings setting place draft key procedure state introduction)
    (settled : Settles setting place draft key procedure state fate noted grown next) :
    introduction.place = place ∧ introduction.method ∈ grown.methods ∧
      introduction.model ∈ grown.models ∧
      MentionsLocally introduction.method introduction.model.owner introduction.model.name := by
  cases brings with
  | @model _ _ model included run listed free =>
      cases settled with
      | excluded excluded => simp [included] at excluded
      | failed _ failed _ _ => simp [run] at failed
      | offered _ run' _ =>
          cases run.symm.trans run'
          obtain ⟨joined, _, fresh, mentions⟩ := typeProcedure_brings run
          refine ⟨rfl, List.mem_append_right _ (List.mem_singleton_self _), listed, ?_⟩
          exact mentions model ((fresh model).mpr ⟨listed, free⟩)

theorem introduces_procedure_iff
    (run : addProcedure setting place draft key procedure state = .ok grown next) :
    Introduces setting place draft ((key, .procedure procedure) :: more) state introduction ↔
      Brings setting place draft key procedure state introduction ∨
        Introduces setting place grown more next introduction := by
  constructor
  · intro introduces
    cases introduces with
    | here brings => exact .inl brings
    | later run' introduces =>
        cases run.symm.trans run'
        exact .inr introduces
  · rintro (brings | introduces)
    · exact .here brings
    · exact .later run introduces

theorem introduces_space_iff {child : ClassDraft}
    (run : addEntries setting (place.below key (spaceName key)) { scope := draft.scope } entries state =
      .ok child next) :
    Introduces setting place draft ((key, .space entries) :: more) state introduction ↔
      Introduces setting (place.below key (spaceName key)) { scope := draft.scope } entries state
        introduction ∨
      Introduces setting place (draft.nest (child.toClass (spaceName key) key)) more next
        introduction := by
  constructor
  · intro introduces
    cases introduces with
    | into introduces => exact .inl introduces
    | past run' introduces =>
        cases run.symm.trans run'
        exact .inr introduces
  · rintro (introduces | introduces)
    · exact .into introduces
    · exact .past run introduces

/-- The candidates are the names of what is introduced on the way. -/
theorem addEntries_introductions
    (run : addEntries setting place draft entries state = .ok final last) :
    ∃ introductions : List Introduction,
      last.aliases = state.aliases ++ introductions.map Introduction.alias ∧
      ∀ introduction, introduction ∈ introductions ↔
        Introduces setting place draft entries state introduction := by
  induction place, draft, entries using addEntries.induct generalizing state final last with
  | case1 place draft =>
      rw [addEntries] at run
      cases run
      refine ⟨[], by simp, fun introduction => ⟨?_, ?_⟩⟩
      · intro listed
        cases listed
      · intro introduces
        cases introduces
  | case2 place draft key procedure more ih =>
      rw [addEntries] at run
      obtain ⟨between, middle, first, run⟩ := bind_ok run
      obtain ⟨_, _, _, _, ran, settled⟩ | ⟨_, _, _, _, _, failed⟩ :=
        addProcedure_follows setting place draft key procedure state
      · cases ran.symm.trans first
        obtain ⟨own, grows, brings⟩ := settled.introductions
        obtain ⟨others, grows', introduces⟩ := ih between run
        refine ⟨own ++ others, by simp [grows', grows], fun introduction => ?_⟩
        rw [introduces_procedure_iff first, List.mem_append, brings, introduces]
      · cases failed.symm.trans first
  | case3 place draft key entries more below ih =>
      rw [addEntries] at run
      obtain ⟨child, middle, first, run⟩ := bind_ok run
      obtain ⟨inner, grows, introduces⟩ := below first
      obtain ⟨others, grows', introduces'⟩ := ih child run
      refine ⟨inner ++ others, by simp [grows', grows], fun introduction => ?_⟩
      rw [introduces_space_iff first, List.mem_append, introduces]
      exact or_congr_right (introduces' introduction)

/-- What entries add to a class stays there. -/
theorem addEntries_grows (run : addEntries setting place draft entries state = .ok final last) :
    draft.Grows final := by
  obtain ⟨_, assembled⟩ := addEntries_follows run
  exact assembled.grows

theorem Introduces.stands {introduction : Introduction} (name segment : String)
    (introduces : Introduces setting place draft entries state introduction)
    (run : addEntries setting place draft entries state = .ok final last) :
    ∃ chain, StandsBelow place (final.toClass name segment) introduction chain := by
  induction introduces generalizing final last name segment with
  | @here place draft key procedure _ state _ brings =>
      rw [addEntries] at run
      obtain ⟨between, middle, first, run⟩ := bind_ok run
      obtain ⟨_, _, _, _, ran, settled⟩ | ⟨_, _, _, _, _, failed⟩ :=
        addProcedure_follows setting place draft key procedure state
      · cases ran.symm.trans first
        obtain ⟨here, offered, nested, mentioned⟩ := brings.stands settled
        have grows := addEntries_grows run
        refine ⟨[final.toClass name segment], .own (grows.methods offered), ?_, ?_, ?_, mentioned⟩
        · simp [here]
        · simp [here]
        · exact ⟨_, rfl, grows.models nested⟩
      · cases failed.symm.trans first
  | later first _ ih =>
      rw [addEntries] at run
      obtain ⟨_, _, first', run⟩ := bind_ok run
      cases first.symm.trans first'
      exact ih name segment run
  | @into place draft key entries more state introduction _ ih =>
      rw [addEntries] at run
      obtain ⟨child, middle, first, run⟩ := bind_ok run
      obtain ⟨chain, stands⟩ := ih (spaceName key) key first
      have grows := addEntries_grows run
      have listed : child.toClass (spaceName key) key ∈ final.children :=
        grows.children (List.mem_append_right _ (List.mem_singleton_self _))
      obtain ⟨more, rfl⟩ := stands.offers.exists_cons
      refine ⟨final.toClass name segment :: child.toClass (spaceName key) key :: more,
        .nested listed stands.offers, ?_, ?_, ?_, stands.mentioned⟩
      · simp [stands.segments, Place.below, ClassDraft.toClass]
      · simp [stands.classes, Place.below, ClassDraft.toClass]
      · simpa using stands.declared
  | past first _ ih =>
      rw [addEntries] at run
      obtain ⟨_, _, first', run⟩ := bind_ok run
      cases first.symm.trans first'
      exact ih name segment run

end

section

variable {taken : List String} {candidates : List Alias}

theorem mem_distinctAliases {kept : Alias} (listed : kept ∈ distinctAliases taken candidates) :
    kept ∈ candidates ∧ kept.name ∉ taken := by
  induction candidates generalizing taken with
  | nil => cases listed
  | cons candidate more ih => grind [distinctAliases]

theorem nodup_distinctAliases (taken : List String) (candidates : List Alias) :
    ((distinctAliases taken candidates).map Alias.name).Nodup := by
  induction candidates generalizing taken with
  | nil => exact List.nodup_nil
  | cons candidate more ih =>
      rw [distinctAliases]
      split
      · exact ih taken
      · rw [List.map_cons, List.nodup_cons]
        refine ⟨fun again => ?_, ih (candidate.name :: taken)⟩
        obtain ⟨kept, listed, same⟩ := List.mem_map.mp again
        exact (mem_distinctAliases listed).2 (same ▸ List.mem_cons_self)

/-- A name that is not taken is given to a candidate. -/
theorem exists_distinctAlias {candidate : Alias} (listed : candidate ∈ candidates)
    (free : candidate.name ∉ taken) :
    ∃ kept ∈ distinctAliases taken candidates, kept.name = candidate.name := by
  induction candidates generalizing taken with
  | nil => cases listed
  | cons first more ih => grind [distinctAliases]

end

section

variable {settings : Settings} {graph : Graph} {router : String} {tree : Route.Tree}
  {definitions : Table String NodeId} {client : Client}

/-- A procedure of the router brings a class of the client a model. -/
def Introduced (setting : Setting) (router : String) (tree : Route.Tree)
    (definitions : Table String NodeId) (introduction : Introduction) : Prop :=
  ∃ start state, (wantedDefinitions setting.settings definitions).foldlM (addDefinition setting)
      { scope := {} } {} = .ok start state ∧
    Introduces setting ⟨[], [typeName router]⟩ start tree state introduction

/-- The model is nested in a class of the client, which the place names from the root on, and the method
of that class mentions it. -/
def Introduction.StandsIn (introduction : Introduction) (client : Client) : Prop :=
  ∃ chain last, client.root.Offers chain introduction.method ∧ chain.getLast? = some last ∧
    introduction.place.segments = chain.tail.map RouteClass.segment ∧
    introduction.place.classes = chain.map RouteClass.name ∧ introduction.model ∈ last.models ∧
    MentionsLocally introduction.method introduction.model.owner introduction.model.name

/-- The alias stands for the model of an introduction.  A method of the client brings the model to its class;
the target leads to the model by the names of the classes from the root to that class, with points between
them, and the name of the alias is made from the segments below the root and the model's name. -/
def Alias.PointsTo (entry : Alias) (client : Client) (introduction : Introduction) : Prop :=
  ∃ chain last, client.root.Offers chain introduction.method ∧ chain.getLast? = some last ∧
    introduction.model ∈ last.models ∧
    introduction.model.definition.heading.name = introduction.model.name ∧
    entry.target = ".".intercalate (chain.map RouteClass.name ++ [introduction.model.name]) ∧
    entry.name = String.join (chain.tail.map fun cls => typeName cls.segment) ++ introduction.model.name

/-- A candidate's name is that of the root class, of a global model or of another alias. -/
def Clashes (client : Client) (candidate : Alias) : Prop :=
  candidate.name = client.root.name ∨ client.globals.containsName candidate.name = true ∨
    ∃ other ∈ client.aliases, other ≠ candidate ∧ other.name = candidate.name

/-- A client's aliases are candidates with names of their own, and only a clash keeps a candidate out. -/
theorem chooseAliases_spec {candidates : List Alias} (creates : settings.createsAliases = true)
    (chosen : client.aliases = chooseAliases settings client.root client.globals candidates) :
    (client.aliases.map Alias.name).Nodup ∧
    (∀ kept ∈ client.aliases, kept ∈ candidates ∧ kept.name ≠ client.root.name ∧
      client.globals.containsName kept.name = false) ∧
    ∀ candidate ∈ candidates, candidate ∈ client.aliases ∨ Clashes client candidate := by
  rw [chooseAliases, if_pos creates] at chosen
  refine ⟨?_, ?_, ?_⟩
  · rw [chosen]
    exact (List.filter_sublist.map Alias.name).nodup (nodup_distinctAliases _ _)
  · intro kept listed
    rw [chosen, List.mem_filter] at listed
    obtain ⟨member, free⟩ := listed
    obtain ⟨candidate, apart⟩ := mem_distinctAliases member
    exact ⟨candidate, by simpa using apart, by simpa using free⟩
  · intro candidate listed
    by_cases clashes : Clashes client candidate
    · exact .inr clashes
    · simp only [Clashes, not_or, not_exists, not_and, Bool.not_eq_true] at clashes
      obtain ⟨apart, free, alone⟩ := clashes
      have unlike : candidate.name ∉ [client.root.name] := by simpa using apart
      obtain ⟨kept, member, same⟩ := exists_distinctAlias listed unlike
      have stays : kept ∈ client.aliases := by
        rw [chosen, List.mem_filter]
        exact ⟨member, by simp [same, free]⟩
      have own : kept = candidate := by
        by_contra different
        exact alone kept stays different same
      exact .inl (own ▸ stays)

/-- Definitions propose no aliases. -/
theorem addDefinitions_aliases {setting : Setting} {entries : List (String × NodeId)}
    {draft grown : ClassDraft} {state next : State}
    (run : entries.foldlM (addDefinition setting) draft state = .ok grown next) :
    next.aliases = state.aliases := by
  refine addDefinitions_chain (R := fun _ state _ next => next.aliases = state.aliases) ?_ ?_ ?_ run
  · exact fun _ _ => rfl
  · exact fun first second => second.trans first
  · intro _ _ _ _ _ _ defines
    cases defines with
    | skipped _ | failed _ _ _ | refused _ _ _ | declared _ _ _ => rfl

/-- A client comes from a run through the definitions and a run through the tree. -/
theorem assemble_stages (assembled : assemble settings graph router tree definitions = .ok client) :
    ∃ start middle final last,
      (wantedDefinitions settings definitions).foldlM (addDefinition ⟨graph, settings⟩)
        { scope := {} } {} = .ok start middle ∧
      addEntries ⟨graph, settings⟩ ⟨[], [typeName router]⟩ start tree middle = .ok final last ∧
      client.root = final.toClass (typeName router) router ∧
      client.aliases = chooseAliases settings client.root client.globals last.aliases := by
  unfold assemble at assembled
  split at assembled
  · cases assembled
  · next root last run =>
    cases assembled
    rw [assembleRoot_eq] at run
    obtain ⟨start, middle, defined, run⟩ := bind_ok run
    obtain ⟨final, last, entered, run⟩ := bind_ok run
    cases run
    exact ⟨start, middle, final, _, defined, entered, rfl, rfl⟩

/-- The candidates of a client are the aliases of what is introduced. -/
theorem assemble_candidates
    (assembled : assemble settings graph router tree definitions = .ok client) :
    ∃ introductions : List Introduction,
      client.aliases =
        chooseAliases settings client.root client.globals (introductions.map Introduction.alias) ∧
      ∀ introduction, introduction ∈ introductions ↔
        Introduced ⟨graph, settings⟩ router tree definitions introduction := by
  obtain ⟨start, middle, final, last, defined, entered, _, chosen⟩ := assemble_stages assembled
  obtain ⟨introductions, proposed, introduces⟩ := addEntries_introductions entered
  refine ⟨introductions, ?_, fun introduction => ?_⟩
  · rw [chosen, proposed, addDefinitions_aliases defined]
    rfl
  · rw [introduces]
    constructor
    · intro brought
      exact ⟨start, middle, defined, brought⟩
    · rintro ⟨_, _, defined', brought⟩
      cases defined.symm.trans defined'
      exact brought

theorem Introduced.standsIn {introduction : Introduction}
    (assembled : assemble settings graph router tree definitions = .ok client)
    (introduced : Introduced ⟨graph, settings⟩ router tree definitions introduction) :
    introduction.StandsIn client := by
  obtain ⟨start, middle, final, last, defined, entered, root, _⟩ := assemble_stages assembled
  obtain ⟨_, _, defined', introduces⟩ := introduced
  cases defined.symm.trans defined'
  obtain ⟨chain, stands⟩ := introduces.stands (typeName router) router entered
  obtain ⟨more, rfl⟩ := stands.offers.exists_cons
  obtain ⟨last, ends, declared⟩ := stands.declared
  refine ⟨_, last, root ▸ stands.offers, ends, by simpa using stands.segments, ?_, declared,
    stands.mentioned⟩
  simpa [ClassDraft.toClass] using stands.classes

theorem Introduction.StandsIn.pointsTo {introduction : Introduction} (stands : introduction.StandsIn client)
    (coherent : ∀ body ∈ client.bodies, body.Coherent) :
    introduction.alias.PointsTo client introduction := by
  obtain ⟨chain, last, offers, ends, segments, classes, declared, _⟩ := stands
  have body : last.body ∈ client.bodies := List.mem_append_right _ (offers.body_mem ends)
  refine ⟨chain, last, offers, ends, declared, (coherent _ body).titled _ declared, ?_, ?_⟩
  · rw [Introduction.alias, Place.alias, classes]
  · rw [Introduction.alias, Place.alias, segments, List.map_map]
    rfl

/-- The names at the top of a client's file are told apart from each other, from the root class and from
the global models.  Each stands for a model in a class of the client that one of the class's procedures
has brought there, and every model that a procedure brings has its name unless that name clashes.  In the
file, a line for each name and its target stands between the global models and the root class. -/
theorem aliases_of_introductions (creates : settings.createsAliases = true)
    (assembled : assemble settings graph router tree definitions = .ok client) :
    (client.aliases.map Alias.name).Nodup ∧
    (∀ entry ∈ client.aliases, entry.name ≠ client.root.name ∧
      client.globals.containsName entry.name = false ∧
      ∃ introduction, Introduced ⟨graph, settings⟩ router tree definitions introduction ∧
        entry = introduction.alias ∧ entry.PointsTo client introduction) ∧
    (∀ introduction, Introduced ⟨graph, settings⟩ router tree definitions introduction →
      introduction.StandsIn client ∧ introduction.alias.PointsTo client introduction ∧
        (introduction.alias ∈ client.aliases ∨ Clashes client introduction.alias)) ∧
    client.lines settings =
      client.globals.definitions.flatMap (fun definition => definition.lines ++ [""]) ++
        (if client.aliases = [] then [] else client.aliases.map (fun entry =>
          settings.access.modifier ++ "typealias " ++ entry.name ++ " = " ++ entry.target) ++ [""]) ++
        client.rootLines settings := by
  obtain ⟨introductions, chosen, introduced⟩ := assemble_candidates assembled
  obtain ⟨distinct, kept, complete⟩ := chooseAliases_spec creates chosen
  have points {introduction : Introduction}
      (brought : Introduced ⟨graph, settings⟩ router tree definitions introduction) :
      introduction.alias.PointsTo client introduction :=
    (brought.standsIn assembled).pointsTo (assemble_coherent assembled)
  refine ⟨distinct, ?_, ?_, ?_⟩
  · intro entry listed
    obtain ⟨candidate, apart, free⟩ := kept entry listed
    obtain ⟨introduction, member, rfl⟩ := List.mem_map.mp candidate
    have brought := (introduced introduction).mp member
    exact ⟨apart, free, introduction, brought, rfl, points brought⟩
  · intro introduction brought
    have member := (introduced introduction).mpr brought
    exact ⟨brought.standsIn assembled, points brought, complete _ (List.mem_map_of_mem member)⟩
  · simp only [Client.lines, aliasLines, List.isEmpty_map, List.isEmpty_iff]
    rfl

end

/-- Two objects of which one is called like the other one below a namespace. -/
def shelfGraph : Graph where
  nodes := #[
    { kind := .primitive .string },
    { kind := .object [("id", ⟨0⟩)], label := { name := some "Item" } },
    { kind := .object [("id", ⟨0⟩)], label := { name := some "ItemsItem" } }]

def shelfSettings : Settings where
  hoisting := .never
  createsAliases := true

def shelfTree : Route.Tree :=
  [("first", .procedure { kind := .query, output := some ⟨2⟩ }),
    ("items", .space [("get", .procedure { kind := .query, output := some ⟨1⟩ })]),
    ("last", .procedure { kind := .query, output := some ⟨1⟩ })]

/-- The object below the namespace gets no alias, because the first object has taken the name. -/
theorem shelfTree_aliases :
    ∃ client, assemble shelfSettings shelfGraph "app" shelfTree [] = .ok client ∧
      client.aliases = [⟨"ItemsItem", "App.ItemsItem"⟩, ⟨"Item", "App.Item"⟩] ∧
      (client.aliases.map Alias.name).Nodup ∧
      ∀ entry ∈ client.aliases, ∃ introduction : Introduction,
        introduction.StandsIn client ∧ entry = introduction.alias ∧ entry.PointsTo client introduction := by
  have ran : (assemble shelfSettings shelfGraph "app" shelfTree []).toOption.any (fun client =>
      client.aliases = [⟨"ItemsItem", "App.ItemsItem"⟩, ⟨"Item", "App.Item"⟩]) = true := by
    simp only [assemble, assembleRoot, shelfTree, addEntries]
    decide +kernel
  obtain ⟨client, assembled, named⟩ := exists_of_passed ran
  obtain ⟨distinct, stems, stands, _⟩ := aliases_of_introductions rfl assembled
  refine ⟨client, assembled, of_decide_eq_true named, distinct, ?_⟩
  intro entry listed
  obtain ⟨_, _, introduction, introduced, same, points⟩ := stems entry listed
  exact ⟨introduction, (stands introduction introduced).1, same, points⟩

end RouterClient.Client
