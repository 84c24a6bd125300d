import RouterClient.Proofs.Client.Rules
import RouterClient.Proofs.Typing.Standards

/-! # From types to classes

A class gets its models and the types of its methods from typing, and its classes from the namespaces
below it.  What typing keeps of the global models and of scopes, and what it gives for every type, is so
carried through a whole run of assembly.  What it keeps may depend on the texts that it is supplied with for
the names of models.
-/

namespace RouterClient.Client

open Model (GlobalModels LocalModels Scope)
open Route (Entry Procedure)
open Schema (NodeId)
open Code (Declaration RouteClass typeName)
open Typing

/-- Typing keeps something of the global models and something of scopes, and what it comes to is of
some kind, where it is supplied with texts of some kind.  Those of the inputs and outputs are. -/
structure Carries (setting : Setting) (texts : String → Prop) (S : GlobalModels Declaration → Prop)
    (V : Scope → Prop) (T : Typed → Prop) : Prop where
  input : ∀ key, texts (typeName key ++ "Input")
  output : ∀ key, texts (typeName key ++ "Output")
  fresh : V {}
  typing : ∀ {id fallback state events verdict next},
    Supplied setting.graph texts id fallback →
    Derives setting.graph setting.settings maxDepth id { fallback } state events verdict next →
    S state.globals → V state.scope →
    S next.globals ∧ V next.scope ∧ ∀ typed, verdict = .ok (some typed) → T typed

/-- A class under way whose models and types are of some kind, with classes of some kind below it. -/
structure Classed (V : Scope → Prop) (T : Typed → Prop) (C : RouteClass → Prop)
    (draft : ClassDraft) : Prop where
  scope : V draft.scope
  models : ∀ model ∈ draft.models, ∃ typed, T typed ∧ typed.model = some model
  types : ∀ method ∈ draft.methods, ∀ type ∈ method.types, ∃ typed, T typed ∧ typed.type = type
  children : ∀ child ∈ draft.children, C child

section

variable {setting : Setting} {texts : String → Prop} {S : GlobalModels Declaration → Prop}
  {V : Scope → Prop} {T : Typed → Prop} {C : RouteClass → Prop} {draft grown : ClassDraft}
  {state next : State}

/-- A standard whose ways are met is carried. -/
theorem carries_of_met {standard : Standard}
    (ways : standard.Met setting.graph setting.settings texts)
    (input : ∀ key, texts (typeName key ++ "Input"))
    (output : ∀ key, texts (typeName key ++ "Output")) :
    Carries setting texts standard.OfGlobals standard.OfScope standard.OfTyped where
  input := input
  output := output
  fresh := .empty standard
  typing supplied derived kept visible := by
    obtain ⟨after, types⟩ := derived.upheld_of_supplied ways supplied ⟨kept, visible⟩
    exact ⟨after.globals, after.scope, types⟩

theorem Classed.start {scope : Scope} (visible : V scope) : Classed V T C { scope } :=
  ⟨visible, nofun, nofun, nofun⟩

theorem TopTyped.carried {id : Option NodeId} {scope : Scope} {fallback : String}
    {state next : Typing.State} {verdict : Except Failure Outcome}
    (typed : TopTyped setting id scope fallback state verdict next)
    (carries : Carries setting texts S V T)
    (supplied : ∀ node, id = some node → Supplied setting.graph texts node fallback)
    (kept : S state.globals) (visible : V scope) :
    S next.globals ∧ ∀ outcome, verdict = .ok outcome →
      V outcome.scope ∧ ∀ typed, outcome.typed = some typed → T typed := by
  cases typed with
  | absent =>
      refine ⟨kept, ?_⟩
      rintro _ ⟨⟩
      exact ⟨visible, nofun⟩
  | @present _ _ _ _ _ verdict _ derived =>
      obtain ⟨later, after, types⟩ := carries.typing (supplied _ rfl) derived kept visible
      refine ⟨later, fun outcome same => ?_⟩
      cases verdict with
      | error failure => cases same
      | ok typed =>
          cases same
          exact ⟨after, fun typed found => types typed (congrArg Except.ok found)⟩

/-- The models of a class come from typing, whether they were there or have joined it. -/
theorem nest_from {models grown : LocalModels Declaration} {typeds : List Typed}
    {introduced : List String} (nested : Client.nest models typeds = .ok (grown, introduced))
    (before : ∀ model ∈ models, ∃ typed, T typed ∧ typed.model = some model)
    (joins : ∀ typed ∈ typeds, T typed) :
    ∀ model ∈ grown, ∃ typed, T typed ∧ typed.model = some model := by
  induction typeds generalizing models introduced with
  | nil =>
      cases nested
      exact before
  | cons typed more ih =>
      obtain ⟨between, _, absorbed, rest⟩ := nest_cons nested
      obtain ⟨joined, later⟩ := List.forall_mem_cons.mp joins
      refine ih rest (fun model listed => ?_) later
      rcases LocalModels.mem_of_absorb? absorbed listed with listed | same
      · exact before model listed
      · exact ⟨typed, joined, same⟩

theorem ProcedureTyped.carried {key : String} {procedure : Procedure} {scope : Scope}
    {models : LocalModels Declaration} {state next : Typing.State}
    {verdict : Except Failure TypedProcedure}
    (typed : ProcedureTyped setting key procedure scope models state verdict next)
    (carries : Carries setting texts S V T) (kept : S state.globals) (visible : V scope)
    (held : ∀ model ∈ models, ∃ typed, T typed ∧ typed.model = some model) :
    S next.globals ∧ ∀ typed, verdict = .ok typed → V typed.scope ∧
      (∀ model ∈ typed.models, ∃ typed, T typed ∧ typed.model = some model) ∧
      ∀ type ∈ typed.method.types, ∃ typed, T typed ∧ typed.type = type := by
  cases typed with
  | crowded _ => exact ⟨kept, nofun⟩
  | inputFailed _ input =>
      exact ⟨(input.carried carries (fun _ _ _ => carries.input key) kept visible).1, nofun⟩
  | outputFailed _ input output =>
      obtain ⟨first, seen⟩ := input.carried carries (fun _ _ _ => carries.input key) kept visible
      obtain ⟨last, _⟩ :=
        output.carried carries (fun _ _ _ => carries.output key) first (seen _ rfl).1
      exact ⟨last, nofun⟩
  | @typed input _ output _ _ taken given =>
      obtain ⟨first, seen⟩ := taken.carried carries (fun _ _ _ => carries.input key) kept visible
      obtain ⟨after, inputs⟩ := seen _ rfl
      obtain ⟨second, seen⟩ :=
        given.carried carries (fun _ _ _ => carries.output key) first after
      obtain ⟨last, outputs⟩ := seen _ rfl
      refine ⟨second, fun typed made => ?_⟩
      obtain ⟨nested, scope, method⟩ := typedProcedure_ok made
      have joins : ∀ typed ∈ input.typed.toList ++ output.typed.toList, T typed := by
        intro typed listed
        rcases List.mem_append.mp listed with listed | listed
        · exact inputs typed (Option.mem_toList.mp listed)
        · exact outputs typed (Option.mem_toList.mp listed)
      refine ⟨scope ▸ last, nest_from nested held joins, fun type listed => ?_⟩
      simp only [method, Code.Method.types, Option.toList_map, ← List.map_append] at listed
      obtain ⟨typed, listed, same⟩ := List.mem_map.mp listed
      exact ⟨typed, joins typed listed, same⟩

theorem Settles.carried {place : Place} {key : String} {procedure : Procedure} {fate : Fate}
    {noted : List Diagnostic}
    (settled : Settles setting place draft key procedure state fate noted grown next)
    (carries : Carries setting texts S V T) (kept : S state.typing.globals)
    (classed : Classed V T C draft) : S next.typing.globals ∧ Classed V T C grown := by
  cases settled with
  | excluded _ => exact ⟨kept, classed⟩
  | failed _ run _ _ =>
      have after := (typeProcedure_error run).carried carries kept classed.scope classed.models
      exact ⟨after.1, classed⟩
  | offered _ run _ =>
      obtain ⟨later, made⟩ :=
        (typeProcedure_ok run).carried carries kept classed.scope classed.models
      obtain ⟨visible, models, types⟩ := made _ rfl
      refine ⟨later, visible, models, fun method listed => ?_, classed.children⟩
      rcases List.mem_append.mp listed with listed | listed
      · exact classed.types method listed
      · obtain rfl := List.mem_singleton.mp listed
        exact types

/-- A named model needs no other name. -/
theorem IsNamedModel.supplied {graph : Schema.Graph} {id : NodeId} (model : IsNamedModel graph id)
    (texts : String → Prop) (fallback : String) :
    ∀ node, some id = some node → Supplied graph texts node fallback := by
  rintro _ ⟨⟩ unnamed
  have named := model.named
  rw [unnamed model.nominal] at named
  cases named

theorem Defines.carried {key : String} {id : NodeId}
    (defines : Defines setting draft key id state grown next)
    (carries : Carries setting texts S V T) (kept : S state.typing.globals)
    (classed : Classed V T C draft) : S next.typing.globals ∧ Classed V T C grown := by
  cases defines with
  | skipped _ => exact ⟨kept, classed⟩
  | failed model typed _ | refused model typed _ =>
      have after := typed.carried carries (model.supplied texts _) kept classed.scope
      exact ⟨after.1, classed⟩
  | declared model typed absorbed =>
      obtain ⟨later, seen⟩ := typed.carried carries (model.supplied texts _) kept classed.scope
      obtain ⟨visible, types⟩ := seen _ rfl
      refine ⟨later, visible, fun model listed => ?_, classed.types, classed.children⟩
      rcases LocalModels.mem_of_absorb? absorbed listed with listed | same
      · exact classed.models model listed
      · obtain ⟨typed, found, holds⟩ := Option.bind_eq_some_iff.mp same
        exact ⟨typed, types typed found, holds⟩

theorem Assembles.carried {place : Place} {final : ClassDraft} {entries : List (String × Entry)}
    {last : State} {log : List Account}
    (assembled : Assembles setting place draft entries state log final last)
    (carries : Carries setting texts S V T)
    (closes : ∀ key draft, Classed V T C draft → C (draft.toClass (spaceName key) key))
    (kept : S state.typing.globals) (classed : Classed V T C draft) :
    S last.typing.globals ∧ Classed V T C final := by
  induction assembled with
  | done => exact ⟨kept, classed⟩
  | procedure settled _ ih =>
      obtain ⟨kept, classed⟩ := settled.carried carries kept classed
      exact ih kept classed
  | @space _ _ key _ _ _ _ _ _ _ _ _ _ _ below ih =>
      obtain ⟨kept, inner⟩ := below kept (.start classed.scope)
      refine ih kept ⟨classed.scope, classed.models, classed.types, fun child listed => ?_⟩
      rcases List.mem_append.mp listed with listed | listed
      · exact classed.children child listed
      · obtain rfl := List.mem_singleton.mp listed
        exact closes key _ inner

/-- What typing keeps, a whole run of assembly keeps, and its root is made of what typing gives. -/
theorem assembleRoot_carried {router : String} {tree : Route.Tree}
    {definitions : Table String NodeId} {root : RouteClass}
    (run : assembleRoot setting router tree definitions state = .ok root next)
    (carries : Carries setting texts S V T)
    (closes : ∀ key draft, Classed V T C draft → C (draft.toClass (spaceName key) key))
    (kept : S state.typing.globals) :
    S next.typing.globals ∧
      ∃ final, Classed V T C final ∧ root = final.toClass (typeName router) router := by
  obtain ⟨start, middle, log, final, defined, assembled, rfl⟩ := assembleRoot_follows run
  have first := addDefinitions_chain (R := fun draft state grown next =>
    S state.typing.globals → Classed V T C draft → S next.typing.globals ∧ Classed V T C grown)
    (fun _ _ kept classed => ⟨kept, classed⟩)
    (fun first second kept classed => second (first kept classed).1 (first kept classed).2)
    (fun defines kept classed => defines.carried carries kept classed) defined kept
    (.start carries.fresh)
  obtain ⟨later, finished⟩ := assembled.carried carries closes first.1 first.2
  exact ⟨later, final, finished, rfl⟩

end

end RouterClient.Client
