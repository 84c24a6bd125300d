import RouterClient.Proofs.Typing.Transforms
import RouterClient.Proofs.Typing.Relocation
import RouterClient.Proofs.Typing.Valueless

/-! # Chains of wrappers

A chain of wrappers is typed like the node under it.  Where it starts at an optional or nullable node the
chain is followed in one step, where it starts at a transform it is followed node by node; either way the
innermost name or flag counts, and one question mark is written for all of the chain.
-/

namespace RouterClient.Schema

/-- Whether a value of a node of the kind may be absent where one of the node inside may not. -/
def Kind.marks : Kind → Bool
  | optional _ | nullable _ => true
  | _ => false

/-- Whether a value of a node of the kind may be absent, transforms aside. -/
def Kind.isAbsent : Kind → Bool
  | optional _ | nullable _ | empty => true
  | _ => false

namespace Graph

/-- The wrappers from a node down to one that is none. -/
inductive Chain (graph : Graph) : NodeId → List NodeId → NodeId → Prop where
  | bare {id : NodeId} : Typing.wrapped? (graph.kind id) = none → Chain graph id [] id
  | around {id inner b : NodeId} {path : List NodeId} :
      Typing.wrapped? (graph.kind id) = some inner → Chain graph inner path b →
      Chain graph id (id :: path) b

/-- Whether some node of a path is optional or nullable. -/
def marks (graph : Graph) (path : List NodeId) : Bool :=
  path.any fun id => (graph.kind id).marks

/-- The innermost node of a path that has a name or is global, if there is one, or else what was
found before. -/
def declarer (graph : Graph) (path : List NodeId) (current : Option NodeId) : Option NodeId :=
  (path.reverse.find? fun id => (graph.label id).name.isSome || (graph.label id).isGlobal).or current

theorem declarer_cons (graph : Graph) (id : NodeId) (path : List NodeId)
    (current : Option NodeId) :
    graph.declarer (id :: path) current = graph.declarer path (Typing.declaredBy graph id current) := by
  rw [declarer, List.reverse_cons, List.find?_append, Option.or_assoc, declarer]
  simp only [List.find?_singleton, Typing.declaredBy]
  split <;> rfl

namespace Chain

variable {graph : Graph} {id inner b c : NodeId} {path other : List NodeId}

theorem iff_walk :
    graph.Chain id path b ↔ Walk (fun id => Typing.wrapped? (graph.kind id)) id path b := by
  constructor
  · intro chain
    induction chain with
    | bare bare => exact .stop bare
    | around wrapped _ ih => exact .step wrapped ih
  · intro walk
    induction walk with
    | stop bare => exact .bare bare
    | step wrapped _ ih => exact .around wrapped ih

theorem of_bare (chain : graph.Chain id path b) (bare : Typing.wrapped? (graph.kind id) = none) :
    path = [] ∧ b = id :=
  (iff_walk.mp chain).of_stop bare

theorem of_wrapped (chain : graph.Chain id path b)
    (wrapped : Typing.wrapped? (graph.kind id) = some inner) :
    ∃ rest, path = id :: rest ∧ graph.Chain inner rest b := by
  obtain ⟨rest, rfl, walk⟩ := (iff_walk.mp chain).of_step wrapped
  exact ⟨rest, rfl, iff_walk.mpr walk⟩

theorem bare_end (chain : graph.Chain id path b) : Typing.wrapped? (graph.kind b) = none :=
  (iff_walk.mp chain).ends

theorem marks_of_optional (chain : graph.Chain id path b)
    (kind : graph.kind id = .optional inner ∨ graph.kind id = .nullable inner) :
    graph.marks path = true := by
  have wrapped : Typing.wrapped? (graph.kind id) = some inner := by
    rcases kind with kind | kind <;> rw [kind] <;> rfl
  obtain ⟨rest, rfl, _⟩ := chain.of_wrapped wrapped
  rcases kind with kind | kind <;> simp [marks, kind, Kind.marks]

theorem unique (chain : graph.Chain id path b) (again : graph.Chain id other c) :
    path = other ∧ b = c :=
  (iff_walk.mp chain).unique (iff_walk.mp again)

theorem length_le (chain : graph.Chain id path b) : path.length ≤ graph.size :=
  (iff_walk.mp chain).length_le fun _ _ => Typing.leads_of_wrapped?

end Chain

end Graph

end RouterClient.Schema

namespace RouterClient.Typing

open Schema (Graph NodeId Kind)

section

variable {graph : Graph} {id base b : NodeId} {path : List NodeId} {steps : Nat}
  {declared above : Option NodeId}

/-- What is left under some wrappers is what a chain of them leads to. -/
theorem chain_of_unwrap? (unwrapped : unwrap? graph steps id declared = some (base, above)) :
    ∃ path, graph.Chain id path base ∧ above = graph.declarer path declared := by
  induction steps generalizing id declared with
  | zero =>
      cases wrapped : wrapped? (graph.kind id) with
      | some inner => simp [unwrap?, wrapped] at unwrapped
      | none =>
          rw [unwrap?_bare wrapped] at unwrapped
          cases unwrapped
          exact ⟨[], .bare wrapped, rfl⟩
  | succ steps ih =>
      cases wrapped : wrapped? (graph.kind id) with
      | none =>
          rw [unwrap?_bare wrapped] at unwrapped
          cases unwrapped
          exact ⟨[], .bare wrapped, rfl⟩
      | some inner =>
          obtain ⟨path, chain, same⟩ := ih (by simpa [unwrap?, wrapped] using unwrapped)
          exact ⟨id :: path, .around wrapped chain, same.trans (graph.declarer_cons id path _).symm⟩

theorem admitsNull_eq (graph : Graph) (id : NodeId) :
    admitsNull graph id = (underTransforms graph graph.size id).isAbsent := by
  unfold admitsNull
  cases underTransforms graph graph.size id <;> rfl

theorem isAbsent_underTransforms (chain : graph.Chain id path b) (within : path.length ≤ steps) :
    (underTransforms graph steps id).isAbsent = (graph.marks path || (graph.kind b).isAbsent) := by
  induction steps generalizing id path with
  | zero =>
      cases chain with
      | bare => rfl
      | around => simp at within
  | succ steps ih =>
      have wrapping {inner : NodeId} (wrapped : wrapped? (graph.kind id) = some inner) :
          ∃ rest, path = id :: rest ∧ graph.Chain inner rest b ∧ rest.length ≤ steps := by
        obtain ⟨rest, rfl, onward⟩ := chain.of_wrapped wrapped
        exact ⟨rest, rfl, onward, by simpa using within⟩
      cases kind : graph.kind id with
      | transform inner =>
          obtain ⟨rest, rfl, chain, fewer⟩ := wrapping (by rw [kind]; rfl)
          simp only [underTransforms, kind, ih chain fewer, Graph.marks, List.any_cons, Kind.marks,
            Bool.false_or]
      | optional inner | nullable inner =>
          obtain ⟨rest, rfl, _⟩ := wrapping (by rw [kind]; rfl)
          simp [underTransforms, kind, Graph.marks, Kind.marks, Kind.isAbsent]
      | _ =>
          obtain ⟨rfl, rfl⟩ := chain.of_bare (by rw [kind]; rfl)
          simp [underTransforms, kind, Graph.marks]

/-- A value may be absent where a wrapper of the chain says so, or where there is none to begin with. -/
theorem admitsNull_of_chain (chain : graph.Chain id path b) :
    admitsNull graph id = (graph.marks path || (graph.kind b).isAbsent) := by
  rw [admitsNull_eq, isAbsent_underTransforms chain chain.length_le]

end

/-! ## Typing along a chain -/

/-- The site at which the node under a chain is typed, where the chain itself is typed at a site. -/
def Site.under (site : Site) (graph : Graph) (path : List NodeId) : Site :=
  site.descend (site.marked || graph.marks path) (graph.declarer path site.declared)

section

variable {graph : Graph} {settings : Settings} {budget : Nat} {id inner b : NodeId}
  {path : List NodeId} {site : Site} {state next : State} {events : List Event} {verdict : Verdict}

@[simp] theorem Site.under_nil (site : Site) (graph : Graph) : site.under graph [] = site := by
  simp [under, descend, Graph.marks, Graph.declarer]

/-- What is derived one step further in is derived here, if it is clear of the limit. -/
theorem Derives.lifted
    (derived : Derives graph settings budget id site state.enter events verdict next)
    (clears : Clears state verdict next.leave) :
    Derives graph settings maxDepth id site state events verdict next.leave := by
  have moved := Derives.relocated graph settings (Nat.le_succ state.callDepth) (Nat.le_add_right _ _)
    derived rfl ⟨clears.verdict, clears.reports⟩
  have same : next.atDepth state.callDepth = next.leave := by
    rw [State.leave, derived.callDepth_eq]
    rfl
  rwa [same] at moved

/-- The optional type is marked unless that is done around it. -/
theorem Typed.mark_eq {typed : Typed} (required : typed.type.isOptional = false) (marked : Bool) :
    typed.mark marked = if marked then typed else { typed with type := .optional typed.type } := by
  simp only [Typed.mark, required, Bool.or_false]

/-- The verdict on a chain of wrappers, given the verdict on the node under it: a type that is there is
marked where the chain says so and the site does not. -/
def Verdict.marked (marks : Bool) (verdict : Verdict) : Verdict :=
  verdict.map (Option.map fun typed =>
    if marks then { typed with type := .optional typed.type } else typed)

@[simp] theorem Verdict.marked_false (verdict : Verdict) : Verdict.marked false verdict = verdict := by
  rcases verdict with failure | ⟨_ | typed⟩ <;> rfl

/-- What typing settles about the wrappers around a node when it does not fail: they end, the node under
them is not the empty one if there is a type, and the type is optional just where one of them marks it. -/
structure Unwraps (graph : Graph) (id : NodeId) (site : Site) (verdict : Verdict) : Prop where
  ends : ∀ result, verdict = .ok result → ∃ path b, graph.Chain id path b
  marked : ∀ typed path b, verdict = .ok (some typed) → graph.Chain id path b →
    graph.kind b ≠ .empty ∧
      typed.type.isOptional = (!site.marked && graph.marks path)

theorem typed_of_map {f : Typed → Typed} {typed : Typed}
    (same : verdict.map (Option.map f) = .ok (some typed)) :
    ∃ inner, verdict = .ok (some inner) ∧ f inner = typed := by
  rcases verdict with failure | ⟨_ | inner⟩
  · cases same
  · cases same
  · cases same
    exact ⟨inner, rfl, rfl⟩

theorem Unwraps.of_bare (bare : wrapped? (graph.kind id) = none)
    (present : ∀ typed, verdict = .ok (some typed) →
      graph.kind id ≠ .empty ∧ typed.type.isOptional = false) :
    Unwraps graph id site verdict where
  ends _ _ := ⟨[], id, .bare bare⟩
  marked typed path b same chain := by
    obtain ⟨rfl, rfl⟩ := chain.of_bare bare
    simpa [Graph.marks] using present typed same

theorem Unwraps.transform (kind : graph.kind id = .transform inner) {declared : Option NodeId}
    (unwraps : Unwraps graph inner (site.descend site.marked declared) verdict) :
    Unwraps graph id site verdict where
  ends result same := by
    obtain ⟨path, b, chain⟩ := unwraps.ends result same
    exact ⟨id :: path, b, .around (by rw [kind]; rfl) chain⟩
  marked typed path b same chain := by
    have wrapped : wrapped? (graph.kind id) = some inner := by rw [kind]; rfl
    obtain ⟨rest, rfl, onward⟩ := chain.of_wrapped wrapped
    have marked := unwraps.marked typed rest b same onward
    simpa [Graph.marks, kind, Kind.marks, Site.descend] using marked

theorem Unwraps.optional {base : NodeId}
    (kind : graph.kind id = .optional inner ∨ graph.kind id = .nullable inner)
    (chain : graph.Chain id path base) {declared : Option NodeId}
    (unwraps : Unwraps graph base (site.descend true declared) verdict) :
    Unwraps graph id site (verdict.map (Option.map (Typed.mark site.marked))) where
  ends _ _ := ⟨path, base, chain⟩
  marked typed other b same again := by
    obtain ⟨inside, present, rfl⟩ := typed_of_map same
    obtain ⟨rfl, rfl⟩ := chain.unique again
    obtain ⟨nonempty, required⟩ := unwraps.marked inside [] base present (.bare chain.bare_end)
    have required : inside.type.isOptional = false := by simpa [Site.descend] using required
    refine ⟨nonempty, ?_⟩
    rw [Typed.mark_eq required, chain.marks_of_optional kind]
    cases site.marked
    · rfl
    · exact required

/-- Under a mark, a type that is there is not optional, so it can be marked. -/
theorem Unwraps.map_mark {declared : Option NodeId} (bare : wrapped? (graph.kind id) = none)
    (unwraps : Unwraps graph id (site.descend true declared) verdict) (marked : Bool) :
    verdict.map (Option.map (Typed.mark marked)) = Verdict.marked (!marked) verdict := by
  rcases verdict with failure | ⟨_ | typed⟩
  · rfl
  · rfl
  · obtain ⟨_, required⟩ := unwraps.marked typed [] id rfl (.bare bare)
    have required : typed.type.isOptional = false := by simpa [Site.descend] using required
    simp only [Verdict.marked, Except.map, Option.map_some, Typed.mark_eq required]
    cases marked <;> rfl

theorem wrapped?_of_nominal (nominal : (graph.kind id).isNominal = true) :
    wrapped? (graph.kind id) = none ∧ graph.kind id ≠ .empty := by
  cases kind : graph.kind id <;> simp_all [Kind.isNominal, wrapped?]

theorem Derives.unwraps
    (derived : Derives graph settings budget id site state events verdict next) :
    Unwraps graph id site verdict := by
  refine Derives.induction (P := fun id site _ _ verdict _ => Unwraps graph id site verdict)
    ⟨nofun, nofun⟩ (fun unwraps => unwraps) ?_ derived
  intro budget id site state events verdict next below step
  cases step with
  | primitive kind =>
      exact .of_bare (by rw [kind]; rfl) (by rintro _ ⟨⟩; exact ⟨by simp [kind], rfl⟩)
  | empty kind | unsupported kind => exact .of_bare (by rw [kind]; rfl) nofun
  | endless _ _ => exact ⟨nofun, nofun⟩
  | optional kind unwrapped inner =>
      obtain ⟨_, chain, _⟩ := chain_of_unwrap? unwrapped
      exact .optional kind chain (below inner)
  | collection kind inner =>
      refine .of_bare (by rw [kind]; rfl) fun typed same => ⟨by simp [kind], ?_⟩
      obtain ⟨_, _, rfl⟩ := typed_of_map same
      rfl
  | transform kind inner => exact .transform kind (below inner)
  | promoted nominal _ | visible nominal _ _ =>
      obtain ⟨bare, present⟩ := wrapped?_of_nominal nominal
      exact .of_bare bare (by rintro _ ⟨⟩; exact ⟨present, rfl⟩)
  | accepted fresh _ _ _ _ | collided fresh _ _ _ _ | void fresh _ _ _ | nested fresh _ _ _
  | hollow fresh _ _ _ =>
      obtain ⟨bare, present⟩ := wrapped?_of_nominal fresh.nominal
      exact .of_bare bare (by rintro _ ⟨⟩ <;> exact ⟨present, rfl⟩)

/-- A type that is there is optional just where a value may be absent and the site does not mark it. -/
theorem Unwraps.isOptional_eq (unwraps : Unwraps graph id site verdict) {typed : Typed}
    (present : verdict = .ok (some typed)) :
    typed.type.isOptional = (!site.marked && admitsNull graph id) := by
  obtain ⟨path, b, chain⟩ := unwraps.ends _ present
  obtain ⟨nonempty, marked⟩ := unwraps.marked typed path b present chain
  have bare := chain.bare_end
  have given : (graph.kind b).isAbsent = false := by
    cases kind : graph.kind b <;> simp_all [wrapped?, Kind.isAbsent]
  rw [marked, admitsNull_of_chain chain, given, Bool.or_false]

/-- Typing that is clear of the limit takes its step. -/
theorem Derives.entered
    (derived : Derives graph settings budget id site state events verdict next)
    (clears : Clears state verdict next) :
    ∃ budget last, Step graph settings (Derives graph settings budget) id site state.enter events
      verdict last ∧ next = last.leave := by
  cases budget with
  | zero =>
      obtain ⟨_, rfl, _⟩ := derived
      exact absurd rfl (clears.verdict _ rfl maxDepth)
  | succ budget =>
      cases derived with
      | limit _ => exact absurd rfl (clears.verdict _ rfl maxDepth)
      | inside _ step => exact ⟨budget, _, step, rfl⟩

/-- A transform is typed like the node in it. -/
theorem Derives.of_transform (kind : graph.kind id = .transform inner)
    (derived : Derives graph settings budget id site state events verdict next)
    (clears : Clears state verdict next) :
    Derives graph settings maxDepth inner
      (site.descend site.marked (declaredBy graph id site.declared)) state events verdict next := by
  obtain ⟨budget, last, step, rfl⟩ := derived.entered clears
  cases step with
  | transform kind' derived =>
      obtain rfl := Kind.transform.inj (kind.symm.trans kind')
      exact derived.lifted clears
  | optional kind' | endless kind' => rcases kind' with kind' | kind' <;> simp [kind] at kind'
  | primitive kind' | empty kind' | unsupported kind' | collection kind' => simp [kind] at kind'
  | promoted nominal | visible nominal => simp [kind, Kind.isNominal] at nominal
  | accepted fresh | collided fresh | void fresh | nested fresh | hollow fresh =>
      have nominal := fresh.nominal
      simp [kind, Kind.isNominal] at nominal

/-- An optional or nullable node is typed like the node under the chain that starts there. -/
theorem Derives.of_optional (kind : graph.kind id = .optional inner ∨ graph.kind id = .nullable inner)
    (chain : graph.Chain id path b)
    (derived : Derives graph settings budget id site state events verdict next)
    (clears : Clears state verdict next) :
    ∃ inner, Derives graph settings maxDepth b
        (site.descend true (graph.declarer path site.declared)) state events inner next ∧
      verdict = Verdict.marked (!site.marked) inner := by
  have bare {kind : Kind} (same : graph.kind id = kind) (other : wrapped? kind = none) : False := by
    have wrapped : wrapped? (graph.kind id) = some inner := by
      rcases ‹_ ∨ _› with kind | kind <;> rw [kind] <;> rfl
    rw [same, other] at wrapped
    cases wrapped
  obtain ⟨budget, last, step, rfl⟩ := derived.entered clears
  cases step with
  | optional _ unwrapped derived =>
      obtain ⟨other, again, rfl⟩ := chain_of_unwrap? unwrapped
      obtain ⟨rfl, rfl⟩ := again.unique chain
      exact ⟨_, derived.lifted clears.of_map, derived.unwraps.map_mark again.bare_end _⟩
  | endless _ _ => exact absurd rfl (clears.verdict _ rfl graph.size)
  | transform kind' => rcases kind with kind | kind <;> simp [kind] at kind'
  | primitive kind' | empty kind' | unsupported kind' | collection kind' =>
      exact (bare kind' rfl).elim
  | promoted nominal | visible nominal => exact (bare rfl (wrapped?_of_nominal nominal).1).elim
  | accepted fresh | collided fresh | void fresh | nested fresh | hollow fresh =>
      exact (bare rfl (wrapped?_of_nominal fresh.nominal).1).elim

/-- What is clear of the limit needs no more than the whole budget. -/
theorem Derives.renewed
    (derived : Derives graph settings budget id site state events verdict next)
    (clears : Clears state verdict next) :
    Derives graph settings maxDepth id site state events verdict next := by
  have moved := Derives.relocated graph settings (Nat.le_refl state.callDepth)
    (Nat.le_add_right _ _) derived rfl clears
  have same : next.atDepth state.callDepth = next := by
    rw [← derived.callDepth_eq]
    rfl
  rwa [same] at moved

/-- A chain of wrappers is typed like the node under it. -/
theorem Derives.of_chain (chain : graph.Chain id path b)
    (derived : Derives graph settings budget id site state events verdict next)
    (clears : Clears state verdict next) :
    ∃ inner, Derives graph settings maxDepth b (site.under graph path) state events inner next ∧
      verdict = Verdict.marked (!site.marked && graph.marks path) inner := by
  induction chain generalizing budget site with
  | bare _ =>
      refine ⟨verdict, ?_, by simp [Graph.marks]⟩
      rw [Site.under_nil]
      exact derived.renewed clears
  | @around id inner b path wrapped chain ih =>
      have whole : graph.Chain id (id :: path) b := .around wrapped chain
      cases kind : graph.kind id with
      | optional | nullable =>
          have kind : graph.kind id = .optional inner ∨ graph.kind id = .nullable inner := by
            simpa [kind, wrapped?] using wrapped
          obtain ⟨inside, found, same⟩ := derived.of_optional kind whole clears
          have own := whole.marks_of_optional kind
          refine ⟨inside, ?_, by rwa [own, Bool.and_true]⟩
          rw [Site.under, own, Bool.or_true]
          exact found
      | transform =>
          have kind : graph.kind id = .transform inner := by simpa [kind, wrapped?] using wrapped
          have quiet : graph.marks (id :: path) = graph.marks path := by
            simp [Graph.marks, kind, Kind.marks]
          obtain ⟨inside, found, same⟩ := ih (derived.of_transform kind clears)
          refine ⟨inside, ?_, by rwa [quiet]⟩
          rw [Site.under, quiet, graph.declarer_cons]
          exact found
      | _ => simp [kind, wrapped?] at wrapped

/-- A transform without a name and a flag changes nothing. -/
theorem Derives.of_plain_transform (kind : graph.kind id = .transform inner)
    (unnamed : (graph.label id).name = none) (unflagged : (graph.label id).isGlobal = false)
    (derived : Derives graph settings budget id site state events verdict next)
    (clears : Clears state verdict next) :
    Derives graph settings maxDepth inner site state events verdict next := by
  have found := derived.of_transform kind clears
  have same : declaredBy graph id site.declared = site.declared := by
    simp [declaredBy, unnamed, unflagged]
  rw [same] at found
  exact found

end

end RouterClient.Typing
