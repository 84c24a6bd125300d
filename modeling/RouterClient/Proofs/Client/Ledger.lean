import RouterClient.Proofs.Client.Containment
import RouterClient.Proofs.Code.Outline

/-! # The ledger of a client

Every procedure of a router is excluded, left out with a report under its path, or offered by a method of
the class that its namespace leads to.  The account that assembly keeps goes through the tree in order,
and the classes of a client take their methods from it, so both agree with the router.
-/

namespace RouterClient.Code.RouteClass

mutual

/-- A class and the classes nested in it, each with the segments that lead to it. -/
def reached (here : List String) : RouteClass → List (List String × RouteClass)
  | ⟨name, segment, models, methods, children⟩ =>
    (here, ⟨name, segment, models, methods, children⟩) :: reachedBelow here children

def reachedBelow (here : List String) : List RouteClass → List (List String × RouteClass)
  | [] => []
  | child :: more => child.reached (here ++ [child.segment]) ++ reachedBelow here more

end

theorem reached_eq (here : List String) (cls : RouteClass) :
    cls.reached here = (here, cls) :: reachedBelow here cls.children := by
  obtain ⟨name, segment, models, methods, children⟩ := cls
  rw [reached]

mutual

/-- A class that is reached is written inside the class that it is reached from. -/
theorem reached_infix (style : Style) (depth : Nat) (here : List String) (cls : RouteClass)
    {item : List String × RouteClass} (listed : item ∈ cls.reached here) :
    ∃ rest, item.1 = here ++ rest ∧
      item.2.lines style (depth + rest.length) <:+: cls.lines style depth := by
  obtain ⟨name, segment, models, methods, children⟩ := cls
  rw [reached, List.mem_cons] at listed
  rcases listed with rfl | listed
  · exact ⟨[], (List.append_nil here).symm, List.infix_rfl⟩
  · obtain ⟨child, nested, rest, split, inside⟩ :=
      reachedBelow_infix style (depth + 1) here children listed
    refine ⟨child.segment :: rest, split, ?_⟩
    have deeper : depth + (child.segment :: rest).length = depth + 1 + rest.length := by
      simp only [List.length_cons]
      omega
    have nearer : child.lines style (depth + 1) <:+:
        lines style depth ⟨name, segment, models, methods, children⟩ :=
      child_infix style depth nested
    rw [deeper]
    exact inside.trans nearer

theorem reachedBelow_infix (style : Style) (depth : Nat) (here : List String)
    (children : List RouteClass) {item : List String × RouteClass}
    (listed : item ∈ reachedBelow here children) :
    ∃ child ∈ children, ∃ rest, item.1 = here ++ child.segment :: rest ∧
      item.2.lines style (depth + rest.length) <:+: child.lines style depth := by
  cases children with
  | nil => cases listed
  | cons child more =>
      rw [reachedBelow, List.mem_append] at listed
      rcases listed with listed | listed
      · obtain ⟨rest, split, inside⟩ :=
          reached_infix style depth (here ++ [child.segment]) child listed
        exact ⟨child, List.mem_cons_self, rest, by simp [split], inside⟩
      · obtain ⟨other, nested, found⟩ := reachedBelow_infix style depth here more listed
        exact ⟨other, List.mem_cons_of_mem _ nested, found⟩

end

end RouterClient.Code.RouteClass

namespace RouterClient.Client

open Route (Entry Leaf Procedure Tree join segments)
open Code (Declaration Method RouteClass Style isNameChar typeName typeName_nameChars)
open Model (LocalModels Scope)
open Typing

theorem spaceName_nameChars (key : String) : ∀ c ∈ (spaceName key).toList, isNameChar c = true :=
  Code.nameChars_of_isIdentifier (Code.typeName_route_usable key).identifier

/-- The methods that an account gives to the class at the end of some segments. -/
def methodsIn (log : List Account) (space : List String) : List Method :=
  (log.filter fun account => account.steps.dropLast = space).filterMap (·.fate.method?)

theorem methodsIn_append (log more : List Account) (space : List String) :
    methodsIn (log ++ more) space = methodsIn log space ++ methodsIn more space := by
  simp [methodsIn]

theorem methodsIn_eq_nil {log : List Account} {space : List String}
    (elsewhere : ∀ account ∈ log, account.steps.dropLast ≠ space) : methodsIn log space = [] := by
  have none : (log.filter fun account => account.steps.dropLast = space) = [] := by
    simpa using elsewhere
  rw [methodsIn, none, List.filterMap_nil]

section

variable {setting : Setting} {place : Place} {draft grown final : ClassDraft}
  {entries : List (String × Entry)} {state next last : State} {log : List Account}

/-- The account goes through the tree in order. -/
theorem Assembles.located (assembled : Assembles setting place draft entries state log final last) :
    log.map (fun account => (account.steps, account.procedure)) =
      (Tree.leaves entries).map fun leaf => (place.segments ++ leaf.1, leaf.2) := by
  induction assembled with
  | done => rfl
  | procedure _ _ ih => simp [Tree.leaves, Entry.leaves, Leaf.under, ih]
  | space _ _ below ih =>
      simp [Tree.leaves, Entry.leaves, Leaf.under, Place.below, below, ih, Function.comp_def]

/-- An account is about a procedure at or below one of the entries. -/
theorem Assembles.steps_eq (assembled : Assembles setting place draft entries state log final last)
    {account : Account} (listed : account ∈ log) :
    ∃ key ∈ Table.keys entries, ∃ rest, account.steps = place.segments ++ key :: rest := by
  have member := List.mem_map_of_mem
    (f := fun account : Account => (account.steps, account.procedure)) listed
  rw [assembled.located] at member
  obtain ⟨leaf, inside, same⟩ := List.mem_map.mp member
  obtain ⟨key, entry, rest, stands, steps, _⟩ := Tree.mem_leaves.mp inside
  refine ⟨key, List.mem_map_of_mem stands, rest, ?_⟩
  rw [← steps]
  exact (congrArg Prod.fst same).symm

theorem Assembles.diagnostics_eq
    (assembled : Assembles setting place draft entries state log final last) :
    last.typing.diagnostics = state.typing.diagnostics ++ log.flatMap Account.diagnostics := by
  induction assembled with
  | done => exact (List.append_nil _).symm
  | procedure settled _ ih =>
      rw [ih, settled.diagnostics_eq, List.flatMap_cons, List.append_assoc]
      rfl
  | space _ _ below ih => rw [ih, below, List.flatMap_append, List.append_assoc]

/-- Classes nested below a class for the namespaces among some entries. -/
structure Houses (here : List String) (entries : List (String × Entry)) (log : List Account)
    (classes : List (List String × RouteClass)) : Prop where
  inside : ∀ item ∈ classes, ∃ key ∈ Table.keys entries, ∃ rest, item.1 = here ++ key :: rest
  distinct : (classes.map Prod.fst).Nodup
  methods : ∀ item ∈ classes, item.2.methods = methodsIn log item.1
  named : ∀ item ∈ classes, item.1.getLast?.map spaceName = some item.2.name
  complete : ∀ account ∈ log, account.steps.dropLast = here ∨
    ∃ item ∈ classes, item.1 = account.steps.dropLast

/-- A procedure at or below a name does not stand in a class below another name. -/
theorem eq_of_dropLast {here rest more : List String} {key other : String}
    (same : (here ++ key :: rest).dropLast = here ++ other :: more) : key = other := by
  rw [List.dropLast_append_of_ne_nil (by simp), List.append_cancel_left_eq] at same
  cases rest with
  | nil => cases same
  | cons => exact (List.cons.inj same).1

namespace Houses

variable {here : List String} {key : String} {more below : List (String × Entry)}
  {inner : List Account} {classes nested : List (List String × RouteClass)}

theorem procedure (houses : Houses here more log classes) (procedure : Procedure)
    {account : Account} (steps : account.steps = here ++ [key]) :
    Houses here ((key, .procedure procedure) :: more) (account :: log) classes where
  inside item listed := by
    obtain ⟨other, member, split⟩ := houses.inside item listed
    exact ⟨other, List.mem_cons_of_mem _ member, split⟩
  distinct := houses.distinct
  methods item listed := by
    obtain ⟨other, _, rest, split⟩ := houses.inside item listed
    have elsewhere : methodsIn [account] item.1 = [] := by
      refine methodsIn_eq_nil ?_
      intro _ single same
      obtain rfl := List.mem_singleton.mp single
      rw [steps, split] at same
      simp at same
    rw [← List.singleton_append, methodsIn_append, elsewhere, List.nil_append]
    exact houses.methods item listed
  named := houses.named
  complete := by
    intro other listed
    rcases List.mem_cons.mp listed with rfl | listed
    · exact .inl (by rw [steps, List.dropLast_concat])
    · exact houses.complete other listed

/-- The class of a namespace and the classes in it join those of the namespaces after it. -/
theorem space (houses : Houses here more log classes) (own : Houses (here ++ [key]) below inner nested)
    (new : key ∉ Table.keys more)
    (before : ∀ account ∈ inner, ∃ rest, account.steps = here ++ key :: rest ∧ rest ≠ [])
    (after : ∀ account ∈ log, ∃ other ∈ Table.keys more, ∃ rest,
      account.steps = here ++ other :: rest)
    {cls : RouteClass} (methods : cls.methods = methodsIn inner (here ++ [key]))
    (named : cls.name = spaceName key) :
    Houses here ((key, .space below) :: more) (inner ++ log)
      (((here ++ [key], cls) :: nested) ++ classes) := by
  -- Whatever stands in the namespace has its name after `here`, and whatever comes later has not.
  have within : ∀ item ∈ (here ++ [key], cls) :: nested, ∃ rest, item.1 = here ++ key :: rest := by
    intro item listed
    rcases List.mem_cons.mp listed with rfl | listed
    · exact ⟨[], rfl⟩
    · obtain ⟨other, _, rest, split⟩ := own.inside item listed
      exact ⟨other :: rest, by simp [split]⟩
  refine ⟨?_, ?_, ?_, ?_, ?_⟩
  · intro item listed
    rcases List.mem_append.mp listed with listed | listed
    · obtain ⟨rest, split⟩ := within item listed
      exact ⟨key, List.mem_cons_self, rest, split⟩
    · obtain ⟨other, member, split⟩ := houses.inside item listed
      exact ⟨other, List.mem_cons_of_mem _ member, split⟩
  · rw [List.map_append, List.nodup_append]
    refine ⟨?_, houses.distinct, ?_⟩
    · rw [List.map_cons, List.nodup_cons]
      refine ⟨?_, own.distinct⟩
      intro again
      obtain ⟨item, listed, same⟩ := List.mem_map.mp again
      obtain ⟨other, _, rest, split⟩ := own.inside item listed
      simp [split] at same
    · intro _ first _ second same
      obtain ⟨item, listed, rfl⟩ := List.mem_map.mp first
      obtain ⟨item', listed', rfl⟩ := List.mem_map.mp second
      obtain ⟨rest, split⟩ := within item listed
      obtain ⟨other, member, rest', split'⟩ := houses.inside item' listed'
      rw [split, split', List.append_cancel_left_eq] at same
      exact new ((List.cons.inj same).1 ▸ member)
  · intro item listed
    rw [methodsIn_append]
    rcases List.mem_append.mp listed with listed | listed
    · obtain ⟨rest, split⟩ := within item listed
      have elsewhere : methodsIn log item.1 = [] := by
        refine methodsIn_eq_nil ?_
        intro account entered same
        obtain ⟨other, member, rest', steps⟩ := after account entered
        rw [steps, split] at same
        exact new (eq_of_dropLast same ▸ member)
      rw [elsewhere, List.append_nil]
      rcases List.mem_cons.mp listed with rfl | listed
      · exact methods
      · exact own.methods item listed
    · obtain ⟨other, member, rest, split⟩ := houses.inside item listed
      have elsewhere : methodsIn inner item.1 = [] := by
        refine methodsIn_eq_nil ?_
        intro account entered same
        obtain ⟨rest', steps, _⟩ := before account entered
        rw [steps, split] at same
        exact new (eq_of_dropLast same ▸ member)
      rw [elsewhere, List.nil_append]
      exact houses.methods item listed
  · intro item listed
    rcases List.mem_append.mp listed with listed | listed
    · rcases List.mem_cons.mp listed with rfl | listed
      · simp [named]
      · exact own.named item listed
    · exact houses.named item listed
  · intro account entered
    rcases List.mem_append.mp entered with entered | entered
    · refine .inr ?_
      rcases own.complete account entered with here | ⟨item, listed, same⟩
      · exact ⟨_, List.mem_append_left _ List.mem_cons_self, here.symm⟩
      · exact ⟨item, List.mem_append_left _ (List.mem_cons_of_mem _ listed), same⟩
    · rcases houses.complete account entered with here | ⟨item, listed, same⟩
      · exact .inl here
      · exact .inr ⟨item, List.mem_append_right _ listed, same⟩

/-- The names of the classes below the root are spelled with letters, digits and underscores. -/
theorem nameChars (houses : Houses here more log classes) {item : List String × RouteClass}
    (listed : item ∈ classes) : ∀ c ∈ item.2.name.toList, isNameChar c = true := by
  obtain ⟨key, _, same⟩ := Option.map_eq_some_iff.mp (houses.named item listed)
  rw [← same]
  exact spaceName_nameChars key

end Houses

theorem Assembles.houses (assembled : Assembles setting place draft entries state log final last)
    (distinct : Tree.Distinct entries) :
    final.methods = draft.methods ++ methodsIn log place.segments ∧
    ∃ added, final.children = draft.children ++ added ∧
      Houses place.segments entries log (RouteClass.reachedBelow place.segments added) := by
  induction assembled with
  | done =>
      refine ⟨by simp [methodsIn], [], by simp, ?_⟩
      constructor <;> simp [RouteClass.reachedBelow]
  | @procedure place draft key procedure _ _ fate noted _ _ log _ _ settled _ ih =>
      obtain ⟨methods, added, children, houses⟩ := ih distinct.tail
      obtain ⟨own, kept⟩ := settled.members
      refine ⟨?_, added, by rw [children, kept], houses.procedure procedure rfl⟩
      have first : methodsIn [⟨place.segments ++ [key], procedure, fate, noted⟩] place.segments =
          fate.method?.toList := by
        cases fate <;> simp [methodsIn, Fate.method?]
      rw [methods, own, ← List.singleton_append, methodsIn_append, first, List.append_assoc]
  | @space place draft key _ _ _ below child _ log _ _ inner rest ihBelow ih =>
      obtain ⟨methods, added, children, houses⟩ := ih distinct.tail
      obtain ⟨ownMethods, nested, ownChildren, inside⟩ := ihBelow distinct.head
      obtain rfl : child.children = nested := ownChildren
      have before : ∀ account ∈ below, ∃ rest,
          account.steps = place.segments ++ key :: rest ∧ rest ≠ [] := by
        intro account listed
        obtain ⟨other, _, rest, steps⟩ := inner.steps_eq listed
        exact ⟨other :: rest, by simp [steps, Place.below], by simp⟩
      have deeper : methodsIn below place.segments = [] := by
        refine methodsIn_eq_nil ?_
        intro account listed same
        obtain ⟨rest, steps, nonempty⟩ := before account listed
        rw [steps, List.dropLast_append_of_ne_nil (by simp), List.dropLast_cons_of_ne_nil nonempty]
          at same
        simp at same
      have own : (child.toClass (spaceName key) key).methods =
          methodsIn below (place.segments ++ [key]) := ownMethods
      have housed := houses.space inside distinct.not_mem before (fun _ => rest.steps_eq) own rfl
      refine ⟨?_, child.toClass (spaceName key) key :: added, ?_, ?_⟩
      · rw [methods, methodsIn_append, deeper]
        rfl
      · rw [children]
        simp [ClassDraft.nest]
      · rw [RouteClass.reachedBelow, RouteClass.reached_eq]
        exact housed

/-- What becomes of the procedure under a path, and what typing reports about parts of its models.  All
of it comes from the settings and from one run that types the procedure. -/
inductive Justified (setting : Setting) (path : String) (procedure : Procedure) :
    Fate → List Diagnostic → Prop where
  | excluded :
      isIncluded setting.settings procedure = false →
      Justified setting path procedure .excluded []
  | failed {key scope models before failure after noted} :
      (segments path).getLast? = some key →
      isIncluded setting.settings procedure = true →
      typeProcedure setting key procedure scope models before = .error failure after →
      failure.isFatal = false →
      after.diagnostics = before.diagnostics ++ noted →
      Justified setting path procedure (.failed failure) noted
  | offered {key scope models before typed after noted} :
      (segments path).getLast? = some key →
      isIncluded setting.settings procedure = true →
      typeProcedure setting key procedure scope models before = .ok typed after →
      after.diagnostics = before.diagnostics ++ noted →
      Justified setting path procedure (.offered typed.method) noted

theorem Settles.justified {key path : String} {procedure : Procedure} {fate : Fate}
    {noted : List Diagnostic}
    (settled : Settles setting place draft key procedure state fate noted grown next)
    (located : segments path = place.segments ++ [key]) :
    Justified setting path procedure fate noted := by
  have ends : (segments path).getLast? = some key := by simp [located]
  cases settled with
  | excluded left => exact .excluded left
  | failed included run recoverable same => exact .failed ends included run recoverable same
  | offered included run same => exact .offered ends included run same

theorem Assembles.justified
    (assembled : Assembles setting place draft entries state log final last) :
    ∀ account ∈ log, ∀ path, segments path = account.steps →
      Justified setting path account.procedure account.fate account.noted := by
  induction assembled with
  | done =>
      intro account listed
      cases listed
  | procedure settled _ ih =>
      intro account listed path located
      rcases List.mem_cons.mp listed with rfl | listed
      · exact settled.justified located
      · exact ih account listed path located
  | space _ _ below ih =>
      intro account listed path located
      rcases List.mem_append.mp listed with listed | listed
      · exact below account listed path located
      · exact ih account listed path located

end

/-- The method of a procedure is called like the last segment of its path. -/
theorem Justified.method_key {setting : Setting} {path : String} {procedure : Procedure} {fate : Fate}
    {noted : List Diagnostic} (justified : Justified setting path procedure fate noted)
    {method : Method} (offered : fate.method? = some method) :
    (segments path).getLast? = some method.key := by
  cases justified with
  | excluded _ | failed _ _ _ _ _ => cases offered
  | offered ends _ run _ =>
      cases offered
      obtain ⟨_, _, _, _, _, _, made⟩ := (typeProcedure_ok run).of_ok
      obtain ⟨_, _, same⟩ := typedProcedure_ok made
      rw [ends, same]

/-- Accounts under distinct paths can be told apart by the paths. -/
theorem exists_fates {log : List Account}
    (distinct : (log.map fun account => join account.steps).Nodup) :
    ∃ (fate : String → Fate) (noted : String → List Diagnostic), ∀ account ∈ log,
      fate (join account.steps) = account.fate ∧ noted (join account.steps) = account.noted := by
  induction log with
  | nil => exact ⟨fun _ => .excluded, fun _ => [], by simp⟩
  | cons account more ih =>
      rw [List.map_cons, List.nodup_cons] at distinct
      obtain ⟨fate, noted, told⟩ := ih distinct.2
      refine ⟨Function.update fate (join account.steps) account.fate,
        Function.update noted (join account.steps) account.noted, ?_⟩
      intro other listed
      rcases List.mem_cons.mp listed with rfl | listed
      · exact ⟨Function.update_self _ _ _, Function.update_self _ _ _⟩
      · have different : join other.steps ≠ join account.steps := by
          intro same
          exact distinct.1 (same ▸ List.mem_map_of_mem (f := fun account : Account =>
            join account.steps) listed)
        rw [Function.update_of_ne different, Function.update_of_ne different]
        exact told other listed

/-- What the classes of a client offer, and what has become of each procedure of the router. -/
structure Accounts (setting : Setting) (procedures : Table String Procedure) (root : RouteClass)
    (fate : String → Fate) (noted : String → List Diagnostic) : Prop where
  justified : ∀ path procedure, (path, procedure) ∈ procedures →
    Justified setting path procedure (fate path) (noted path)
  /-- One class for a namespace. -/
  spaces : ((root.reached []).map Prod.fst).Nodup
  named : ∀ space cls, (space, cls) ∈ root.reached [] →
    ∀ last, space.getLast? = some last → cls.name = spaceName last
  /-- The class of its namespace has the procedure's method if there is one, and no other of the
  procedure's name. -/
  placed : ∀ path procedure, (path, procedure) ∈ procedures →
    ∃ cls, ((segments path).dropLast, cls) ∈ root.reached [] ∧
      cls.methods.filter (fun method => (segments path).getLast? = some method.key) =
        (fate path).method?.toList
  /-- The methods of a class come from the procedures of its namespace, in their order. -/
  methods : ∀ space cls, (space, cls) ∈ root.reached [] →
    cls.methods = (procedures.filter fun entry => (segments entry.1).dropLast = space).filterMap
      fun entry => (fate entry.1).method?
  /-- Every class is written with its methods in their order and no others, inside the root class. -/
  written : ∀ style space cls, (space, cls) ∈ root.reached [] →
    cls.Written style space.length ∧
    cls.lines style space.length <:+: root.lines style 0 ∧
    ∀ method ∈ cls.methods, method.lines style space.length <:+: cls.lines style space.length

theorem filterMap_only {α β : Type} {items : List α} {item : α} {f : α → Option β}
    (distinct : items.Nodup) (listed : item ∈ items)
    (others : ∀ other ∈ items, other ≠ item → f other = none) :
    items.filterMap f = (f item).toList := by
  induction items with
  | nil => cases listed
  | cons first more ih =>
      rw [List.nodup_cons] at distinct
      by_cases same : first = item
      · subst same
        have rest : more.filterMap f = [] := by
          rw [List.filterMap_eq_nil_iff]
          intro other later
          refine others other (List.mem_cons_of_mem _ later) ?_
          rintro rfl
          exact distinct.1 later
        cases result : f first <;> simp [result, rest]
      · have later := List.mem_of_ne_of_mem (Ne.symm same) listed
        rw [List.filterMap_cons, others first List.mem_cons_self same]
        exact ih distinct.2 later fun other member => others other (List.mem_cons_of_mem _ member)

section

variable {setting : Setting} {router : String} {procedures : Table String Procedure} {tree : Tree}
  {start final : ClassDraft} {middle last : State} {log : List Account} {fate : String → Fate}
  {noted : String → List Diagnostic}

/-- The account of a whole client goes through the procedures of the tree. -/
theorem Assembles.flatten_eq
    (assembled : Assembles setting ⟨[], [typeName router]⟩ start tree middle log final last) :
    log.map (fun account => (join account.steps, account.procedure)) = tree.flatten := by
  have located := congrArg (List.map fun leaf : Leaf => (join leaf.1, leaf.2)) assembled.located
  simpa [Tree.flatten, Function.comp_def] using located

/-- Every procedure of the router has an account. -/
theorem Assembles.exists_account (holds : tree.Holds (Route.located procedures))
    (assembled : Assembles setting ⟨[], [typeName router]⟩ start tree middle log final last)
    {path : String} {procedure : Procedure} (listed : (path, procedure) ∈ procedures) :
    ∃ account ∈ log, account.steps = segments path ∧ account.procedure = procedure := by
  have leaf : (segments path, procedure) ∈ tree.leaves :=
    holds.perm.mem_iff.mpr (List.mem_map.mpr ⟨_, listed, rfl⟩)
  have located := assembled.located
  simp only [List.nil_append, Prod.mk.eta, List.map_id'] at located
  rw [← located] at leaf
  obtain ⟨account, member, same⟩ := List.mem_map.mp leaf
  exact ⟨account, member, congrArg Prod.fst same, congrArg Prod.snd same⟩

theorem Assembles.methodsIn_eq (holds : tree.Holds (Route.located procedures))
    (assembled : Assembles setting ⟨[], [typeName router]⟩ start tree middle log final last)
    (told : ∀ account ∈ log, fate (join account.steps) = account.fate) (space : List String) :
    methodsIn log space =
      (procedures.filter fun entry => (segments entry.1).dropLast = space).filterMap
        fun entry => (fate entry.1).method? := by
  have located : log.map (fun account => (account.steps, account.procedure)) = tree.leaves := by
    simpa using assembled.located
  calc methodsIn log space
      = (log.filter fun account => account.steps.dropLast = space).filterMap
          fun account => (fate (join account.steps)).method? := by
        refine List.filterMap_congr ?_
        intro account listed
        rw [told account (List.mem_of_mem_filter listed)]
    _ = (tree.leaves.filter fun leaf => leaf.1.dropLast = space).filterMap
          fun leaf => (fate (join leaf.1)).method? := by
        rw [← located, List.filter_map, List.filterMap_map]
        rfl
    _ = ((Route.located procedures).filter fun leaf => leaf.1.dropLast = space).filterMap
          fun leaf => (fate (join leaf.1)).method? := by
        rw [holds.inOrder]
    _ = _ := by
        rw [Route.located, List.filter_map, List.filterMap_map]
        simp [Function.comp_def]

/-- Among the methods of a namespace, the name of a procedure is its own. -/
theorem offered_once (once : procedures.keys.Nodup)
    (justified : ∀ path procedure, (path, procedure) ∈ procedures →
      Justified setting path procedure (fate path) (noted path))
    {path : String} {procedure : Procedure} (listed : (path, procedure) ∈ procedures) :
    ((procedures.filter fun entry => (segments entry.1).dropLast =
        (segments path).dropLast).filterMap fun entry => (fate entry.1).method?).filter
      (fun method => (segments path).getLast? = some method.key) = (fate path).method?.toList := by
  let own (method : Method) : Bool := (segments path).getLast? = some method.key
  have apart : ∀ entry ∈ procedures.filter fun entry =>
      (segments entry.1).dropLast = (segments path).dropLast, entry ≠ (path, procedure) →
      ((fate entry.1).method?).filter own = none := by
    rintro ⟨other, taken⟩ member different
    obtain ⟨stands, around⟩ := List.mem_filter.mp member
    cases offered : (fate other).method? with
    | none => rfl
    | some method =>
        have ends := (justified other taken stands).method_key offered
        -- Two paths of one namespace that end alike are the same.
        have unlike : (segments path).getLast? ≠ some method.key := by
          intro ends'
          have same : segments other = segments path := by
            rw [← List.dropLast_append_getLast? _ ends, ← List.dropLast_append_getLast? _ ends',
              of_decide_eq_true around]
          obtain rfl := Route.segments_injective same
          exact different (List.inj_on_of_nodup_map once stands listed rfl)
        simp [own, Option.filter, unlike]
  have kept : ((fate path).method?).filter own = (fate path).method? := by
    cases offered : (fate path).method? with
    | none => rfl
    | some method =>
        have ends := (justified path procedure listed).method_key offered
        simp [own, Option.filter, ends]
  have entry : (path, procedure) ∈ procedures.filter fun entry =>
      (segments entry.1).dropLast = (segments path).dropLast :=
    List.mem_filter.mpr ⟨listed, by simp⟩
  have only := filterMap_only (f := fun entry : String × Procedure =>
    ((fate entry.1).method?).filter own) ((List.Nodup.of_map _ once).filter _) entry apart
  rw [List.filter_filterMap]
  exact only.trans (congrArg Option.toList kept)

theorem Assembles.accounts (built : Tree.ofProcedures procedures = .ok tree)
    (assembled : Assembles setting ⟨[], [typeName router]⟩ start tree middle log final last)
    (unused : start.methods = []) (childless : start.children = []) :
    ∃ fate noted, Accounts setting procedures (final.toClass (typeName router) router) fate noted ∧
      last.typing.diagnostics = middle.typing.diagnostics ++
        tree.flatten.flatMap fun entry => noted entry.1 ++ (fate entry.1).reports entry.1 := by
  obtain ⟨once, holds⟩ := Route.ofProcedures_holds built
  have distinct : (log.map fun account => join account.steps).Nodup := by
    have keys := (holds.nests.perm.map Prod.fst).nodup_iff.mpr once
    rw [← assembled.flatten_eq, List.map_map] at keys
    exact keys
  obtain ⟨fate, noted, told⟩ := exists_fates distinct
  have methodsOf := assembled.methodsIn_eq holds fun account listed => (told account listed).1
  obtain ⟨ownMethods, added, ownChildren, houses⟩ := assembled.houses holds.distinct
  rw [unused, List.nil_append] at ownMethods
  rw [childless, List.nil_append] at ownChildren
  subst ownChildren
  let root := final.toClass (typeName router) router
  have reached : root.reached [] = ([], root) :: RouteClass.reachedBelow [] final.children :=
    RouteClass.reached_eq [] root
  have entered {path : String} {procedure : Procedure} (listed : (path, procedure) ∈ procedures) :
      ∃ account ∈ log, account.steps = segments path ∧ account.procedure = procedure ∧
        fate path = account.fate ∧ noted path = account.noted := by
    obtain ⟨account, member, steps, same⟩ := assembled.exists_account holds listed
    have found := told account member
    rw [steps, Route.join_segments] at found
    exact ⟨account, member, steps, same, found⟩
  have justified : ∀ path procedure, (path, procedure) ∈ procedures →
      Justified setting path procedure (fate path) (noted path) := by
    intro path procedure listed
    obtain ⟨account, member, steps, rfl, same, same'⟩ := entered listed
    rw [same, same']
    exact assembled.justified account member path steps.symm
  have methods : ∀ space cls, (space, cls) ∈ root.reached [] →
      cls.methods = (procedures.filter fun entry => (segments entry.1).dropLast = space).filterMap
        fun entry => (fate entry.1).method? := by
    intro space cls listed
    rw [← methodsOf space]
    rw [reached, List.mem_cons] at listed
    rcases listed with same | listed
    · cases same
      exact ownMethods
    · exact houses.methods _ listed
  refine ⟨fate, noted, ⟨justified, ?_, ?_, ?_, methods, ?_⟩, ?_⟩
  · rw [reached, List.map_cons, List.nodup_cons]
    refine ⟨?_, houses.distinct⟩
    intro again
    obtain ⟨item, listed, same⟩ := List.mem_map.mp again
    obtain ⟨key, _, rest, split⟩ := houses.inside item listed
    simp [split] at same
  · intro space cls listed last ends
    rw [reached, List.mem_cons] at listed
    rcases listed with same | listed
    · cases same
      cases ends
    · have named := houses.named _ listed
      simp only [ends, Option.map_some, Option.some.injEq] at named
      exact named.symm
  · intro path procedure listed
    obtain ⟨account, member, steps, _⟩ := entered listed
    obtain ⟨cls, stands⟩ : ∃ cls, ((segments path).dropLast, cls) ∈ root.reached [] := by
      rw [reached, ← steps]
      rcases houses.complete account member with top | ⟨item, below, same⟩
      · exact ⟨root, by rw [top]; exact List.mem_cons_self⟩
      · exact ⟨item.2, by rw [← same]; exact List.mem_cons_of_mem _ below⟩
    refine ⟨cls, stands, ?_⟩
    rw [methods _ cls stands]
    exact offered_once once justified listed
  · intro style space cls listed
    obtain ⟨rest, split, inside⟩ := RouteClass.reached_infix style 0 [] root listed
    obtain rfl : space = rest := split
    rw [Nat.zero_add] at inside
    have names : ∀ c ∈ cls.name.toList, isNameChar c = true := by
      rw [reached, List.mem_cons] at listed
      rcases listed with same | listed
      · cases same
        exact typeName_nameChars router
      · exact houses.nameChars listed
    exact ⟨RouteClass.written_of_nameChars style _ names, inside,
      fun method member => RouteClass.method_infix style _ member⟩
  · rw [assembled.diagnostics_eq, ← assembled.flatten_eq, List.flatMap_map]
    congr 1
    refine List.flatMap_congr ?_
    intro account listed
    rw [(told account listed).1, (told account listed).2]
    rfl

end

theorem ofDocument_ok {settings : Settings} {document : Document} {router : String} {client : Client}
    (assembled : ofDocument settings document router = .ok client) :
    ∃ procedures tree, document.router router = .ok procedures ∧
      Tree.ofProcedures procedures = .ok tree ∧
      assemble settings document.graph router tree document.definitions = .ok client := by
  unfold ofDocument at assembled
  cases found : document.router router with
  | error failure =>
      rw [found] at assembled
      cases assembled
  | ok procedures =>
      rw [found] at assembled
      cases built : Tree.ofProcedures procedures with
      | error failure =>
          simp only [Except.mapError, bind, Except.bind, built] at assembled
          cases assembled
      | ok tree =>
          simp only [Except.mapError, bind, Except.bind, built] at assembled
          exact ⟨procedures, tree, rfl, built, assembled⟩

/-- Every procedure of the router has one fate: it is excluded by its own word or the settings, or its
failure is reported once under its path, or its class has one method for it.  Nothing else is in the
classes, which are written with their methods in the order of the procedures, and what else is reported
comes from definitions and from parts of models. -/
theorem procedures_accounted {settings : Settings} {document : Document} {router template : String}
    {generation : Generation} (generated : generate settings document router template = .ok generation) :
    ∃ procedures tree client start state fate noted,
      document.router router = .ok procedures ∧
      Tree.ofProcedures procedures = .ok tree ∧
      tree.flatten.Perm procedures ∧
      ofDocument settings document router = .ok client ∧
      generation = client.generation settings template ∧
      Accounts ⟨document.graph, settings⟩ procedures client.root fate noted ∧
      (wantedDefinitions settings document.definitions).foldlM
        (addDefinition ⟨document.graph, settings⟩) { scope := {} } {} = .ok start state ∧
      generation.diagnostics = state.typing.diagnostics ++
        tree.flatten.flatMap fun entry => noted entry.1 ++ (fate entry.1).reports entry.1 := by
  unfold generate at generated
  cases drawn : ofDocument settings document router with
  | error abort =>
      rw [drawn] at generated
      cases generated
  | ok client =>
      rw [drawn] at generated
      cases generated
      obtain ⟨procedures, tree, found, built, assembled⟩ := ofDocument_ok drawn
      have perm := (Route.ofProcedures_holds built).2.nests.perm
      obtain ⟨start, state, log, final, last, defined, filled, same, _, told⟩ :=
        assemble_follows assembled
      obtain ⟨unused, childless⟩ := addDefinitions_members defined
      obtain ⟨fate, noted, accounts, reported⟩ := filled.accounts built unused childless
      rw [← same] at accounts
      exact ⟨procedures, tree, client, start, state, fate, noted, found, built, perm, rfl, rfl,
        accounts, defined, told.trans reported⟩

/-- A procedure that does not want to be in the client, one with two inputs, and one between them. -/
def mixedProcedures : Table String Procedure :=
  [("admin.users.drop", { kind := .mutation, remark := { wanted := some false } }),
    ("ping", { kind := .query }),
    ("admin.merge", { kind := .mutation, inputs := [⟨0⟩, ⟨0⟩] })]

def mixedTree : Tree :=
  [("admin", .space [
      ("users", .space [
        ("drop", .procedure { kind := .mutation, remark := { wanted := some false } })]),
      ("merge", .procedure { kind := .mutation, inputs := [⟨0⟩, ⟨0⟩] })]),
    ("ping", .procedure { kind := .query })]

def mixedDocument : Document where
  graph := ⟨#[{ kind := .primitive .string }]⟩
  routers := [("app", mixedProcedures)]

theorem mixed_procedures_accounted :
    ∃ generation, generate {} mixedDocument "app" "" = .ok generation ∧
    ∃ root fate noted, Accounts ⟨mixedDocument.graph, {}⟩ mixedProcedures root fate noted ∧
      fate "admin.users.drop" = .excluded ∧ (∃ method, fate "ping" = .offered method) ∧
      fate "admin.merge" = .failed .multipleInputs := by
  obtain ⟨generation, generated⟩ :
      ∃ generation, generate {} mixedDocument "app" "" = .ok generation := by
    have built : Tree.ofProcedures mixedProcedures = .ok mixedTree := rfl
    obtain ⟨client, assembled⟩ :
        ∃ client, assemble {} mixedDocument.graph "app" mixedTree [] = .ok client := by
      refine assemble_total "app" [] ?_
      intro leaf listed included few id mentioned
      simp [mixedTree, Tree.leaves, Entry.leaves, Leaf.under] at listed
      rcases listed with rfl | rfl | rfl
      · simp at mentioned
      · simp at few
      · simp at mentioned
    have drawn : ofDocument {} mixedDocument "app" = .ok client := by
      have found : mixedDocument.router "app" = .ok mixedProcedures := rfl
      simp only [ofDocument, found, built, Except.mapError, bind, Except.bind]
      exact assembled
    exact ⟨client.generation {} "", by simp only [generate, drawn, Except.map]⟩
  obtain ⟨procedures, _, _, _, _, fate, noted, found, _, _, _, _, accounts, _⟩ :=
    procedures_accounted generated
  cases found
  refine ⟨generation, generated, _, fate, noted, accounts, ?_, ?_, ?_⟩
  · have justified := accounts.justified "admin.users.drop" _ List.mem_cons_self
    generalize fate "admin.users.drop" = given, noted "admin.users.drop" = reports at justified
    cases justified with
    | excluded => rfl
    | failed _ included | offered _ included => cases included
  · have justified := accounts.justified "ping" _ (List.mem_cons_of_mem _ List.mem_cons_self)
    generalize fate "ping" = given, noted "ping" = reports at justified
    cases justified with
    | excluded left => cases left
    | failed _ _ run => cases run
    | offered => exact ⟨_, rfl⟩
  · have justified := accounts.justified "admin.merge" _
      (List.mem_cons_of_mem _ (List.mem_cons_of_mem _ List.mem_cons_self))
    generalize fate "admin.merge" = given, noted "admin.merge" = reports at justified
    cases justified with
    | excluded left => cases left
    | failed _ _ run =>
        cases run
        rfl
    | offered _ _ run => cases run

end RouterClient.Client
