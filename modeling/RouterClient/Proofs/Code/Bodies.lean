import RouterClient.Code.RouteClass

/-! # Bodies

A body is what stands directly in a declaration or a route class: members with their types, and
the models nested beside them.  Swift looks a name up in the innermost body first, so a nested model
takes the mentions of its name in the members away from any model or primitive type further out.
-/

namespace RouterClient.Code

open Model (LocalModel LocalModels)
open Schema (NodeId)

/-- The types of the members of a declaration, and the models nested beside them. -/
structure Body where
  types : List TypeExpr := []
  models : LocalModels Declaration := []

/-- The node whose model a type comes down to, if it comes down to a model. -/
def TypeExpr.owner? (type : TypeExpr) : Option NodeId :=
  match type.base with
  | .model owner _ _ => some owner
  | _ => none

namespace Declaration

def types : Declaration → List TypeExpr
  | record _ properties _ => properties.map Property.type
  | choice _ alternatives _ _ => alternatives.map Alternative.payload
  | enumeration _ _ => []

def body (declaration : Declaration) : Body :=
  ⟨declaration.types, declaration.models⟩

mutual

/-- The bodies of a declaration and of all models nested in it, at any depth. -/
def bodies : Declaration → List Body
  | record heading properties models =>
    (record heading properties models).body :: modelBodies models
  | choice heading alternatives attempts models =>
    (choice heading alternatives attempts models).body :: modelBodies models
  | enumeration heading cases => [(enumeration heading cases).body]

def modelBodies : List (LocalModel Declaration) → List Body
  | [] => []
  | ⟨_, _, definition⟩ :: more => definition.bodies ++ modelBodies more

end

theorem mem_modelBodies {models : LocalModels Declaration} {body : Body} :
    body ∈ modelBodies models ↔ ∃ model ∈ models, body ∈ model.definition.bodies := by
  induction models with
  | nil => simp [modelBodies]
  | cons model more ih =>
      rw [modelBodies, List.mem_append, ih]
      simp only [List.mem_cons, exists_eq_or_imp]

theorem mem_bodies {declaration : Declaration} {body : Body} :
    body ∈ declaration.bodies ↔
      body = declaration.body ∨ ∃ model ∈ declaration.models, body ∈ model.definition.bodies := by
  cases declaration with
  | record heading properties models =>
      rw [bodies, List.mem_cons, mem_modelBodies]
      rfl
  | choice heading alternatives attempts models =>
      rw [bodies, List.mem_cons, mem_modelBodies]
      rfl
  | enumeration heading cases => simp [bodies, models]

/-- What holds of a declaration's own body and of all bodies nested in it. -/
theorem forall_bodies {declaration : Declaration} {P : Body → Prop} :
    (∀ body ∈ declaration.bodies, P body) ↔
      P declaration.body ∧
        ∀ model ∈ declaration.models, ∀ body ∈ model.definition.bodies, P body := by
  constructor
  · intro all
    refine ⟨all _ (mem_bodies.mpr (.inl rfl)), ?_⟩
    intro model member body inside
    exact all body (mem_bodies.mpr (.inr ⟨model, member, inside⟩))
  · rintro ⟨own, nested⟩ body inside
    rcases mem_bodies.mp inside with rfl | ⟨model, member, inside⟩
    · exact own
    · exact nested model member body inside

mutual

/-- The models nested in a declaration, at any depth. -/
def nested : Declaration → LocalModels Declaration
  | record _ _ models => nestedIn models
  | choice _ _ _ models => nestedIn models
  | enumeration _ _ => []

def nestedIn : List (LocalModel Declaration) → LocalModels Declaration
  | [] => []
  | ⟨owner, name, definition⟩ :: more =>
    ⟨owner, name, definition⟩ :: (definition.nested ++ nestedIn more)

end

end Declaration

/-- A model and the models nested in it, at any depth. -/
def family (model : LocalModel Declaration) : LocalModels Declaration :=
  model :: model.definition.nested

theorem Declaration.mem_nestedIn {models : LocalModels Declaration}
    {model : LocalModel Declaration} :
    model ∈ nestedIn models ↔ ∃ own ∈ models, model ∈ family own := by
  induction models with
  | nil => simp [nestedIn]
  | cons own more ih =>
      rw [nestedIn, List.mem_cons, List.mem_append, ih]
      simp only [family, List.mem_cons, exists_eq_or_imp, or_assoc]

theorem Declaration.mem_nested {declaration : Declaration} {model : LocalModel Declaration} :
    model ∈ declaration.nested ↔ ∃ own ∈ declaration.models, model ∈ family own := by
  cases declaration with
  | record | choice => exact mem_nestedIn
  | enumeration => simp [nested, models]

/-- What holds of a model and of all models nested in it. -/
theorem forall_family {model : LocalModel Declaration} {P : LocalModel Declaration → Prop} :
    (∀ other ∈ family model, P other) ↔
      P model ∧ ∀ own ∈ model.definition.models, ∀ other ∈ family own, P other := by
  constructor
  · intro all
    refine ⟨all model List.mem_cons_self, fun own nested other inside => all other ?_⟩
    exact List.mem_cons_of_mem _ (Declaration.mem_nested.mpr ⟨own, nested, inside⟩)
  · rintro ⟨first, later⟩ other inside
    rcases List.mem_cons.mp inside with rfl | inside
    · exact first
    · obtain ⟨own, nested, inside⟩ := Declaration.mem_nested.mp inside
      exact later own nested other inside

def Method.types (method : Method) : List TypeExpr :=
  method.input.toList ++ method.output.toList

namespace RouteClass

def body (routeClass : RouteClass) : Body :=
  ⟨routeClass.methods.flatMap Method.types, routeClass.models⟩

mutual

/-- The bodies of a route class, of the models nested in it and of the classes below it. -/
def bodies : RouteClass → List Body
  | ⟨name, segment, models, methods, children⟩ =>
    body ⟨name, segment, models, methods, children⟩ ::
      (Declaration.modelBodies models ++ childBodies children)

def childBodies : List RouteClass → List Body
  | [] => []
  | child :: more => child.bodies ++ childBodies more

end

theorem mem_childBodies {children : List RouteClass} {body : Body} :
    body ∈ childBodies children ↔ ∃ child ∈ children, body ∈ child.bodies := by
  induction children with
  | nil => simp [childBodies]
  | cons child more ih =>
      rw [childBodies, List.mem_append, ih]
      simp only [List.mem_cons, exists_eq_or_imp]

end RouteClass

namespace Body

/-- A nested model that is called like what a member mentions is what the member mentions. -/
def Hygienic (body : Body) : Prop :=
  ∀ type ∈ body.types, ∀ model ∈ body.models,
    model.name = type.base.text → type.owner? = some model.owner

instance (body : Body) : Decidable body.Hygienic :=
  inferInstanceAs (Decidable (∀ type ∈ body.types, ∀ model ∈ body.models,
    model.name = type.base.text → type.owner? = some model.owner))

/-- A type that comes down to no model nested here. -/
def Foreign (body : Body) (type : TypeExpr) : Prop :=
  ∀ model ∈ body.models, type.owner? ≠ some model.owner

/-- No nested model is called like what a member takes from outside. -/
def Clear (body : Body) : Prop :=
  ∀ type ∈ body.types, body.Foreign type → ∀ model ∈ body.models, model.name ≠ type.base.text

/-- The names in a body go together: no two nested models share a node or a name, each is declared
under its name, and a member that mentions a nested model's node does so by the model's name. -/
structure Coherent (body : Body) : Prop where
  owners : (body.models.map LocalModel.owner).Nodup
  names : (body.models.map LocalModel.name).Nodup
  titled : ∀ model ∈ body.models, model.definition.heading.name = model.name
  own : ∀ type ∈ body.types, ∀ model ∈ body.models,
    type.owner? = some model.owner → type.base.text = model.name

theorem Coherent.eq_of_name {body : Body} (coherent : body.Coherent)
    {model other : LocalModel Declaration} (nested : model ∈ body.models)
    (beside : other ∈ body.models) (same : model.name = other.name) : model = other := by
  have apart := List.pairwise_map.mp coherent.names
  exact apart.imp (fun differ same => absurd same differ)
    |>.forall_of_forall_of_flip (R := fun a b => a.name = b.name → a = b) (fun _ _ _ => rfl)
      (apart.imp fun differ same => absurd same.symm differ) nested beside same

/-- Only the name of a type from outside can be taken away. -/
theorem Coherent.hygienic_iff {body : Body} (coherent : body.Coherent) :
    body.Hygienic ↔ body.Clear := by
  constructor
  · intro hygienic type mentioned foreign model nested same
    exact foreign model nested (hygienic type mentioned model nested same)
  · intro clear type mentioned model nested same
    by_cases foreign : body.Foreign type
    · exact absurd same (clear type mentioned foreign model nested)
    · simp only [Foreign, Classical.not_forall, ne_eq, Classical.not_not] at foreign
      obtain ⟨other, beside, owned⟩ := foreign
      have named := coherent.own type mentioned other beside owned
      rw [coherent.eq_of_name nested beside (same.trans named)]
      exact owned

end Body

end RouterClient.Code
