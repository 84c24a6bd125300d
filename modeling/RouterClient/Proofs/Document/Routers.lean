import RouterClient.Proofs.Document.Definitions

/-! # The nodes of procedures

Lowering goes through the routers and their procedures one after the other, so the stretches of the
procedures follow each other, and what is known of a procedure stays known while the graph grows.
-/

namespace RouterClient

open Schema (NodeId Graph)

/-- The schemas of a procedure: its one input, its listed inputs, its output. -/
def Written.Procedure.parts (procedure : Written.Procedure) : List Written.Schema :=
  procedure.input.toList ++ procedure.inputs ++ procedure.output.toList

/-- The nodes of a procedure's schemas. -/
def Route.Procedure.nodes (procedure : Route.Procedure) : List NodeId :=
  procedure.inputs ++ procedure.output.toList

/-- A procedure is the written one, apart from what its schemas are. -/
structure Route.Procedure.Agrees (written : Written.Procedure) (procedure : Route.Procedure) : Prop where
  kind : procedure.kind = written.kind
  remark : procedure.remark = written.remark
  inputs : procedure.inputs.length = written.input.toList.length + written.inputs.length
  output : procedure.output.isSome = written.output.isSome

namespace Lowering

/-- Entries each of which takes the stretch after that of the entry before it. -/
inductive Chained {ν μ : Type} (step : ν → Nat → μ → Nat → Prop) :
    Table String ν → Nat → Table String μ → Nat → Prop where
  | nil {low} : Chained step [] low [] low
  | cons {key value more low result middle others high} :
      step value low result middle → Chained step more middle others high →
      Chained step ((key, value) :: more) low ((key, result) :: others) high

/-- What a relation between things and stretches needs to stay true while a graph grows. -/
structure Stable {ν μ : Type} (step : Graph → ν → Nat → μ → Nat → Prop) : Prop where
  le : ∀ {graph value low result high}, step graph value low result high → low ≤ high
  keeps : ∀ {graph grown value low result high}, Extends graph grown → high ≤ graph.size →
    step graph value low result high → step grown value low result high

section

variable {ν μ : Type} {table : Table String ν} {results : Table String μ} {low high : Nat}

theorem Chained.paired {step : ν → Nat → μ → Nat → Prop} (chained : Chained step table low results high) :
    Table.Paired (fun _ value result => ∃ low high, step value low result high) table results := by
  induction chained with
  | nil => exact .nil
  | cons first _ ih => exact .cons ⟨rfl, _, _, first⟩ ih

/-- The stretches of the entries make up one stretch. -/
theorem Chained.enumerates {π : Type} {node? : π → Option NodeId} {stands : String → ν → π → Prop}
    {step : ν → Nat → μ → Nat → Prop} (chained : Chained step table low results high)
    (each : ∀ {key value result low high}, (key, value) ∈ table → (key, result) ∈ results →
      step value low result high → Enumerates (stands key value) node? low high) :
    Enumerates (fun place => ∃ key value, (key, value) ∈ table ∧ stands key value place)
      node? low high := by
  induction chained with
  | nil => exact .empty (by simp)
  | cons first _ ih =>
      have own := each (List.mem_cons_self ..) (List.mem_cons_self ..) first
      have others := ih fun member member' =>
        each (List.mem_cons_of_mem _ member) (List.mem_cons_of_mem _ member')
      refine (own.append others).congr ?_
      intro place
      constructor
      · rintro (here | ⟨key, value, member, stood⟩)
        · exact ⟨_, _, List.mem_cons_self .., here⟩
        · exact ⟨key, value, List.mem_cons_of_mem _ member, stood⟩
      · rintro ⟨key, value, member, stood⟩
        cases member with
        | head => exact .inl stood
        | tail _ member => exact .inr ⟨key, value, member, stood⟩

namespace Stable

variable {step : Graph → ν → Nat → μ → Nat → Prop}

theorem chained_le {graph : Graph} (stable : Stable step)
    (chained : Chained (step graph) table low results high) : low ≤ high := by
  induction chained with
  | nil => exact Nat.le_refl _
  | cons first _ ih => exact (stable.le first).trans ih

/-- A result has a stretch that ends before all of them do. -/
theorem of_mem {graph : Graph} (stable : Stable step)
    (chained : Chained (step graph) table low results high) {key : String} {result : μ}
    (member : (key, result) ∈ results) :
    ∃ value start stop, step graph value start result stop ∧ stop ≤ high := by
  induction chained with
  | nil => cases member
  | cons first rest ih =>
      cases member with
      | head => exact ⟨_, _, _, first, stable.chained_le rest⟩
      | tail _ member => exact ih member

theorem chained (stable : Stable step) :
    Stable fun graph (table : Table String ν) low (results : Table String μ) high =>
      Chained (step graph) table low results high where
  le := stable.chained_le
  keeps extends' within chained := by
    induction chained with
    | nil => exact .nil
    | cons first rest ih =>
        have after := stable.chained_le rest
        exact .cons (stable.keeps extends' (after.trans within) first) (ih within)

/-- Lowering the entries of a table chains what lowering one of them does. -/
theorem mapM_ok (stable : Stable step) (lower : String → ν → LowerM μ) {graph grown : Graph}
    (each : ∀ {key value graph result grown}, lower key value graph = .ok (result, grown) →
      Extends graph grown ∧ step grown value graph.size result grown.size)
    (run : table.mapM (fun entry => lower entry.1 entry.2 >>= fun result => pure (entry.1, result))
      graph = .ok (results, grown)) :
    Extends graph grown ∧ Chained (step grown) table graph.size results grown.size := by
  induction table generalizing graph results with
  | nil =>
      cases run
      exact ⟨.refl _, .nil⟩
  | cons entry more ih =>
      obtain ⟨key, value⟩ := entry
      rw [List.mapM_cons] at run
      obtain ⟨_, next, made, later⟩ := lower_bind_ok run
      obtain ⟨others, last, rest, ended⟩ := lower_bind_ok later
      cases ended
      obtain ⟨result, _, lowered, named⟩ := lower_bind_ok made
      cases named
      obtain ⟨grows, own⟩ := each lowered
      obtain ⟨grows', chained⟩ := ih rest
      exact ⟨grows.trans grows', .cons (stable.keeps grows' (Nat.le_refl _) own) chained⟩

end Stable

end

/-- A procedure whose schemas in place are laid out over the positions from one to another. -/
structure ProcedureLaid (definitions : Table String NodeId) (graph : Graph)
    (written : Written.Procedure) (low : Nat) (procedure : Route.Procedure) (high : Nat) : Prop where
  agrees : Route.Procedure.Agrees written procedure
  laid : Laid definitions graph written.parts low procedure.nodes high

/-- A router whose procedures are laid out. -/
def RouterLaid (definitions : Table String NodeId) (graph : Graph) (written : Written.Router)
    (low : Nat) (procedures : Table String Route.Procedure) (high : Nat) : Prop :=
  Chained (ProcedureLaid definitions graph) written.procedures low procedures high

theorem stable_procedure (definitions : Table String NodeId) : Stable (ProcedureLaid definitions) where
  le := fun laid => laid.laid.le
  keeps := fun grows within laid =>
    ⟨laid.agrees, laid.laid.congr fun n _ inside => grows.node n (inside.trans_le within)⟩

theorem stable_router (definitions : Table String NodeId) : Stable (RouterLaid definitions) where
  le := (stable_procedure definitions).chained_le
  keeps := (stable_procedure definitions).chained.keeps

section

variable {setting : Setting} {here : Json.Path} {graph grown : Graph}

theorem procedure_ok {written : Written.Procedure} {found : Route.Procedure}
    (run : procedure setting here written graph = .ok (found, grown)) :
    Extends graph grown ∧
      ProcedureLaid setting.definitions grown written graph.size found grown.size := by
  obtain ⟨input, _, first, later⟩ := lower_bind_ok run
  obtain ⟨inputs, _, second, later'⟩ := lower_bind_ok later
  obtain ⟨output, _, third, ended⟩ := lower_bind_ok later'
  cases ended
  obtain ⟨lays, one⟩ := schema?_ok first
  have lays' := schemas_ok second
  obtain ⟨lays'', outcome⟩ := schema?_ok third
  have all := (lays.append lays').append lays''
  refine ⟨all.grows, ⟨rfl, rfl, ?_, outcome⟩, all.laid⟩
  rw [List.length_append, lays.laid.length_eq, lays'.laid.length_eq]

theorem routers_ok {written : Table String Written.Router}
    {found : Table String (Table String Route.Procedure)}
    (run : routers setting written graph = .ok (found, grown)) :
    Extends graph grown ∧
      Chained (RouterLaid setting.definitions grown) written graph.size found grown.size := by
  refine (stable_router setting.definitions).mapM_ok (fun name (router : Written.Router) =>
    router.procedures.mapM fun (entry : String × Written.Procedure) => procedure setting
      [.key "routers", .key name, .key "procedures", .key entry.1] entry.2 >>= fun found =>
        pure (entry.1, found)) ?_ run
  intro name router graph procedures grown run
  exact (stable_procedure setting.definitions).mapM_ok (fun path =>
    procedure setting [.key "routers", .key name, .key "procedures", .key path]) procedure_ok run

end

end Lowering

end RouterClient
