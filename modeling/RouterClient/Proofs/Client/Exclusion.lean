import Mathlib
import RouterClient.Client.Assembly

/-! # Excluded procedures

Names, global models and the scope of a class are shared by all procedures of a router, so whatever a
procedure does may show in the types of the others.  A procedure that is excluded does nothing: a run goes
the same way through the tree and through what is left of the tree without it.
-/

namespace RouterClient.Client

open Route (Entry Procedure)
open Schema (Graph NodeId)

/-- What is left of some entries without the procedures that are excluded, at any depth.  Every namespace
stays, be it empty. -/
def includedPart (settings : Settings) : List (String × Entry) → List (String × Entry)
  | [] => []
  | (key, .procedure procedure) :: more =>
    if isIncluded settings procedure then
      (key, .procedure procedure) :: includedPart settings more
    else includedPart settings more
  | (key, .space entries) :: more =>
    (key, .space (includedPart settings entries)) :: includedPart settings more

section

variable {setting : Setting}

/-- An excluded procedure leaves its class and the run as they are. -/
theorem addProcedure_excluded {procedure : Procedure}
    (excluded : isIncluded setting.settings procedure = false) (place : Place) (draft : ClassDraft)
    (key : String) : addProcedure setting place draft key procedure = pure draft := by
  unfold addProcedure
  simp [excluded]

/-- A run over some entries is a run over what is left of them, wherever it stands. -/
theorem addEntries_includedPart (setting : Setting) (place : Place) (draft : ClassDraft)
    (entries : List (String × Entry)) :
    addEntries setting place draft (includedPart setting.settings entries) =
      addEntries setting place draft entries := by
  induction place, draft, entries using addEntries.induct with
  | case1 place draft => rw [includedPart]
  | case2 place draft key procedure more ih =>
      cases included : isIncluded setting.settings procedure with
      | true => simp only [includedPart, included, if_true, addEntries, ih]
      | false =>
          simp only [includedPart, included, Bool.false_eq_true, if_false, addEntries,
            addProcedure_excluded included, pure_bind]
          exact ih draft
  | case3 place draft key entries more below ih =>
      simp only [includedPart, addEntries, below, ih]

theorem assembleRoot_includedPart (setting : Setting) (router : String) (tree : Route.Tree)
    (definitions : Table String NodeId) :
    assembleRoot setting router (includedPart setting.settings tree) definitions =
      assembleRoot setting router tree definitions := by
  simp only [assembleRoot, addEntries_includedPart]

end

/-- Excluded procedures cannot influence a client.  Where two trees differ in nothing but them, the runs
come to the same classes, global models, aliases and reports, or end with the same failure. -/
theorem excluded_without_influence {settings : Settings} {tree other : Route.Tree}
    (same : includedPart settings tree = includedPart settings other) (graph : Graph)
    (router : String) (definitions : Table String NodeId) :
    assemble settings graph router tree definitions =
      assemble settings graph router other definitions := by
  have roots : assembleRoot ⟨graph, settings⟩ router tree definitions =
      assembleRoot ⟨graph, settings⟩ router other definitions := by
    calc assembleRoot ⟨graph, settings⟩ router tree definitions
        = assembleRoot ⟨graph, settings⟩ router (includedPart settings tree) definitions :=
          (assembleRoot_includedPart ⟨graph, settings⟩ router tree definitions).symm
      _ = assembleRoot ⟨graph, settings⟩ router (includedPart settings other) definitions := by
          rw [same]
      _ = assembleRoot ⟨graph, settings⟩ router other definitions :=
          assembleRoot_includedPart ⟨graph, settings⟩ router other definitions
  simp only [assemble, roots]

/-- A string, and a schema that no type stands for. -/
def guardedGraph : Graph where
  nodes := #[{ kind := .primitive .string }, { kind := .unsupported "function" }]

/-- A namespace and a root with procedures that are not wanted: one cannot be typed, one has two
inputs. -/
def guardedTree : Route.Tree :=
  [("users", .space [
      ("drop", .procedure
        { kind := .mutation, inputs := [⟨1⟩], remark := { wanted := some false } }),
      ("list", .procedure { kind := .query, output := some ⟨0⟩ })]),
    ("merge", .procedure
      { kind := .query, inputs := [⟨0⟩, ⟨1⟩], remark := { wanted := some false } })]

/-- The same namespace with one unwanted procedure that is another. -/
def guardedTwin : Route.Tree :=
  [("users", .space [
      ("list", .procedure { kind := .query, output := some ⟨0⟩ }),
      ("drop", .procedure { kind := .subscription, remark := { wanted := some false } })])]

theorem guardedTree_without_influence :
    includedPart {} guardedTree = includedPart {} guardedTwin ∧
      ∃ client, assemble {} guardedGraph "app" guardedTree [] = .ok client ∧
        assemble {} guardedGraph "app" guardedTwin [] = .ok client := by
  have same : includedPart {} guardedTree = includedPart {} guardedTwin := by
    simp [guardedTree, guardedTwin, includedPart, isIncluded]
  have assembled : ∃ client, assemble {} guardedGraph "app" guardedTwin [] = .ok client := by
    simp only [assemble, assembleRoot, guardedTwin, addEntries]
    exact ⟨_, rfl⟩
  obtain ⟨client, assembled⟩ := assembled
  exact ⟨same, client,
    (excluded_without_influence same guardedGraph "app" []).trans assembled, assembled⟩

end RouterClient.Client
