import RouterClient.Typing.Wrapper
import Mathlib.Data.Finset.Card
import Mathlib.Data.Finset.Image
import Mathlib.Logic.Relation

/-! # Passages

Wrappers and collections are typed around one other node.  Where none of them contains itself through
others, a passage through them visits no node twice, so that a chain of wrappers always ends.
-/

namespace RouterClient.Schema

/-- Whether a node of the kind is typed around one other node. -/
def Kind.isPassage : Kind → Bool
  | optional _ | nullable _ | transform _ | collection _ _ => true
  | _ => false

namespace Graph

variable {graph : Graph} {id inner : NodeId} {path : List NodeId}

theorem kind_of_size_le (outside : graph.size ≤ id.index) : graph.kind id = .empty := by
  have absent : graph.nodes[id.index]? = none := Array.getElem?_eq_none outside
  rw [kind, node, Array.getD_eq_getD_getElem?, absent]
  rfl

/-- What holds of every node that is written in a graph, and of the empty node, holds of all nodes. -/
theorem forall_node {P : Schema.Node → Prop} (written : ∀ node ∈ graph.nodes, P node)
    (blank : P default) (id : NodeId) : P (graph.node id) := by
  rw [node, Array.getD_eq_getD_getElem?]
  cases found : graph.nodes[id.index]? with
  | none => exact blank
  | some node => exact written node (Array.mem_of_getElem? found)

/-- The nodes that are declared under names of their own. -/
def nominals (graph : Graph) : Finset NodeId :=
  ((Finset.range graph.size).image NodeId.mk).filter fun id => (graph.kind id).isNominal

theorem mem_nominals : id ∈ graph.nominals ↔ (graph.kind id).isNominal = true := by
  simp only [nominals, Finset.mem_filter, Finset.mem_image, Finset.mem_range, and_iff_right_iff_imp]
  intro nominal
  refine ⟨id.index, Nat.lt_of_not_le fun outside => ?_, rfl⟩
  simp [kind_of_size_le outside, Kind.isNominal] at nominal

/-- A wrapper or a collection and the node in it. -/
def Leads (graph : Graph) (id inner : NodeId) : Prop :=
  (graph.kind id).isPassage = true ∧ inner ∈ (graph.kind id).children

/-- Wrappers and collections from a node on, each of them in the one before it. -/
inductive Passage (graph : Graph) : NodeId → List NodeId → Prop where
  | stop (id : NodeId) : Passage graph id []
  | step {id inner : NodeId} {path : List NodeId} :
      graph.Leads id inner → Passage graph inner path → Passage graph id (id :: path)

/-- No wrapper or collection contains itself through others. -/
def Founded (graph : Graph) : Prop :=
  ∀ id, ¬ Relation.TransGen graph.Leads id id

theorem Leads.index_lt (leads : graph.Leads id inner) : id.index < graph.size := by
  apply Nat.lt_of_not_le
  intro outside
  simp [Leads, kind_of_size_le outside, Kind.isPassage] at leads

namespace Passage

theorem reaches (passage : graph.Passage id path) {later : NodeId} (passed : later ∈ path) :
    Relation.ReflTransGen graph.Leads id later := by
  induction passage with
  | stop => cases passed
  | step leads _ ih =>
      rcases List.mem_cons.mp passed with rfl | passed
      · exact .refl
      · exact .head leads (ih passed)

theorem nodup (founded : graph.Founded) (passage : graph.Passage id path) : path.Nodup := by
  induction passage with
  | stop => exact List.nodup_nil
  | step leads passage ih =>
      refine List.nodup_cons.mpr ⟨fun again => ?_, ih⟩
      exact founded _ (.head' leads (passage.reaches again))

theorem index_lt (passage : graph.Passage id path) {later : NodeId} (passed : later ∈ path) :
    later.index < graph.size := by
  induction passage with
  | stop => cases passed
  | step leads _ ih =>
      rcases List.mem_cons.mp passed with rfl | passed
      · exact leads.index_lt
      · exact ih passed

/-- A passage that visits no node twice has no more nodes than the graph. -/
theorem length_le_size_of_nodup (passage : graph.Passage id path) (nodup : path.Nodup) :
    path.length ≤ graph.size := by
  have within : path.toFinset ⊆ (Finset.range graph.size).image NodeId.mk := by
    intro later passed
    have bound := passage.index_lt (List.mem_toFinset.mp passed)
    exact Finset.mem_image.mpr ⟨later.index, Finset.mem_range.mpr bound, rfl⟩
  calc path.length
    _ = path.toFinset.card := (List.toFinset_card_of_nodup nodup).symm
    _ ≤ ((Finset.range graph.size).image NodeId.mk).card := Finset.card_le_card within
    _ ≤ (Finset.range graph.size).card := Finset.card_image_le
    _ = graph.size := Finset.card_range _

theorem length_le_size (founded : graph.Founded) (passage : graph.Passage id path) :
    path.length ≤ graph.size :=
  passage.length_le_size_of_nodup (passage.nodup founded)

/-- A passage has no more nodes than its first node ranks, if every node ranks above the one in it. -/
theorem length_le_rank {rank : NodeId → Nat}
    (drops : ∀ id inner, graph.Leads id inner → rank inner < rank id)
    (passage : graph.Passage id path) : path.length ≤ rank id := by
  induction passage with
  | stop => exact Nat.zero_le _
  | step leads _ ih =>
      have above := drops _ _ leads
      rw [List.length_cons]
      omega

end Passage

theorem founded_of_rank {rank : NodeId → Nat}
    (drops : ∀ id inner, graph.Leads id inner → rank inner < rank id) : graph.Founded := by
  have below {id later : NodeId} (leads : Relation.TransGen graph.Leads id later) :
      rank later < rank id := by
    induction leads with
    | single leads => exact drops _ _ leads
    | tail _ leads ih => exact (drops _ _ leads).trans ih
  intro id again
  exact Nat.lt_irrefl _ (below again)

end Graph

end RouterClient.Schema

namespace RouterClient.Typing

open Schema (Graph NodeId Kind)

variable {graph : Graph} {id inner base : NodeId} {declared above : Option NodeId} {steps : Nat}
  {path : List NodeId}

theorem leads_of_wrapped? (wrapped : wrapped? (graph.kind id) = some inner) :
    graph.Leads id inner := by
  unfold Graph.Leads
  cases kind : graph.kind id <;> simp_all [wrapped?, Kind.isPassage, Kind.children]

theorem unwrap?_bare (bare : wrapped? (graph.kind id) = none) :
    unwrap? graph steps id declared = some (id, declared) := by
  cases steps <;> simp [unwrap?, bare]

/-- A passage through some wrappers goes on where one from under them goes. -/
theorem exists_passage_of_unwrap?
    (unwrapped : unwrap? graph steps id declared = some (base, above))
    (passage : graph.Passage base path) :
    ∃ longer, graph.Passage id longer ∧ path.length ≤ longer.length := by
  induction steps generalizing id declared with
  | zero =>
      cases wrapped : wrapped? (graph.kind id) with
      | some inner => simp [unwrap?, wrapped] at unwrapped
      | none =>
          rw [unwrap?_bare wrapped] at unwrapped
          cases unwrapped
          exact ⟨path, passage, Nat.le_refl _⟩
  | succ steps ih =>
      cases wrapped : wrapped? (graph.kind id) with
      | some inner =>
          obtain ⟨longer, found, longest⟩ := ih (by simpa [unwrap?, wrapped] using unwrapped)
          refine ⟨id :: longer, .step (leads_of_wrapped? wrapped) found, ?_⟩
          rw [List.length_cons]
          omega
      | none =>
          rw [unwrap?_bare wrapped] at unwrapped
          cases unwrapped
          exact ⟨path, passage, Nat.le_refl _⟩

theorem exists_longer_passage (wrapped : wrapped? (graph.kind id) = some inner)
    (unwrapped : unwrap? graph steps id declared = some (base, above))
    (passage : graph.Passage base path) :
    ∃ longer, graph.Passage id longer ∧ path.length < longer.length := by
  cases steps with
  | zero => simp [unwrap?, wrapped] at unwrapped
  | succ steps =>
      simp only [unwrap?, wrapped] at unwrapped
      obtain ⟨longer, found, longest⟩ := exists_passage_of_unwrap? unwrapped passage
      refine ⟨id :: longer, .step (leads_of_wrapped? wrapped) found, ?_⟩
      rw [List.length_cons]
      omega

theorem exists_passage_of_endless (endless : unwrap? graph steps id declared = none) :
    ∃ path, graph.Passage id path ∧ path.length = steps + 1 := by
  induction steps generalizing id declared with
  | zero =>
      cases wrapped : wrapped? (graph.kind id) with
      | some inner => exact ⟨[id], .step (leads_of_wrapped? wrapped) (.stop inner), rfl⟩
      | none => simp [unwrap?_bare wrapped] at endless
  | succ steps ih =>
      cases wrapped : wrapped? (graph.kind id) with
      | some inner =>
          obtain ⟨path, passage, length⟩ := ih (by simpa [unwrap?, wrapped] using endless)
          exact ⟨id :: path, .step (leads_of_wrapped? wrapped) passage, by simp [length]⟩
      | none => simp [unwrap?_bare wrapped] at endless

/-- A chain of wrappers ends within the size of the graph. -/
theorem unwrap?_ne_none (founded : graph.Founded) (id : NodeId) (declared : Option NodeId) :
    unwrap? graph graph.size id declared ≠ none := by
  intro endless
  obtain ⟨path, passage, length⟩ := exists_passage_of_endless endless
  have bounded := passage.length_le_size founded
  omega

end RouterClient.Typing
