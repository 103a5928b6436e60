import Mathlib.Data.List.Perm.Basic
import Mathlib.Data.List.Nodup

/-!
# `ACoral.Lib.EdgeList`: a graph as one flat list of edges

Each node of a graph has a key and lists the keys of its predecessors. The
same graph is one list of edges, source first, over all nodes. `sources` reads
the predecessors of one key back from such a list. When the keys are distinct
it gives back what the node listed, whatever the order of the edges.
-/

set_option autoImplicit false

namespace ACoral.Lib

variable {S K N : Type}

/-- The edges into one node. -/
def edgesInto (key : N → K) (preds : N → List S) (n : N) : List (S × K) :=
  (preds n).map fun p => (p, key n)

/-- The edges into every node. -/
def edges (key : N → K) (preds : N → List S) (nodes : List N) : List (S × K) :=
  nodes.flatMap (edgesInto key preds)

variable [DecidableEq K]

/-- The sources of the edges that end in `k`. -/
def sources (es : List (S × K)) (k : K) : List S :=
  (es.filter fun e => e.2 = k).map Prod.fst

theorem sources_append (es es' : List (S × K)) (k : K) :
    sources (es ++ es') k = sources es k ++ sources es' k := by
  show ((es ++ es').filter _).map _ = _
  rw [List.filter_append, List.map_append]
  rfl

theorem sources_perm {es es' : List (S × K)} (h : es.Perm es') (k : K) :
    (sources es k).Perm (sources es' k) :=
  (h.filter _).map _

/-- Another name for every source. -/
theorem sources_map {S' : Type} (f : S → S') (es : List (S × K)) (k : K) :
    sources (es.map fun e => (f e.1, e.2)) k = (sources es k).map f := by
  show ((es.map _).filter _).map _ = ((es.filter _).map _).map _
  rw [List.filter_map, List.map_map, List.map_map]
  rfl

theorem sources_edgesInto_self (key : N → K) (preds : N → List S) (n : N) :
    sources (edgesInto key preds n) (key n) = preds n := by
  show (((preds n).map fun p => (p, key n)).filter fun e => e.2 = key n).map Prod.fst = preds n
  rw [List.filter_eq_self.mpr]
  · rw [List.map_map]
    exact List.map_id _
  · intro e he
    obtain ⟨p, _, rfl⟩ := List.mem_map.mp he
    exact decide_eq_true rfl

theorem sources_edgesInto_ne {key : N → K} (preds : N → List S) {n : N} {k : K} (h : key n ≠ k) :
    sources (edgesInto key preds n) k = [] := by
  show (((preds n).map fun p => (p, key n)).filter fun e => e.2 = k).map Prod.fst = []
  rw [List.map_eq_nil_iff, List.filter_eq_nil_iff]
  intro e he
  obtain ⟨p, _, rfl⟩ := List.mem_map.mp he
  simpa using h

theorem sources_edges_not_mem {key : N → K} (preds : N → List S) {nodes : List N} {k : K}
    (h : k ∉ nodes.map key) : sources (edges key preds nodes) k = [] := by
  induction nodes with
  | nil => rfl
  | cons n nodes ih =>
      rw [List.map_cons, List.mem_cons, not_or] at h
      show sources (edgesInto key preds n ++ edges key preds nodes) k = []
      rw [sources_append, sources_edgesInto_ne preds (Ne.symm h.1), ih h.2, List.append_nil]

/-- Distinct keys: the edges into a node are the ones that it listed. -/
theorem sources_edges {key : N → K} (preds : N → List S) {nodes : List N}
    (hnodup : (nodes.map key).Nodup) {n : N} (hn : n ∈ nodes) :
    sources (edges key preds nodes) (key n) = preds n := by
  induction nodes with
  | nil => cases hn
  | cons m nodes ih =>
      rw [List.map_cons, List.nodup_cons] at hnodup
      show sources (edgesInto key preds m ++ edges key preds nodes) (key n) = preds n
      rw [sources_append]
      rcases List.mem_cons.mp hn with rfl | hn
      · rw [sources_edgesInto_self, sources_edges_not_mem preds hnodup.1, List.append_nil]
      · have hne : key m ≠ key n := fun he => hnodup.1 (he ▸ List.mem_map_of_mem hn)
        rw [sources_edgesInto_ne preds hne, ih hnodup.2 hn, List.nil_append]

end ACoral.Lib
