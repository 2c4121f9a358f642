import Mathlib

/-!
# Topological order by counting incoming edges

Nodes are numbered below `n`.  A graph keeps, for each node, the number of its
incoming edges and the list of its successors.  `visit` takes nodes without open
incoming edges from a queue and closes their outgoing edges; a successor whose
last edge is closed joins the queue.

The invariant of the loop says that the counters are the open edges, that the
queue and the visited nodes are exactly the nodes without open edges, and that
every visited node comes after its predecessors.  It gives both directions of
`visitAll_length_iff`: all nodes are visited exactly when the graph has a rank
function, that is, when it has no cycle (`exists_rank_iff`).  `visitAll?` is the
same loop with a subtraction that fails below zero; it never fails.
-/

namespace Batter

open List

variable {visited extra ready : List ℕ} {source target n next fuel : ℕ}

/-- Successor lists together with the number of incoming edges. -/
structure IndexGraph where
  indegree : ℕ → ℕ
  adjacency : ℕ → List ℕ

namespace IndexGraph

/-- The graph without edges. -/
def empty : IndexGraph := ⟨fun _ => 0, fun _ => []⟩

/-- The graph with one more edge. -/
def addEdge (graph : IndexGraph) (source target : ℕ) : IndexGraph :=
  ⟨Function.update graph.indegree target (graph.indegree target + 1),
    Function.update graph.adjacency source (graph.adjacency source ++ [target])⟩

/-- The edges run between nodes below `n`, and the counters count them. -/
structure Counted (graph : IndexGraph) (n : ℕ) : Prop where
  target_lt : ∀ source, ∀ target ∈ graph.adjacency source, target < n
  indegree_eq : ∀ node,
    graph.indegree node = ∑ source ∈ Finset.range n, (graph.adjacency source).count node

theorem counted_empty (n : ℕ) : empty.Counted n where
  target_lt := by
    intro source target h
    exact absurd h not_mem_nil
  indegree_eq := by
    intro node
    simp [empty]

variable {graph : IndexGraph}

theorem mem_addEdge {i j : ℕ} : i ∈ (graph.addEdge source target).adjacency j ↔
      i ∈ graph.adjacency j ∨ (j = source ∧ i = target) := by
  simp only [addEdge, Function.update_apply]
  split_ifs with h
  · subst h
    simp
  · simp [h]

theorem Counted.addEdge (h : graph.Counted n) (hsrc : source < n) (htgt : target < n) :
    (graph.addEdge source target).Counted n where
  target_lt := by
    intro j i hi
    rcases mem_addEdge.mp hi with hi | ⟨_, rfl⟩
    · exact h.target_lt j i hi
    · exact htgt
  indegree_eq := by
    intro node
    have hcount : ∀ j, ((graph.addEdge source target).adjacency j).count node =
        (graph.adjacency j).count node +
          if j = source then (if node = target then 1 else 0) else 0 := by
      intro j
      simp only [IndexGraph.addEdge, Function.update_apply]
      split_ifs with hj hnode
      · subst hj hnode
        simp
      · subst hj
        simp [Ne.symm hnode]
      · rfl
    rw [Finset.sum_congr rfl fun j _ => hcount j, Finset.sum_add_distrib,
      Finset.sum_ite_eq' (Finset.range n) source, if_pos (Finset.mem_range.mpr hsrc),
      ← h.indegree_eq node]
    simp only [IndexGraph.addEdge, Function.update_apply]
    split_ifs with hnode
    · rw [hnode]
    · rfl

/-- A numbering that grows along every edge. -/
def Ranked (graph : IndexGraph) (n : ℕ) : Prop :=
  ∃ rank : ℕ → ℕ, ∀ source < n, ∀ target ∈ graph.adjacency source, rank source < rank target

/-- Open edge counters and the queue of the nodes to visit. -/
structure Frontier where
  indegree : ℕ → ℕ
  ready : List ℕ

/-- Closes one edge into `next`. -/
def Frontier.relax (frontier : Frontier) (next : ℕ) : Frontier :=
  let indegree := Function.update frontier.indegree next (frontier.indegree next - 1)
  ⟨indegree, if indegree next = 0 then frontier.ready ++ [next] else frontier.ready⟩

/-- The nodes visited from a frontier, in order; each visit uses one unit of fuel. -/
def visit (graph : IndexGraph) : ℕ → Frontier → List ℕ
  | 0, _ => []
  | _ + 1, ⟨_, []⟩ => []
  | fuel + 1, ⟨indegree, index :: ready⟩ =>
    index :: graph.visit fuel
      ((graph.adjacency index).foldl .relax ⟨indegree, ready⟩)

/-- The first frontier: every node without incoming edges is ready. -/
def start (graph : IndexGraph) (n : ℕ) : Frontier :=
  ⟨graph.indegree, (List.range n).filter fun index => graph.indegree index = 0⟩

/-- The nodes visited from the start; a node is visited at most once. -/
def visitAll (graph : IndexGraph) (n : ℕ) : List ℕ :=
  graph.visit n (graph.start n)

section Invariant

variable {graph : IndexGraph}

/-- The edges into a node whose sources are not visited yet. -/
def openEdges (graph : IndexGraph) (n : ℕ) (visited : List ℕ) (node : ℕ) : ℕ :=
  ∑ source ∈ (Finset.range n).filter (· ∉ visited), (graph.adjacency source).count node

variable {index : ℕ} {frontier : Frontier} {indegree : ℕ → ℕ}

theorem openEdges_eq_zero {node : ℕ} : graph.openEdges n visited node = 0 ↔
      ∀ source < n, node ∈ graph.adjacency source → source ∈ visited := by
  simp only [openEdges, Finset.sum_eq_zero_iff, Finset.mem_filter, Finset.mem_range,
    count_eq_zero, and_imp]
  refine forall₂_congr fun source _ => ?_
  exact not_imp_not

theorem openEdges_concat (hidx : index < n) (hnew : index ∉ visited) (node : ℕ) :
    graph.openEdges n visited node =
      graph.openEdges n (visited ++ [index]) node + (graph.adjacency index).count node := by
  have hsplit : (Finset.range n).filter (· ∉ visited) =
      insert index ((Finset.range n).filter (· ∉ visited ++ [index])) := by
    ext j
    simp only [Finset.mem_filter, Finset.mem_range, Finset.mem_insert, mem_append,
      mem_singleton, not_or]
    constructor
    · rintro ⟨hj, hvisited⟩
      by_cases h : j = index
      · exact .inl h
      · exact .inr ⟨hj, hvisited, h⟩
    · rintro (rfl | ⟨hj, hvisited, _⟩)
      · exact ⟨hidx, hnew⟩
      · exact ⟨hj, hvisited⟩
  rw [openEdges, hsplit, Finset.sum_insert (by simp), Nat.add_comm]
  rfl

/-- Visited and ready nodes are those without open edges; `extra` edges are about to be closed. -/
structure Open (graph : IndexGraph) (n : ℕ) (visited extra : List ℕ) (frontier : Frontier) :
    Prop where
  nodup : (visited ++ frontier.ready).Nodup
  lt : ∀ i ∈ visited ++ frontier.ready, i < n
  indegree_eq : ∀ i, frontier.indegree i = graph.openEdges n visited i + extra.count i
  ready_iff : ∀ i < n, i ∈ visited ++ frontier.ready ↔ frontier.indegree i = 0

theorem Open.relax (h : Open graph n visited (next :: extra) frontier) (hnext : next < n) :
    Open graph n visited extra (frontier.relax next) := by
  have hcount : frontier.indegree next =
      graph.openEdges n visited next + extra.count next + 1 := by
    rw [h.indegree_eq next, count_cons_self]
    omega
  have hfresh : next ∉ visited ++ frontier.ready := by
    rw [h.ready_iff next hnext]
    omega
  have hindegree : ∀ i, (frontier.relax next).indegree i =
      graph.openEdges n visited i + extra.count i := by
    intro i
    simp only [Frontier.relax, Function.update_apply]
    split_ifs with hi
    · subst hi
      omega
    · rw [h.indegree_eq i, count_cons_of_ne (Ne.symm hi)]
  have hready : ∀ i, i ∈ visited ++ (frontier.relax next).ready ↔
      i ∈ visited ++ frontier.ready ∨ (i = next ∧ (frontier.relax next).indegree next = 0) := by
    intro i
    by_cases hzero : (frontier.relax next).indegree next = 0
    · have heq : (frontier.relax next).ready = frontier.ready ++ [next] := if_pos hzero
      rw [heq, ← append_assoc, mem_append, mem_singleton]
      exact or_congr_right ⟨fun hi => ⟨hi, hzero⟩, And.left⟩
    · have heq : (frontier.relax next).ready = frontier.ready := if_neg hzero
      rw [heq]
      exact ⟨.inl, fun hi => hi.resolve_right fun hi => hzero hi.2⟩
  refine ⟨?_, ?_, hindegree, ?_⟩
  · by_cases hzero : (frontier.relax next).indegree next = 0
    · have heq : (frontier.relax next).ready = frontier.ready ++ [next] := if_pos hzero
      rw [heq, ← append_assoc]
      exact nodup_append.mpr ⟨h.nodup, nodup_singleton _, by
        rintro a ha b hb rfl
        rw [mem_singleton.mp hb] at ha
        exact hfresh ha⟩
    · have heq : (frontier.relax next).ready = frontier.ready := if_neg hzero
      rw [heq]
      exact h.nodup
  · intro i hi
    rcases (hready i).mp hi with hi | ⟨rfl, _⟩
    · exact h.lt i hi
    · exact hnext
  · intro i hi
    rw [hready i]
    by_cases hnode : i = next
    · subst hnode
      exact ⟨fun hi => hi.elim (absurd · hfresh) And.right, fun hzero => .inr ⟨rfl, hzero⟩⟩
    · have hsame : (frontier.relax next).indegree i = frontier.indegree i :=
        Function.update_of_ne hnode _ _
      rw [hsame, ← h.ready_iff i hi]
      exact ⟨fun hi => hi.resolve_right fun hi => hnode hi.1, .inl⟩

theorem Open.foldl (h : Open graph n visited extra frontier) (hextra : ∀ i ∈ extra, i < n) :
    Open graph n visited [] (extra.foldl .relax frontier) := by
  induction extra generalizing frontier with
  | nil =>
    exact h
  | cons next extra ih =>
    refine ih (h.relax (hextra next mem_cons_self)) ?_
    intro i hi
    exact hextra i (mem_cons_of_mem next hi)

/-- Every visited node comes after its predecessors. -/
def Ordered (graph : IndexGraph) (n : ℕ) (visited : List ℕ) : Prop :=
  ∀ before index after, visited = before ++ index :: after →
    ∀ source < n, index ∈ graph.adjacency source → source ∈ before

theorem Ordered.concat (h : Ordered graph n visited) (hopen : graph.openEdges n visited index = 0) :
    Ordered graph n (visited ++ [index]) := by
  intro before i after heq source hsrc hi
  rcases eq_nil_or_concat after with rfl | ⟨after, last, rfl⟩
  · obtain ⟨rfl, hlast⟩ := append_inj' heq rfl
    obtain rfl : index = i := by simpa using hlast
    exact openEdges_eq_zero.mp hopen source hsrc hi
  · rw [concat_eq_append, ← cons_append, ← append_assoc] at heq
    obtain ⟨rfl, _⟩ := append_inj' heq rfl
    exact h before i after rfl source hsrc hi

/-- The node that is visited has no open edges, and those that leave it are to be closed. -/
theorem Open.pop (h : Open graph n visited [] ⟨indegree, index :: ready⟩) :
    graph.openEdges n visited index = 0 ∧
      Open graph n (visited ++ [index]) (graph.adjacency index) ⟨indegree, ready⟩ := by
  have hmem : index ∈ visited ++ index :: ready := by simp
  have hlt : index < n := h.lt index hmem
  have hzero : indegree index = 0 := (h.ready_iff index hlt).mp hmem
  have hnew : index ∉ visited := by
    have hdisj := (nodup_append.mp h.nodup).2.2
    intro hvisited
    exact hdisj index hvisited index mem_cons_self rfl
  have hopen : graph.openEdges n visited index = 0 := by
    have hcount := h.indegree_eq index
    simp only [count_nil, Nat.add_zero] at hcount
    omega
  have hmoved : visited ++ index :: ready = (visited ++ [index]) ++ ready := by simp
  refine ⟨hopen, ?_, ?_, ?_, ?_⟩
  · exact hmoved ▸ h.nodup
  · exact hmoved ▸ h.lt
  · intro i
    rw [← openEdges_concat hlt hnew]
    exact h.indegree_eq i
  · exact hmoved ▸ h.ready_iff

variable (hgraph : graph.Counted n)
include hgraph

/-- One visit keeps the invariant. -/
theorem Open.visit (h : Open graph n visited [] ⟨indegree, index :: ready⟩) :
    Open graph n (visited ++ [index]) []
      ((graph.adjacency index).foldl .relax ⟨indegree, ready⟩) :=
  h.pop.2.foldl (hgraph.target_lt index)

/-- With fuel for the remaining nodes the queue runs empty. -/
theorem Open.visit_run (h : Open graph n visited [] frontier) (hordered : Ordered graph n visited)
    (hfuel : n ≤ visited.length + fuel) :
    Ordered graph n (visited ++ graph.visit fuel frontier) ∧
      ∃ indegree, Open graph n (visited ++ graph.visit fuel frontier) [] ⟨indegree, []⟩ := by
  induction fuel generalizing visited frontier with
  | zero =>
    obtain ⟨indegree, ready⟩ := frontier
    have hlen : (visited ++ ready).length ≤ n := by
      have hsub : (visited ++ ready) ⊆ List.range n := by
        intro i hi
        exact mem_range.mpr (h.lt i hi)
      simpa using (h.nodup.subperm hsub).length_le
    have hready : ready = [] := by
      rw [length_append] at hlen
      exact length_eq_zero_iff.mp (by omega)
    subst hready
    rw [IndexGraph.visit, append_nil]
    exact ⟨hordered, indegree, h⟩
  | succ fuel ih =>
    obtain ⟨indegree, ready⟩ := frontier
    cases ready with
    | nil =>
      rw [IndexGraph.visit, append_nil]
      exact ⟨hordered, indegree, h⟩
    | cons index ready =>
      rw [IndexGraph.visit, append_cons]
      refine ih (h.visit hgraph) (hordered.concat h.pop.1) ?_
      simp only [length_append, length_singleton]
      omega

theorem open_start : Open graph n [] [] (graph.start n) where
  nodup := by
    exact nodup_range.filter _
  lt := by
    intro i hi
    exact mem_range.mp (mem_of_mem_filter hi)
  indegree_eq := by
    intro i
    simp [openEdges, start, hgraph.indegree_eq i]
  ready_iff := by
    intro i hi
    simp [start, hi]

/-- The visited nodes are all nodes exactly when the graph has no cycle. -/
theorem visitAll_length_iff : (graph.visitAll n).length = n ↔ graph.Ranked n := by
  have hfirst : Ordered graph n [] := by
    intro before index after h
    simp at h
  have hfuel : n ≤ ([] : List ℕ).length + n := by simp
  obtain ⟨hordered, indegree, hend⟩ := (open_start hgraph).visit_run hgraph hfirst hfuel
  rw [nil_append, ← visitAll] at hordered hend
  have hnodup : (graph.visitAll n).Nodup := by simpa using hend.nodup
  have hlt : ∀ i ∈ graph.visitAll n, i < n := by simpa using hend.lt
  have hmem : ∀ i < n, i ∈ graph.visitAll n ↔
      ∀ source < n, i ∈ graph.adjacency source → source ∈ graph.visitAll n := by
    intro i hi
    have hready := hend.ready_iff i hi
    have hcount := hend.indegree_eq i
    simp only [append_nil, count_nil, Nat.add_zero] at hready hcount
    rw [hready, hcount, openEdges_eq_zero]
  constructor
  · intro hlen
    have hall : ∀ i < n, i ∈ graph.visitAll n := by
      have hperm : (graph.visitAll n).Perm (.range n) := by
        refine (hnodup.subperm ?_).perm_of_length_le ?_
        · intro i hi
          exact mem_range.mpr (hlt i hi)
        · simp [hlen]
      intro i hi
      exact hperm.mem_iff.mpr (mem_range.mpr hi)
    refine ⟨fun i => (graph.visitAll n).idxOf i, ?_⟩
    intro source hsrc target htgt
    obtain ⟨before, after, hsplit⟩ :=
      append_of_mem (hall target (hgraph.target_lt source target htgt))
    have hbefore := hordered before target after hsplit source hsrc htgt
    rw [hsplit] at hnodup ⊢
    have htgt' : target ∉ before := by
      have hdisj := (nodup_append.mp hnodup).2.2
      intro hmem'
      exact hdisj target hmem' target mem_cons_self rfl
    dsimp only
    rw [idxOf_append_of_mem hbefore, idxOf_append_of_notMem htgt']
    have := idxOf_lt_length_iff.mpr hbefore
    omega
  · rintro ⟨rank, hrank⟩
    have hall : ∀ bound, ∀ i < n, rank i < bound → i ∈ graph.visitAll n := by
      intro bound
      induction bound with
      | zero =>
        intro i _ h
        omega
      | succ bound ih =>
        intro i hi hbound
        refine (hmem i hi).mpr ?_
        intro source hsrc hi'
        have := hrank source hsrc i hi'
        exact ih source hsrc (by omega)
    have hperm : (graph.visitAll n).Perm (.range n) := by
      refine (perm_ext_iff_of_nodup hnodup nodup_range).mpr fun i => ?_
      rw [mem_range]
      exact ⟨hlt i, fun hi => hall (rank i + 1) i hi (Nat.lt_succ_self _)⟩
    simpa using hperm.length_eq

end Invariant

section Checked

/-- Closes one edge into `next`; a counter of zero has no edge to close. -/
def Frontier.relax? (frontier : Frontier) (next : ℕ) : Option Frontier :=
  if frontier.indegree next = 0 then none else some (frontier.relax next)

/-- The visits with counters that never go below zero. -/
def visit? (graph : IndexGraph) : ℕ → Frontier → Option (List ℕ)
  | 0, _ => some []
  | _ + 1, ⟨_, []⟩ => some []
  | fuel + 1, ⟨indegree, index :: ready⟩ => do
    let next ← (graph.adjacency index).foldlM Frontier.relax? ⟨indegree, ready⟩
    let rest ← graph.visit? fuel next
    return index :: rest

/-- The visits from the start with counters that never go below zero. -/
def visitAll? (graph : IndexGraph) (n : ℕ) : Option (List ℕ) :=
  graph.visit? n (graph.start n)

variable {graph : IndexGraph}
variable {frontier : Frontier}

theorem Open.relax?_eq (h : Open graph n visited (next :: extra) frontier) :
    frontier.relax? next = some (frontier.relax next) := by
  have hcount := h.indegree_eq next
  rw [count_cons_self] at hcount
  rw [Frontier.relax?, if_neg (by omega)]

theorem Open.foldlM_relax? (h : Open graph n visited extra frontier) (hextra : ∀ i ∈ extra, i < n) :
    extra.foldlM Frontier.relax? frontier = some (extra.foldl Frontier.relax frontier) := by
  induction extra generalizing frontier with
  | nil =>
    rfl
  | cons next extra ih =>
    rw [forall_mem_cons] at hextra
    rw [foldlM_cons, h.relax?_eq, foldl_cons]
    exact ih (h.relax hextra.1) hextra.2

theorem Open.visit?_eq (hgraph : graph.Counted n) (h : Open graph n visited [] frontier) :
    graph.visit? fuel frontier = some (graph.visit fuel frontier) := by
  induction fuel generalizing visited frontier with
  | zero =>
    rfl
  | succ fuel ih =>
    obtain ⟨indegree, ready⟩ := frontier
    cases ready with
    | nil =>
      rfl
    | cons index ready =>
      have hclosed := h.pop.2.foldlM_relax? (hgraph.target_lt index)
      rw [IndexGraph.visit?, IndexGraph.visit, hclosed, Option.bind_eq_bind, Option.bind_some,
        ih (h.visit hgraph)]
      rfl

/-- No counter goes below zero. -/
theorem visitAll?_eq (hgraph : graph.Counted n) : graph.visitAll? n = some (graph.visitAll n) :=
  (open_start hgraph).visit?_eq hgraph

end Checked

end IndexGraph

section Rank

variable {α : Type} {R : α → α → Prop}

/-- A relation into a finite set has a rank function exactly when it has no cycle. -/
theorem exists_rank_iff {s : Finset α} (hR : ∀ a b, R a b → b ∈ s) :
    (∃ rank : α → ℕ, ∀ a b, R a b → rank b < rank a) ↔ ∀ a, ¬ Relation.TransGen R a a := by
  classical
  constructor
  · rintro ⟨rank, hrank⟩ a hcycle
    have hlt : ∀ b c, Relation.TransGen R b c → rank c < rank b := by
      intro b c h
      induction h with
      | single h => exact hrank _ _ h
      | tail _ h ih => exact (hrank _ _ h).trans ih
    exact lt_irrefl _ (hlt a a hcycle)
  · intro hacyclic
    refine ⟨fun a => (s.filter fun b => Relation.TransGen R a b).card, fun a b h => ?_⟩
    refine Finset.card_lt_card ⟨fun c hc => ?_, fun hsubset => ?_⟩
    · rw [Finset.mem_filter] at hc ⊢
      exact ⟨hc.1, .head h hc.2⟩
    · have hb := hsubset (Finset.mem_filter.mpr ⟨hR a b h, .single h⟩)
      exact hacyclic b (Finset.mem_filter.mp hb).2

end Rank

end Batter
