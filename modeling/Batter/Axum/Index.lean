import Batter.Axum.SharedPath
import Batter.Library.LeastOption

/-!
# Routers indexed by their patterns

The index keeps the patterns of several routers in a tree: a node leads to others by
literal segments and by the leads of captures, and lists the routers with a pattern
that ends there or in a wildcard.  A lookup follows all branches that match a path and
returns the first router, from a given position on, that one of them lists.

`Node.Reaches` says which routers a list of segments leads to.  Inserting a pattern
adds exactly its own segments (`reaches_insert`), and a lookup finds the least router
that some matching list of segments reaches (`collect_leastOf`).  So the index answers
as if every pattern of every router were tried in turn.
-/

namespace Batter.Axum

open Bytes List

variable {segments : List Segment} {seg : List UInt8} {routers : List ℕ} {router r bound : ℕ}

/-- The patterns that go on after the segments leading to this node. -/
structure Node where
  /-- Routers with a pattern ending in the segment that leads here. -/
  ends : List ℕ
  /-- Next nodes by literal segment. -/
  literals : List (List UInt8 × Node)
  /-- Next nodes by the literal lead of a capture. -/
  captures : List (List UInt8 × Node)
  /-- Routers by the literal lead of the wildcard ending their pattern. -/
  wildcards : List (List UInt8 × List ℕ)

/-- A node without patterns. -/
def Node.default : Node := ⟨[], [], [], []⟩

/-- Changes the value of a key, which begins with a default. -/
def alter {V : Type} (key : List UInt8) (initial : V) (f : V → V) :
    List (List UInt8 × V) → List (List UInt8 × V)
  | [] => [(key, f initial)]
  | (known, value) :: rest =>
    if known = key then (known, f value) :: rest else (known, value) :: alter key initial f rest

/-- Adds the segments of a pattern of a router; a wildcard ends its pattern. -/
def Node.insert (router : ℕ) : List Segment → Node → Node
  | [], node => { node with ends := node.ends ++ [router] }
  | .literal literal :: segments, node =>
    { node with literals := alter literal .default (.insert router segments) node.literals }
  | .capture lead :: segments, node =>
    { node with captures := alter lead .default (.insert router segments) node.captures }
  | .wildcard lead :: _, node =>
    { node with wildcards := alter lead [] (· ++ [router]) node.wildcards }

/-- Lowers the least router to the first of the ascending routers from `start` on. -/
def lower (start : ℕ) (lowest : Option ℕ) (routers : List ℕ) : Option ℕ :=
  match routers.find? fun router => decide (start ≤ router) with
  | none => lowest
  | some router => lowered lowest router

/-- Lowers the least router to those with a wildcard that matches the rest of a path. -/
def Node.collectWildcards (node : Node) (rest : List UInt8) (start : ℕ) (lowest : Option ℕ) :
    Option ℕ :=
  node.wildcards.foldl (fun lowest entry =>
    if decide (entry.1.length < rest.length) && entry.1.isPrefixOf rest then
      lower start lowest entry.2
    else lowest) lowest

/-- Lowers the least router to those with a pattern that matches the rest of a path. -/
def Node.collect (node : Node) (rest : List UInt8) (start : ℕ) (lowest : Option ℕ) : Option ℕ :=
  let lowest := node.collectWildcards rest start lowest
  match _hsplit : splitSlash rest with
  | (segment, some next) =>
    let lowest := node.captures.foldl (fun lowest entry =>
      if entry.1.isPrefixOf segment then entry.2.collect next start lowest else lowest) lowest
    match node.literals.lookup segment with
    | none => lowest
    | some literal => literal.collect next start lowest
  | (segment, none) =>
    -- What a capture takes may be empty unless the capture ends the pattern.
    let lowest := node.captures.foldl (fun lowest entry =>
      if entry.1.isPrefixOf segment && decide (entry.1.length < segment.length) then
        lower start lowest entry.2.ends
      else lowest) lowest
    match node.literals.lookup segment with
    | none => lowest
    | some literal => lower start lowest literal.ends
termination_by rest.length
decreasing_by
  all_goals
    obtain ⟨-, rfl⟩ := splitSlash_eq.mp _hsplit
    simp only [fromSlash, List.length_append, List.length_cons]
    omega

/-- The patterns of several routers. -/
structure Index where
  root : Node
  unanalyzed : List ℕ

/-- Adds one pattern of a router. -/
def Index.addPattern (router : ℕ) (index : Index) (pattern : String) : Index :=
  match parse pattern with
  | some segments => { index with root := index.root.insert router segments }
  | none => { index with unanalyzed := index.unanalyzed ++ [router] }

/-- Adds the patterns of the router at a position. -/
def Index.addRouter (index : Index) (entry : List String × ℕ) : Index :=
  entry.1.foldl (.addPattern entry.2) index

/-- Indexes the patterns of each router under its position. -/
def Index.new (routers : List (List String)) : Index :=
  routers.zipIdx.foldl .addRouter ⟨.default, []⟩

/-- The first router, from `start` on, with a pattern that matches the path. -/
def Index.candidate (index : Index) (path : String) (start : ℕ) : Option ℕ :=
  let lowest := lower start none index.unanalyzed
  match afterSlash (asBytes path) with
  | some rest => index.root.collect rest start lowest
  | none => lowest

section Alter

variable {V : Type} {key : List UInt8} {initial : V} {f : V → V} {l : List (List UInt8 × V)}

theorem lookup_alter (k : List UInt8) : (alter key initial f l).lookup k =
      if k = key then some (f ((l.lookup key).getD initial)) else l.lookup k := by
  induction l with
  | nil =>
    rw [alter, lookup_cons]
    by_cases h : k = key
    · simp [h]
    · simp [h, beq_eq_false_iff_ne.mpr h]
  | cons entry l ih =>
    obtain ⟨known, value⟩ := entry
    rw [alter]
    by_cases hknown : known = key
    · subst hknown
      rw [if_pos rfl, lookup_cons]
      by_cases h : k = known
      · simp [h]
      · simp [h, lookup_cons, beq_eq_false_iff_ne.mpr h]
    · rw [if_neg hknown, lookup_cons, lookup_cons, lookup_cons, ih]
      by_cases h : k = known
      · simp [h, hknown]
      · simp [beq_eq_false_iff_ne.mpr h, beq_eq_false_iff_ne.mpr (Ne.symm hknown)]

/-- What holds of some value of a key after the change: it held before, or the change made it
hold of the value of the changed key. -/
theorem exists_mem_alter {P : List UInt8 → V → Prop} {Q : List UInt8 → Prop}
    (hf : ∀ value, P key (f value) ↔ P key value ∨ Q key) (hinit : ¬ P key initial)
    {k : List UInt8} :
    (∃ value, (k, value) ∈ alter key initial f l ∧ P k value) ↔
      (∃ value, (k, value) ∈ l ∧ P k value) ∨ (k = key ∧ Q key) := by
  induction l with
  | nil =>
    simp only [alter, mem_singleton, Prod.mk.injEq, not_mem_nil, false_and, exists_false, false_or]
    constructor
    · rintro ⟨value, ⟨rfl, rfl⟩, h⟩
      exact ⟨rfl, ((hf initial).mp h).resolve_left hinit⟩
    · rintro ⟨rfl, h⟩
      exact ⟨_, ⟨rfl, rfl⟩, (hf initial).mpr (.inr h)⟩
  | cons entry l ih =>
    obtain ⟨known, value⟩ := entry
    have hsplit : ∀ v (rest : List (List UInt8 × V)),
        (∃ w, (k, w) ∈ (known, v) :: rest ∧ P k w) ↔
          (k = known ∧ P k v) ∨ ∃ w, (k, w) ∈ rest ∧ P k w := by
      intro v rest
      simp only [mem_cons, Prod.mk.injEq, or_and_right, exists_or, and_assoc,
        exists_and_left, exists_eq_left]
    rw [alter]
    split_ifs with hknown
    · subst hknown
      rw [hsplit, hsplit]
      constructor
      · rintro (⟨rfl, h⟩ | h)
        · rcases (hf value).mp h with h | h
          · exact .inl (.inl ⟨rfl, h⟩)
          · exact .inr ⟨rfl, h⟩
        · exact .inl (.inr h)
      · rintro ((⟨rfl, h⟩ | h) | ⟨rfl, h⟩)
        · exact .inl ⟨rfl, (hf value).mpr (.inl h)⟩
        · exact .inr h
        · exact .inl ⟨rfl, (hf value).mpr (.inr h)⟩
    · rw [hsplit, hsplit, ih, or_assoc]

/-- What holds of all values and of the default, and is kept by the change, holds afterwards. -/
theorem forall_mem_alter {P : V → Prop} (hf : ∀ value, P value → P (f value)) (hinit : P initial)
    (h : ∀ entry ∈ l, P entry.2) : ∀ entry ∈ alter key initial f l, P entry.2 := by
  induction l with
  | nil =>
    rw [alter, forall_mem_singleton]
    exact hf initial hinit
  | cons entry l ih =>
    obtain ⟨known, value⟩ := entry
    rw [forall_mem_cons] at h
    rw [alter]
    split_ifs
    · exact forall_mem_cons.mpr ⟨hf value h.1, h.2⟩
    · exact forall_mem_cons.mpr ⟨h.1, ih h.2⟩

end Alter

section Insert

/-- The segments lead to the router. -/
def Node.Reaches : Node → List Segment → ℕ → Prop
  | node, [], router => router ∈ node.ends
  | node, .literal literal :: segments, router =>
    ∃ child, node.literals.lookup literal = some child ∧ child.Reaches segments router
  | node, .capture lead :: segments, router =>
    ∃ child, (lead, child) ∈ node.captures ∧ child.Reaches segments router
  | node, [.wildcard lead], router => ∃ routers, (lead, routers) ∈ node.wildcards ∧ router ∈ routers
  | _, .wildcard _ :: _ :: _, _ => False

attribute [local simp] Node.insert Node.Reaches

theorem not_reaches_default : ¬ Node.default.Reaches segments router := by
  intro h
  cases segments with
  | nil => cases h
  | cons seg segments =>
    cases seg with
    | literal literal =>
      obtain ⟨child, hchild, -⟩ := h
      cases hchild
    | capture lead =>
      obtain ⟨child, hchild, -⟩ := h
      cases hchild
    | wildcard lead =>
      cases segments with
      | cons => exact h
      | nil =>
        obtain ⟨routers, hrouters, -⟩ := h
        cases hrouters

theorem reaches_getD {child : Option Node} : (child.getD .default).Reaches segments router ↔
      ∃ node, child = some node ∧ node.Reaches segments router := by
  cases child with
  | none => simp [not_reaches_default]
  | some node => simp

variable {added : List Segment} {node : Node} {lead : List UInt8}

section

variable (hadded : ∀ {node : Node} {segments r}, (node.insert router added).Reaches segments r ↔
  node.Reaches segments r ∨ (segments = added ∧ r = router))
include hadded

theorem reaches_insert_literal {literal : List UInt8} :
    (node.insert router (.literal literal :: added)).Reaches segments r ↔
      node.Reaches segments r ∨ (segments = .literal literal :: added ∧ r = router) := by
  cases segments with
  | nil => simp
  | cons seg segments =>
    cases seg with
    | capture => simp
    | wildcard => cases segments <;> simp
    | literal other =>
      simp only [Node.insert, Node.Reaches, lookup_alter]
      by_cases h : other = literal
      · subst h
        simp only [if_true, Option.some.injEq, exists_eq_left', hadded, reaches_getD,
          List.cons.injEq, true_and]
      · simp [h]

theorem reaches_insert_capture :
    (node.insert router (.capture lead :: added)).Reaches segments r ↔
      node.Reaches segments r ∨ (segments = .capture lead :: added ∧ r = router) := by
  cases segments with
  | nil => simp
  | cons seg segments =>
    cases seg with
    | literal => simp
    | wildcard => cases segments <;> simp
    | capture other =>
      have halter := @exists_mem_alter _ lead .default (.insert router added)
        node.captures (fun _ child => child.Reaches segments r)
        (fun _ => segments = added ∧ r = router) (fun _ => hadded) not_reaches_default other
      simp only [Node.insert, Node.Reaches, halter, List.cons.injEq, Segment.capture.injEq,
        and_assoc]

end

theorem reaches_insert_wildcard : (node.insert router [.wildcard lead]).Reaches segments r ↔
      node.Reaches segments r ∨ (segments = [.wildcard lead] ∧ r = router) := by
  cases segments with
  | nil => simp
  | cons seg segments =>
    cases seg with
    | literal => simp
    | capture => simp
    | wildcard other =>
      cases segments with
      | cons => simp
      | nil =>
        have halter := @exists_mem_alter _ lead [] (· ++ [router]) node.wildcards
          (fun _ routers => r ∈ routers) (fun _ => r = router) (by simp) (by simp) other
        simp only [Node.insert, Node.Reaches, halter, List.cons.injEq,
          Segment.wildcard.injEq, and_true]

/-- Inserting a pattern adds its segments and nothing else. -/
theorem reaches_insert (hwild : ∀ seg ∈ added.dropLast, seg.isWildcard = false) :
    (node.insert router added).Reaches segments r ↔
      node.Reaches segments r ∨ (segments = added ∧ r = router) := by
  induction added generalizing node segments r with
  | nil =>
    cases segments with
    | nil => simp
    | cons seg segments =>
      cases seg with
      | literal | capture => simp
      | wildcard => cases segments <;> simp
  | cons first added ih =>
    have htail : ∀ seg ∈ added.dropLast, seg.isWildcard = false := by
      intro seg hseg
      cases added with
      | nil => cases hseg
      | cons next added => exact hwild seg (mem_cons_of_mem _ hseg)
    cases first with
    | literal literal => exact reaches_insert_literal (ih htail)
    | capture lead => exact reaches_insert_capture (ih htail)
    | wildcard lead =>
      cases added with
      | cons next added => cases hwild _ (mem_cons_self ..)
      | nil => exact reaches_insert_wildcard

end Insert

section Ascending

/-- The routers are ascending and end at most at the bound. -/
def AscendingTo (bound : ℕ) (routers : List ℕ) : Prop :=
  routers.Pairwise (· ≤ ·) ∧ ∀ router ∈ routers, router ≤ bound

theorem ascendingTo_nil (bound : ℕ) : AscendingTo bound [] :=
  ⟨.nil, nofun⟩

variable {bound' : ℕ}

theorem AscendingTo.mono (h : AscendingTo bound routers) (hle : bound ≤ bound') :
    AscendingTo bound' routers :=
  ⟨h.1, fun r hr => (h.2 r hr).trans hle⟩

/-- The bound itself goes to the end. -/
theorem AscendingTo.concat (h : AscendingTo bound routers) :
    AscendingTo bound (routers ++ [bound]) := by
  refine ⟨pairwise_append.mpr ⟨h.1, pairwise_singleton _ _, ?_⟩, ?_⟩
  · intro a ha b hb
    rw [mem_singleton.mp hb]
    exact h.2 a ha
  · intro a ha
    rcases mem_append.mp ha with ha | ha
    · exact h.2 a ha
    · rw [mem_singleton.mp ha]

/-- Every list of routers below the node is ascending and ends at most at the bound. -/
inductive Node.Ascending (bound : ℕ) : Node → Prop
  | intro {node : Node}
      (ends : AscendingTo bound node.ends)
      (wildcards : ∀ entry ∈ node.wildcards, AscendingTo bound entry.2)
      (literals : ∀ entry ∈ node.literals, entry.2.Ascending bound)
      (captures : ∀ entry ∈ node.captures, entry.2.Ascending bound) : Ascending bound node

theorem Node.Ascending.mono {node : Node} (h : node.Ascending bound) (hle : bound ≤ bound') :
    node.Ascending bound' := by
  induction h with
  | intro ends wildcards _ _ literals captures =>
    exact ⟨ends.mono hle, fun entry hentry => (wildcards entry hentry).mono hle, literals,
      captures⟩

theorem ascending_default (bound : ℕ) : Node.default.Ascending bound :=
  ⟨ascendingTo_nil bound, nofun, nofun, nofun⟩

/-- Routers are indexed in order, so the lists stay ascending. -/
theorem Node.Ascending.insert {node : Node} (h : node.Ascending router) :
    (node.insert router segments).Ascending router := by
  induction segments generalizing node with
  | nil =>
    obtain ⟨ends, wildcards, literals, captures⟩ := h
    exact ⟨ends.concat, wildcards, literals, captures⟩
  | cons seg segments ih =>
    obtain ⟨ends, wildcards, literals, captures⟩ := h
    cases seg with
    | literal literal =>
      exact ⟨ends, wildcards,
        forall_mem_alter (fun _ => ih) (ascending_default router) literals, captures⟩
    | capture lead =>
      exact ⟨ends, wildcards, literals,
        forall_mem_alter (fun _ => ih) (ascending_default router) captures⟩
    | wildcard lead =>
      exact ⟨ends, forall_mem_alter (fun _ => AscendingTo.concat) (ascendingTo_nil router)
        wildcards, literals, captures⟩

end Ascending

section Lookup

variable {start : ℕ} {S : Set ℕ} {lowest : Option ℕ}
variable {node : Node} {rest : List UInt8}

/-- The first of ascending routers from a position on is the least of them. -/
theorem leastOf_lower (h : LeastOf S lowest) (hrouters : routers.Pairwise (· ≤ ·)) :
    LeastOf (S ∪ {r | start ≤ r ∧ r ∈ routers}) (lower start lowest routers) := by
  unfold lower
  cases hfind : routers.find? fun router => decide (start ≤ router) with
  | none =>
    rw [find?_eq_none] at hfind
    have hempty : {r | start ≤ r ∧ r ∈ routers} = ∅ := by
      ext r
      simp only [Set.mem_ofPred_eq, Set.mem_empty_iff_false, iff_false, not_and]
      intro hle hmem
      simpa [hle] using hfind r hmem
    rw [hempty, Set.union_empty]
    exact h
  | some router =>
    obtain ⟨hle, before, after, hsplit, hbefore⟩ := find?_eq_some_iff_append.mp hfind
    rw [decide_eq_true_eq] at hle
    refine (h.insert router).union_of_le ⟨hle, by simp [hsplit]⟩ ?_
    rintro r ⟨hr, hmem⟩
    rw [hsplit] at hmem hrouters
    rcases mem_append.mp hmem with hmem | hmem
    · exact absurd hr (by simpa using hbefore r hmem)
    · rcases mem_cons.mp hmem with rfl | hmem
      · exact le_rfl
      · exact (pairwise_cons.mp (pairwise_append.mp hrouters).2.1).1 r hmem

/-- A step that looks through routers only under a condition. -/
theorem leastOf_lower_if {cond : Bool} (h : LeastOf S lowest)
    (hrouters : routers.Pairwise (· ≤ ·)) :
    LeastOf (S ∪ {r | cond = true ∧ start ≤ r ∧ r ∈ routers})
      (if cond then lower start lowest routers else lowest) := by
  cases cond with
  | false => simpa using h
  | true => simpa using leastOf_lower h hrouters

/-- The routers that some matching segments below a node lead to. -/
def Node.matching (node : Node) (rest : List UInt8) (start : ℕ) : Set ℕ :=
  {r | start ≤ r ∧ ∃ segments, node.Reaches segments r ∧ matchesRest segments rest = true}

/-- The routers found through the wildcards of a node. -/
def Node.byWildcard (node : Node) (rest : List UInt8) (start : ℕ) : Set ℕ :=
  {r | ∃ entry ∈ node.wildcards,
    (decide (entry.1.length < rest.length) && entry.1.isPrefixOf rest) = true ∧
      start ≤ r ∧ r ∈ entry.2}

theorem mem_matching_wildcard : r ∈ node.byWildcard rest start ↔ start ≤ r ∧ ∃ lead,
      node.Reaches [.wildcard lead] r ∧ matchesRest [.wildcard lead] rest = true := by
  simp only [Node.byWildcard, Set.mem_ofPred_eq, Node.Reaches, matchesRest_wildcard, Prod.exists,
    Bool.and_eq_true, decide_eq_true_eq, isPrefixOf_iff_prefix]
  constructor
  · rintro ⟨lead, routers, hmem, ⟨hlen, hlead⟩, hstart, hr⟩
    exact ⟨hstart, lead, ⟨routers, hmem, hr⟩, hlead, hlen⟩
  · rintro ⟨hstart, lead, ⟨routers, hmem, hr⟩, hlead, hlen⟩
    exact ⟨lead, routers, hmem, ⟨hlen, hlead⟩, hstart, hr⟩

/-- Segments that match lead through a wildcard alone, or do not start with one. -/
theorem Node.Reaches.wildcard_or (h : node.Reaches segments r)
    (hmatches : matchesRest segments rest = true) :
    (∃ lead, segments = [.wildcard lead]) ∨
      ∃ first more, segments = first :: more ∧ first.isWildcard = false := by
  match segments with
  | [] => cases hmatches
  | [.wildcard lead] => exact .inl ⟨lead, rfl⟩
  | .wildcard _ :: _ :: _ => exact h.elim
  | .literal _ :: _ | .capture _ :: _ => exact .inr ⟨_, _, rfl, rfl⟩

/-- Behind the last slash a path is matched by the segment that ends a pattern. -/
theorem matching_last (hseg : slash ∉ seg) : node.matching seg start = node.byWildcard seg start ∪
      {r | ∃ entry ∈ node.captures,
        (entry.1.isPrefixOf seg && decide (entry.1.length < seg.length)) = true ∧
          start ≤ r ∧ r ∈ entry.2.ends} ∪
      {r | ∃ child, node.literals.lookup seg = some child ∧ start ≤ r ∧ r ∈ child.ends} := by
  ext r
  rw [Set.mem_union, Set.mem_union, mem_matching_wildcard]
  simp only [Node.matching, Set.mem_ofPred_eq, Prod.exists, Bool.and_eq_true, decide_eq_true_eq,
    isPrefixOf_iff_prefix]
  constructor
  · rintro ⟨hstart, segments, hreaches, hmatches⟩
    obtain ⟨lead, rfl⟩ | ⟨first, segments, rfl, hwild⟩ := hreaches.wildcard_or hmatches
    · exact .inl (.inl ⟨hstart, lead, hreaches, hmatches⟩)
    · rcases matchesRest_cases hwild hmatches with ⟨rfl, -, hfits⟩ |
        ⟨bytes, next, -, rfl, -⟩
      · cases first with
        | wildcard => cases hwild
        | literal literal =>
          obtain rfl := fits_literal.mp hfits
          obtain ⟨child, hchild, hends⟩ := hreaches
          exact .inr ⟨child, hchild, hstart, hends⟩
        | capture lead =>
          obtain ⟨hlead, hlen⟩ := fits_capture.mp hfits
          obtain ⟨child, hchild, hends⟩ := hreaches
          exact .inl (.inr ⟨lead, child, hchild, ⟨hlead, hlen rfl⟩, hstart, hends⟩)
      · simp at hseg
  · rintro ((⟨hstart, lead, hreaches, hmatches⟩ |
      ⟨lead, child, hchild, ⟨hlead, hlen⟩, hstart, hends⟩) | ⟨child, hchild, hstart, hends⟩)
    · exact ⟨hstart, _, hreaches, hmatches⟩
    · refine ⟨hstart, [.capture lead], ⟨child, hchild, hends⟩, ?_⟩
      rw [matchesRest_last rfl hseg]
      exact fits_capture.mpr ⟨hlead, fun _ => hlen⟩
    · refine ⟨hstart, [.literal seg], ⟨child, hchild, hends⟩, ?_⟩
      rw [matchesRest_last rfl hseg]
      exact fits_literal.mpr rfl

/-- Before a slash a path is matched by a segment and what its node leads to. -/
theorem matching_next {next : List UInt8} (hseg : slash ∉ seg) :
    node.matching (seg ++ slash :: next) start =
      node.byWildcard (seg ++ slash :: next) start ∪
      {r | ∃ entry ∈ node.captures,
        entry.1.isPrefixOf seg = true ∧ r ∈ entry.2.matching next start} ∪
      {r | ∃ child, node.literals.lookup seg = some child ∧ r ∈ child.matching next start} := by
  have huniq : ∀ bytes rest, slash ∉ bytes → seg ++ slash :: next = bytes ++ slash :: rest →
      seg = bytes ∧ next = rest := by
    intro bytes rest hbytes heq
    have hsplit : splitSlash (seg ++ slash :: next) = (seg, some next) :=
      splitSlash_eq.mpr ⟨hseg, rfl⟩
    have hsplit' : splitSlash (seg ++ slash :: next) = (bytes, some rest) :=
      splitSlash_eq.mpr ⟨hbytes, heq⟩
    simpa using hsplit.symm.trans hsplit'
  ext r
  rw [Set.mem_union, Set.mem_union, mem_matching_wildcard]
  simp only [Node.matching, Set.mem_ofPred_eq, Prod.exists, isPrefixOf_iff_prefix]
  constructor
  · rintro ⟨hstart, segments, hreaches, hmatches⟩
    obtain ⟨lead, rfl⟩ | ⟨first, segments, rfl, hwild⟩ := hreaches.wildcard_or hmatches
    · exact .inl (.inl ⟨hstart, lead, hreaches, hmatches⟩)
    · rcases matchesRest_cases hwild hmatches with ⟨rfl, hslash, -⟩ |
        ⟨bytes, rest, hbytes, heq, hfits, hrest⟩
      · simp at hslash
      · obtain ⟨rfl, rfl⟩ := huniq bytes rest hbytes heq
        cases first with
        | wildcard => cases hwild
        | literal literal =>
          obtain rfl := fits_literal.mp hfits
          obtain ⟨child, hchild, hreaches⟩ := hreaches
          exact .inr ⟨child, hchild, hstart, segments, hreaches, hrest⟩
        | capture lead =>
          obtain ⟨child, hchild, hreaches⟩ := hreaches
          exact .inl (.inr ⟨lead, child, hchild, (fits_capture.mp hfits).1, hstart,
            segments, hreaches, hrest⟩)
  · have hmatches : ∀ (first : Segment) (segments : List Segment),
        first.fits false seg = true → matchesRest segments next = true →
        matchesRest (first :: segments) (seg ++ slash :: next) = true := by
      intro first segments hfits hrest
      cases segments with
      | nil => cases hrest
      | cons second segments =>
        rw [matchesRest_cons hseg, hfits, hrest]
        rfl
    rintro ((⟨hstart, lead, hreaches, hmatch⟩ |
      ⟨lead, child, hchild, hlead, hstart, segments, hreaches, hrest⟩) |
      ⟨child, hchild, hstart, segments, hreaches, hrest⟩)
    · exact ⟨hstart, _, hreaches, hmatch⟩
    · exact ⟨hstart, .capture lead :: segments, ⟨child, hchild, hreaches⟩,
        hmatches _ _ (fits_capture.mpr ⟨hlead, nofun⟩) hrest⟩
    · exact ⟨hstart, .literal seg :: segments, ⟨child, hchild, hreaches⟩,
        hmatches _ _ (fits_literal.mpr rfl) hrest⟩

theorem collectWildcards_leastOf (hnode : node.Ascending bound) (h : LeastOf S lowest) :
    LeastOf (S ∪ node.byWildcard rest start) (node.collectWildcards rest start lowest) := by
  obtain ⟨-, wildcards, -, -⟩ := hnode
  exact h.foldl fun entry hentry S lowest h => leastOf_lower_if h (wildcards entry hentry).1

/-- A lookup finds the least router that some matching segments lead to. -/
theorem collect_leastOf (hnode : node.Ascending bound) (h : LeastOf S lowest) :
    LeastOf (S ∪ node.matching rest start) (node.collect rest start lowest) := by
  induction hlen : rest.length using Nat.strong_induction_on generalizing node rest S lowest with
  | _ length ih =>
    subst hlen
    have hwildcards : LeastOf (S ∪ node.byWildcard rest start)
        (node.collectWildcards rest start lowest) := collectWildcards_leastOf hnode h
    obtain ⟨-, -, literals, captures⟩ := hnode
    have hchild : ∀ key child, node.literals.lookup key = some child → child.Ascending bound := by
      intro key child hlook
      obtain ⟨before, after, hsplit, -⟩ := lookup_eq_some_iff.mp hlook
      exact literals (key, child) (by simp [hsplit])
    rw [Node.collect]
    split
    · next seg next hsplit =>
      obtain ⟨hseg, rfl⟩ := splitSlash_eq.mp hsplit
      have hshorter : next.length < (seg ++ fromSlash (some next)).length := by
        simp only [fromSlash, length_append, length_cons]
        omega
      have hcapture : ∀ entry ∈ node.captures, ∀ S lowest, LeastOf S lowest →
          LeastOf (S ∪ {r | entry.1.isPrefixOf seg = true ∧ r ∈ entry.2.matching next start})
            (if entry.1.isPrefixOf seg then entry.2.collect next start lowest
            else lowest) := by
        intro entry hentry S lowest h
        cases hlead : entry.1.isPrefixOf seg with
        | false => simpa using h
        | true => simpa using ih next.length hshorter (captures entry hentry) h rfl
      have hcaptures : LeastOf (S ∪ node.byWildcard (seg ++ slash :: next) start ∪
          {r | ∃ entry ∈ node.captures,
            entry.1.isPrefixOf seg = true ∧ r ∈ entry.2.matching next start})
          (node.captures.foldl (fun lowest entry =>
            if entry.1.isPrefixOf seg then entry.2.collect next start lowest else lowest)
            (node.collectWildcards (seg ++ slash :: next) start lowest)) :=
        hwildcards.foldl hcapture
      rw [fromSlash, matching_next hseg, ← Set.union_assoc, ← Set.union_assoc]
      cases hlook : node.literals.lookup seg with
      | none => simpa using hcaptures
      | some child =>
        simpa using ih next.length hshorter (hchild seg child hlook) hcaptures rfl
    · next seg hsplit =>
      obtain ⟨hseg, rfl⟩ := splitSlash_eq.mp hsplit
      rw [fromSlash, append_nil] at hwildcards ⊢
      have hcaptures : LeastOf (S ∪ node.byWildcard seg start ∪
          {r | ∃ entry ∈ node.captures,
            (entry.1.isPrefixOf seg && decide (entry.1.length < seg.length)) = true ∧
              start ≤ r ∧ r ∈ entry.2.ends})
          (node.captures.foldl (fun lowest entry =>
            if entry.1.isPrefixOf seg && decide (entry.1.length < seg.length) then
              lower start lowest entry.2.ends
            else lowest)
            (node.collectWildcards seg start lowest)) := by
        refine hwildcards.foldl fun entry hentry S lowest h => ?_
        obtain ⟨ends, -, -, -⟩ := captures entry hentry
        exact leastOf_lower_if h ends.1
      rw [matching_last hseg, ← Set.union_assoc, ← Set.union_assoc]
      cases hlook : node.literals.lookup seg with
      | none => simpa using hcaptures
      | some child =>
        obtain ⟨ends, -, -, -⟩ := hchild seg child hlook
        simpa using leastOf_lower hcaptures ends.1

end Lookup

section New

variable (routers : List (List String))

/-- The patterns of all routers with their positions, in the order of the index. -/
def patternEntries : List (String × ℕ) :=
  routers.zipIdx.flatMap fun entry => entry.1.map fun pattern => (pattern, entry.2)

theorem mem_patternEntries {routers : List (List String)} {pattern : String} :
    (pattern, r) ∈ patternEntries routers ↔
      ∃ patterns, routers[r]? = some patterns ∧ pattern ∈ patterns := by
  simp only [patternEntries, mem_flatMap, mem_map, Prod.mk.injEq, Prod.exists,
    mem_zipIdx_iff_getElem?]
  constructor
  · rintro ⟨patterns, pos, hget, other, hother, rfl, rfl⟩
    exact ⟨patterns, hget, hother⟩
  · rintro ⟨patterns, hget, hpattern⟩
    exact ⟨patterns, r, hget, pattern, hpattern, rfl, rfl⟩

theorem pairwise_patternEntries : (patternEntries routers).Pairwise fun a b => a.2 ≤ b.2 := by
  have hpositions : routers.zipIdx.Pairwise fun a b => a.2 < b.2 := by
    rw [← pairwise_map (f := Prod.snd) (R := (· < ·)), zipIdx_map_snd]
    exact pairwise_lt_range'
  rw [patternEntries, pairwise_flatMap]
  refine ⟨fun entry _ => ?_, hpositions.imp fun {a b} hlt => ?_⟩
  · rw [pairwise_map]
    exact pairwise_of_forall fun _ _ => le_rfl
  · intro x hx y hy
    obtain ⟨_, _, rfl⟩ := mem_map.mp hx
    obtain ⟨_, _, rfl⟩ := mem_map.mp hy
    exact hlt.le

theorem Index.new_eq : Index.new routers = (patternEntries routers).foldl
      (fun index entry => index.addPattern entry.2 entry.1) ⟨.default, []⟩ := by
  rw [Index.new, patternEntries, foldl_flatMap]
  simp only [foldl_map]
  rfl

/-- The index holds the patterns added so far, all of routers up to the bound. -/
structure Index.Holds (added : List (String × ℕ)) (bound : ℕ) (index : Index) : Prop where
  reaches : ∀ segments r, index.root.Reaches segments r ↔
    ∃ pattern, (pattern, r) ∈ added ∧ parse pattern = some segments
  unanalyzed : ∀ r, r ∈ index.unanalyzed ↔ ∃ pattern, (pattern, r) ∈ added ∧ parse pattern = none
  root : index.root.Ascending bound
  ascending : AscendingTo bound index.unanalyzed

/-- Another pattern of the last router, or of a later one. -/
theorem Index.Holds.addPattern {added : List (String × ℕ)} {index : Index}
    (h : index.Holds added bound) (hbound : bound ≤ router) (pattern : String) :
    (index.addPattern router pattern).Holds (added ++ [(pattern, router)]) router := by
  have hroot := h.root.mono hbound
  have hascending := h.ascending.mono hbound
  have hsplit : ∀ {P : String → Prop} {r : ℕ},
      (∃ other, (other, r) ∈ added ++ [(pattern, router)] ∧ P other) ↔
        (∃ other, (other, r) ∈ added ∧ P other) ∨ (P pattern ∧ r = router) := by
    intro P r
    simp only [mem_append, mem_singleton, Prod.mk.injEq, or_and_right, exists_or]
    refine or_congr_right ⟨?_, ?_⟩
    · rintro ⟨_, ⟨rfl, rfl⟩, hP⟩
      exact ⟨hP, rfl⟩
    · rintro ⟨hP, rfl⟩
      exact ⟨pattern, ⟨rfl, rfl⟩, hP⟩
  unfold Index.addPattern
  cases hparse : parse pattern with
  | none =>
    refine ⟨fun segments r => ?_, fun r => ?_, hroot, hascending.concat⟩
    · rw [hsplit, h.reaches, hparse]
      simp
    · rw [hsplit, mem_append, h.unanalyzed, hparse, mem_singleton]
      simp
  | some segments =>
    refine ⟨fun other r => ?_, fun r => ?_, hroot.insert, hascending⟩
    · rw [hsplit, reaches_insert (parse_wellFormed hparse).wildcard_last, h.reaches, hparse,
        Option.some.injEq, eq_comm (a := segments)]
    · rw [hsplit, h.unanalyzed, hparse]
      simp

/-- Patterns are added in the order of their routers. -/
theorem Index.Holds.foldl {added rest : List (String × ℕ)} {index : Index}
    (h : index.Holds added bound) (hsorted : rest.Pairwise fun a b => a.2 ≤ b.2)
    (hbound : ∀ entry ∈ rest, bound ≤ entry.2) :
    ∃ bound', (rest.foldl (fun index entry => index.addPattern entry.2 entry.1) index).Holds
      (added ++ rest) bound' := by
  induction rest generalizing added bound index with
  | nil =>
    exact ⟨bound, by simpa using h⟩
  | cons entry rest ih =>
    rw [pairwise_cons] at hsorted
    rw [forall_mem_cons] at hbound
    obtain ⟨bound', hend⟩ := ih (h.addPattern hbound.1 entry.1) hsorted.2 hsorted.1
    exact ⟨bound', by simpa using hend⟩

/-- The index of the routers holds all their patterns. -/
theorem Index.new_holds : ∃ bound, (Index.new routers).Holds (patternEntries routers) bound := by
  have hempty : Index.Holds [] 0 ⟨.default, []⟩ :=
    ⟨by simp [not_reaches_default], by simp, ascending_default 0, ascendingTo_nil 0⟩
  rw [Index.new_eq]
  obtain ⟨bound, hend⟩ := hempty.foldl (pairwise_patternEntries routers) fun _ _ => Nat.zero_le _
  exact ⟨bound, hend⟩

end New

/-- Whether a router with the patterns must be asked for a path: one of them matches the path,
or is not analyzed. -/
def claims (patterns : List String) (path : String) : Bool :=
  patterns.any fun pattern =>
    (parse pattern).all fun segments => matchesPath segments (asBytes path)

theorem claims_iff {patterns : List String} {path : String} : claims patterns path = true ↔
      ∃ pattern ∈ patterns, parse pattern = none ∨ PatternMatches pattern (asBytes path) := by
  rw [claims, any_eq_true]
  refine exists_congr fun pattern => and_congr_right fun _ => ?_
  cases hparse : parse pattern with
  | none => simp
  | some segments => simp [PatternMatches, hparse]

variable (routers : List (List String))

/-- The routers from a position on that must be asked for a path. -/
def claimants (path : String) (start : ℕ) : Set ℕ :=
  {r | start ≤ r ∧ ∃ patterns, routers[r]? = some patterns ∧ claims patterns path = true}

/-- The index answers with the first router that must be asked. -/
theorem candidate_leastOf (path : String) (start : ℕ) :
    LeastOf (claimants routers path start) ((Index.new routers).candidate path start) := by
  obtain ⟨bound, hidx⟩ := Index.new_holds routers
  have hnone : LeastOf (∅ : Set ℕ) none := rfl
  have hunanalyzed : LeastOf {r | start ≤ r ∧ r ∈ (Index.new routers).unanalyzed}
      (lower start none (Index.new routers).unanalyzed) := by
    simpa using leastOf_lower hnone hidx.ascending.1
  have hclaims : claimants routers path start =
      {r | start ≤ r ∧ r ∈ (Index.new routers).unanalyzed} ∪
        {r | start ≤ r ∧ ∃ rest, asBytes path = slash :: rest ∧
          ∃ segments, (Index.new routers).root.Reaches segments r ∧
            matchesRest segments rest = true} := by
    ext r
    simp only [claimants, Set.mem_union, Set.mem_ofPred_eq, hidx.unanalyzed, hidx.reaches,
      mem_patternEntries, claims_iff, ← and_or_left]
    refine and_congr_right fun _ => ⟨?_, ?_⟩
    · rintro ⟨patterns, hget, pattern, hpattern, hnone | ⟨segments, hparse, hmatches⟩⟩
      · exact .inl ⟨pattern, ⟨patterns, hget, hpattern⟩, hnone⟩
      · obtain ⟨rest, hrest, hmatch⟩ := (patternMatches_iff hparse).mp ⟨segments, hparse, hmatches⟩
        exact .inr ⟨rest, hrest, segments, ⟨pattern, ⟨patterns, hget, hpattern⟩, hparse⟩, hmatch⟩
    · rintro (⟨pattern, ⟨patterns, hget, hpattern⟩, hnone⟩ |
        ⟨rest, hrest, segments, ⟨pattern, ⟨patterns, hget, hpattern⟩, hparse⟩, hmatch⟩)
      · exact ⟨patterns, hget, pattern, hpattern, .inl hnone⟩
      · exact ⟨patterns, hget, pattern, hpattern,
          .inr ((patternMatches_iff hparse).mpr ⟨rest, hrest, hmatch⟩)⟩
  rw [hclaims, Index.candidate]
  cases hpath : afterSlash (asBytes path) with
  | none =>
    have hnoRest : ∀ rest, asBytes path ≠ slash :: rest := by
      intro rest hrest
      rw [afterSlash_eq_some.mpr hrest] at hpath
      cases hpath
    simpa [hnoRest] using hunanalyzed
  | some rest =>
    have hmatching : LeastOf (_ ∪ (Index.new routers).root.matching rest start)
        ((Index.new routers).root.collect rest start _) := collect_leastOf hidx.root hunanalyzed
    rw [afterSlash_eq_some] at hpath
    simpa [hpath, Node.matching] using hmatching

/-- The index of routers answers as a search through all of them would, and asking it again
behind each answer lists the routers that must be asked, in ascending order and each once. -/
theorem route_index_is_a_linear_scan (routers : List (List String)) (path : String) :
    (∀ start, LeastOf (claimants routers path start) ((Index.new routers).candidate path start)) ∧
    ∀ fuel, routers.length ≤ fuel →
      enumerate ((Index.new routers).candidate path) fuel 0 =
        (List.range routers.length).filter fun r => routers[r]?.any (claims · path) := by
  refine ⟨candidate_leastOf routers path, fun fuel hfuel => ?_⟩
  have hnext : ∀ start, LeastOf {r | start ≤ r ∧ r < routers.length ∧
      routers[r]?.any (claims · path) = true} ((Index.new routers).candidate path start) := by
    intro start
    have hsame : {r | start ≤ r ∧ r < routers.length ∧ routers[r]?.any (claims · path) = true} =
        claimants routers path start := by
      ext r
      simp only [claimants, Set.mem_ofPred_eq, Option.any_eq_true]
      refine and_congr_right fun _ => ⟨fun h => h.2, fun h => ⟨?_, h⟩⟩
      obtain ⟨patterns, hget, -⟩ := h
      exact (List.getElem?_eq_some_iff.mp hget).1
    rw [hsame]
    exact candidate_leastOf routers path start
  rw [enumerate_eq hnext (by omega)]
  simp

end Batter.Axum
