import Batter.Library.Worklist

/-!
# Roles that a login can become

`potentialReachability` asks which roles a login can activate, which roles' rights it
has, and which memberships it can grant.  An active role sets others, a capability
inherits others, and a role that may create roles manages all below it; who has a
membership with the admin option can grant the role back to the login, which makes it
active again.

`RoleGraph.Closed` states the rules.  The search works through three queues, and what
it has reached is the least closure (`role_reachability_is_the_least_closure`).
-/

namespace Batter.Verification

open Worklist List

abbrev Oid := ℤ

structure RoleInfo where
  oid : Oid
  name : String
  superuser : Bool
  createrole : Bool

structure Membership where
  role : Oid
  member : Oid
  admin : Bool
  inherit : Bool
  set : Bool

/-- The part of a role graph that the search reads. -/
structure RoleGraph where
  roles : List RoleInfo
  memberships : List Membership
  databaseOwner : Oid
  databaseOwnerRole : Option Oid

def RoleGraph.new (roles : List RoleInfo) (memberships : List Membership)
    (databaseOwner : Oid) : RoleGraph :=
  ⟨roles, memberships, databaseOwner,
    (roles.find? (·.name == "pg_database_owner")).map RoleInfo.oid⟩

/-- What a role can be reached as: each has a set and a queue of its own. -/
inductive Reach
  | active | capability | management
  deriving DecidableEq

/-- The queues as the loops come to them, from the one at hand. -/
def Reach.order : Reach → List Reach
  | .active => [.active, .capability, .management]
  | .capability => [.capability, .management, .active]
  | .management => [.management, .active, .capability]

structure Search where
  reached : Reach → List Oid
  adminTargets : List Oid
  queue : Reach → List Oid

def Search.push (kind : Reach) (oids : List Oid) (s : Search) : Search :=
  { s with queue := Function.update s.queue kind (s.queue kind ++ oids) }

namespace RoleGraph

variable (graph : RoleGraph)

/-- The role of an oid; in a map the last one counts. -/
def role (oid : Oid) : Option RoleInfo :=
  graph.roles.reverse.find? (·.oid = oid)

def membershipsByMember (member : Oid) : List Membership :=
  graph.memberships.filter (·.member = member)

def usableAdminTarget (oid : Oid) : Bool :=
  (graph.role oid).any (!·.superuser)

/-- `pg_database_owner`, for the owner of the database. -/
def ownerRole (member : Oid) : List Oid :=
  if member = graph.databaseOwner then graph.databaseOwnerRole.toList else []

/-- Goes through one membership of a capability or of a managed role. -/
def followEdge (kind : Reach) (follows : Membership → Bool) (s : Search) (edge : Membership) :
    Search :=
  let s := if follows edge then s.push kind [edge.role] else s
  if edge.admin && graph.usableAdminTarget edge.role && decide (edge.role ∉ s.adminTargets) then
    -- The holder can grant this target back to the login.
    { s with adminTargets := edge.role :: s.adminTargets }.push .active [edge.role]
  else s

/-- Works on a role that was taken from a queue. -/
def visit (kind : Reach) (member : Oid) (s : Search) : Search :=
  if member ∈ s.reached kind then s
  else
    let s := { s with reached := Function.update s.reached kind (member :: s.reached kind) }
    let edges := graph.membershipsByMember member
    match kind with
    | .active =>
      ((s.push .capability [member]).push .management
        (if (graph.role member).any RoleInfo.createrole then [member] else [])).push .active
          (graph.ownerRole member ++ (edges.filter Membership.set).map Membership.role)
    | .capability =>
      edges.foldl (graph.followEdge .capability Membership.inherit)
        (s.push .capability (graph.ownerRole member))
    | .management =>
      edges.foldl (graph.followEdge .management fun _ => true)
        (s.push .management (graph.ownerRole member))

/-- One turn: a queue is emptied before the next one, until all of them are empty. -/
def turn : Reach × Search → Option (Reach × Search)
  | (kind, s) => kind.order.findSome? fun kind =>
    match s.queue kind with
    | [] => none
    | member :: rest =>
      some (kind, graph.visit kind member { s with queue := Function.update s.queue kind rest })

/-- The active roles, the capabilities and the admin targets; nothing without enough fuel. -/
def potentialReachability (root : Oid) (fuel : ℕ) : Option (List Oid × List Oid × List Oid) :=
  (loop graph.turn fuel
    (.active, ⟨fun _ => [], [], Function.update (fun _ => []) .active [root]⟩)).map
    fun s => (s.2.reached .active, s.2.reached .capability, s.2.adminTargets)

end RoleGraph

section Search

variable {graph : RoleGraph} {root : Oid}

/-- What the search finds out about a role. -/
inductive Fact
  | reached (kind : Reach) (oid : Oid)
  | adminTarget (oid : Oid)
  deriving DecidableEq

/-- What follows from a fact at once. -/
def RoleGraph.consequences (graph : RoleGraph) : Fact → List Fact
  | .reached .active oid =>
    .reached .capability oid ::
      (if (graph.role oid).any RoleInfo.createrole then [.reached .management oid] else []) ++
      (graph.ownerRole oid ++
        ((graph.membershipsByMember oid).filter Membership.set).map Membership.role).map
          (.reached .active)
  | .reached kind oid =>
    (graph.ownerRole oid).map (.reached kind) ++
      ((graph.membershipsByMember oid).filter fun edge =>
        decide (kind = .management) || edge.inherit).map (.reached kind ·.role) ++
      ((graph.membershipsByMember oid).filter fun edge =>
        edge.admin && graph.usableAdminTarget edge.role).map (.adminTarget ·.role)
  | .adminTarget oid => [.reached .active oid]

/-- Facts that contain the root and what follows from them. -/
def RoleGraph.Closed (graph : RoleGraph) (root : Oid) (X : Fact → Prop) : Prop :=
  X (.reached .active root) ∧ ∀ a, X a → ∀ b ∈ graph.consequences a, X b

/-- The root and what follows from it. -/
def RoleGraph.Derived (graph : RoleGraph) (root : Oid) : Fact → Prop :=
  Relation.ReflTransGen (fun a b => b ∈ graph.consequences a) (.reached .active root)

def Search.Seen (s : Search) : Fact → Prop
  | .reached kind oid => oid ∈ s.reached kind
  | .adminTarget oid => oid ∈ s.adminTargets

instance (s : Search) : DecidablePred s.Seen
  | .reached kind oid => inferInstanceAs (Decidable (oid ∈ s.reached kind))
  | .adminTarget oid => inferInstanceAs (Decidable (oid ∈ s.adminTargets))

def Search.Pending (s : Search) : Fact → Prop
  | .reached kind oid => oid ∈ s.queue kind
  | .adminTarget _ => False

variable {kind : Reach} {member : Oid} {s : Search}

@[simp]
theorem Search.mem_push {other : Reach} {oids : List Oid} {oid : Oid} :
    oid ∈ (s.push kind oids).queue other ↔ oid ∈ s.queue other ∨ (other = kind ∧ oid ∈ oids) := by
  by_cases h : other = kind
  · subst h
    simp [Search.push]
  · simp [Search.push, h]

/-- Once a member is reached, the member itself is all that is new. -/
theorem Search.mem_reach {other : Reach} {oid : Oid} {P : Fact → Prop} :
    oid ∈ Function.update s.reached kind (member :: s.reached kind) other ↔
      s.Seen (.reached other oid) ∨ Fact.reached other oid = .reached kind member ∨
        ∃ target, Fact.reached other oid = .adminTarget target ∧ P (.reached other oid) := by
  by_cases h : other = kind
  · subst h
    simp [Search.Seen, or_comm]
  · simp [Search.Seen, h]

/-- The membership lets its holder grant the role. -/
def RoleGraph.Grants (graph : RoleGraph) (edge : Membership) (oid : Oid) : Prop :=
  (edge.admin && graph.usableAdminTarget edge.role) = true ∧ edge.role = oid

theorem followEdge_spec
    (kind : Reach) (follows : Membership → Bool) (s : Search) (edge : Membership) :
    (graph.followEdge kind follows s edge).reached = s.reached ∧
    (∀ oid, oid ∈ (graph.followEdge kind follows s edge).adminTargets ↔
      oid ∈ s.adminTargets ∨ graph.Grants edge oid) ∧
    ∀ other oid, oid ∈ (graph.followEdge kind follows s edge).queue other ↔
      oid ∈ s.queue other ∨ (other = kind ∧ follows edge = true ∧ edge.role = oid) ∨
        (other = .active ∧ oid ∉ s.adminTargets ∧ graph.Grants edge oid) := by
  unfold RoleGraph.followEdge RoleGraph.Grants
  dsimp only
  generalize hpushed : (if follows edge then s.push kind [edge.role] else s) = pushed
  have htargets : pushed.adminTargets = s.adminTargets := by
    rw [← hpushed]
    split_ifs <;> rfl
  have hreached : pushed.reached = s.reached := by
    rw [← hpushed]
    split_ifs <;> rfl
  have hqueue : ∀ other oid, oid ∈ pushed.queue other ↔
      oid ∈ s.queue other ∨ (other = kind ∧ follows edge = true ∧ edge.role = oid) := by
    intro other oid
    rw [← hpushed]
    split_ifs with h
    · rw [Search.mem_push, mem_singleton, eq_comm (a := oid)]
      simp [h]
    · simp [h]
  rw [htargets]
  split_ifs with h
  · refine ⟨hreached, fun oid => ?_, fun other oid => ?_⟩
    · grind [Search.push]
    · rw [Search.mem_push]
      grind
  · refine ⟨hreached, fun oid => ?_, fun other oid => ?_⟩
    · grind
    · grind

/-- The memberships of a role in turn. -/
theorem foldl_followEdge
    (kind : Reach) (follows : Membership → Bool) (edges : List Membership) (s : Search) :
    (edges.foldl (graph.followEdge kind follows) s).reached = s.reached ∧
    (∀ oid, oid ∈ (edges.foldl (graph.followEdge kind follows) s).adminTargets ↔
      oid ∈ s.adminTargets ∨ ∃ edge ∈ edges, graph.Grants edge oid) ∧
    ∀ other oid, oid ∈ (edges.foldl (graph.followEdge kind follows) s).queue other ↔
      oid ∈ s.queue other ∨ (other = kind ∧ ∃ edge ∈ edges, follows edge = true ∧ edge.role = oid) ∨
        (other = .active ∧ oid ∉ s.adminTargets ∧ ∃ edge ∈ edges, graph.Grants edge oid) := by
  induction edges generalizing s with
  | nil => simp
  | cons edge edges ih =>
    obtain ⟨hreached, htargets, hqueue⟩ := ih (graph.followEdge kind follows s edge)
    obtain ⟨hreached', htargets', hqueue'⟩ := @followEdge_spec graph kind follows s edge
    simp only [foldl_cons, hreached, htargets, hqueue, hreached', htargets', hqueue',
      mem_cons, exists_eq_or_imp]
    refine ⟨trivial, fun oid => or_assoc, fun other oid => ?_⟩
    grind

/-- What a visit of a new role does to a search. -/
structure Visited (graph : RoleGraph) (a : Fact) (s s' : Search) : Prop where
  seen : ∀ b, s'.Seen b ↔ s.Seen b ∨ b = a ∨ ∃ oid, b = .adminTarget oid ∧ b ∈ graph.consequences a
  keeps : ∀ b, s.Pending b → s'.Pending b
  adds : ∀ b, s'.Pending b → s.Pending b ∨ b ∈ graph.consequences a ∨
    ∃ oid, .adminTarget oid ∈ graph.consequences a ∧ b = .reached .active oid
  follows : ∀ b ∈ graph.consequences a, s'.Seen b ∨ s'.Pending b
  grants : ∀ oid, .adminTarget oid ∈ graph.consequences a → ¬ s.Seen (.adminTarget oid) →
    s'.Pending (.reached .active oid)

theorem foldl_visited {follows : Membership → Bool} (hkind : kind ≠ .active)
    (hfollows : ∀ edge, follows edge = (decide (kind = .management) || edge.inherit)) :
    Visited graph (.reached kind member) s
      ((graph.membershipsByMember member).foldl (graph.followEdge kind follows)
        (Search.push kind (graph.ownerRole member)
          { s with reached := Function.update s.reached kind (member :: s.reached kind) })) := by
  obtain ⟨hreached, htargets, hqueue⟩ := @foldl_followEdge graph kind follows
    (graph.membershipsByMember member) (Search.push kind (graph.ownerRole member)
      { s with reached := Function.update s.reached kind (member :: s.reached kind) })
  have hconsequences : ∀ b, b ∈ graph.consequences (.reached kind member) ↔
      (∃ oid ∈ graph.ownerRole member, b = .reached kind oid) ∨
      (∃ edge ∈ graph.membershipsByMember member, follows edge = true ∧
        b = .reached kind edge.role) ∨
      ∃ oid, (∃ edge ∈ graph.membershipsByMember member, graph.Grants edge oid) ∧
        b = .adminTarget oid := by
    intro b
    cases kind with
    | active => exact absurd rfl hkind
    | capability | management =>
      simp [RoleGraph.consequences, RoleGraph.Grants, hfollows]
      grind
  refine ⟨fun b => ?_, fun b hb => ?_, fun b hb => ?_, fun b hb => ?_, fun oid hgrant hnew => ?_⟩
  · cases b with
    | reached other oid =>
      rw [Search.Seen, hreached]
      exact Search.mem_reach
    | adminTarget oid =>
      rw [Search.Seen, htargets, hconsequences]
      simp [Search.Seen, Search.push]
  · cases b with
    | reached other oid => exact (hqueue _ _).mpr (.inl (Search.mem_push.mpr (.inl hb)))
    | adminTarget oid => exact hb
  · cases b with
    | adminTarget oid => exact hb.elim
    | reached other oid =>
      rcases (hqueue other oid).mp hb with hold | ⟨rfl, edge, hedge, hfollow, rfl⟩ |
        ⟨rfl, -, hgrants⟩
      · rcases Search.mem_push.mp hold with hold | ⟨rfl, howner⟩
        · exact .inl hold
        · exact .inr (.inl ((hconsequences _).mpr (.inl ⟨oid, howner, rfl⟩)))
      · exact .inr (.inl ((hconsequences _).mpr (.inr (.inl ⟨edge, hedge, hfollow, rfl⟩))))
      · exact .inr (.inr ⟨oid, (hconsequences _).mpr (.inr (.inr ⟨oid, hgrants, rfl⟩)), rfl⟩)
  · rcases (hconsequences b).mp hb with ⟨oid, howner, rfl⟩ | ⟨edge, hedge, hfollow, rfl⟩ |
      ⟨oid, hgrants, rfl⟩
    · exact .inr ((hqueue _ _).mpr (.inl (Search.mem_push.mpr (.inr ⟨rfl, howner⟩))))
    · exact .inr ((hqueue _ _).mpr (.inr (.inl ⟨rfl, edge, hedge, hfollow, rfl⟩)))
    · exact .inl ((htargets oid).mpr (.inr hgrants))
  · obtain ⟨_, _, heq⟩ | ⟨_, _, _, heq⟩ | ⟨_, hgrants, heq⟩ := (hconsequences _).mp hgrant
    · cases heq
    · cases heq
    · cases heq
      exact (hqueue _ _).mpr (.inr (.inr ⟨rfl, hnew, hgrants⟩))

theorem visit_visited (hnew : member ∉ s.reached kind) :
    Visited graph (.reached kind member) s (graph.visit kind member s) := by
  simp only [RoleGraph.visit, if_neg hnew]
  cases kind with
  | active =>
    have hqueue : ∀ other oid, .reached other oid ∈ graph.consequences (.reached .active member) ↔
        (other = .capability ∧ oid ∈ [member]) ∨
        (other = .management ∧
          oid ∈ if (graph.role member).any RoleInfo.createrole then [member] else []) ∨
        (other = .active ∧ oid ∈ graph.ownerRole member ++
          ((graph.membershipsByMember member).filter Membership.set).map Membership.role) := by
      intro other oid
      simp [RoleGraph.consequences]
      grind
    have hnone : ∀ oid, .adminTarget oid ∉ graph.consequences (.reached .active member) := by
      intro oid
      simp [RoleGraph.consequences]
    refine ⟨fun b => ?_, fun b hb => ?_, fun b hb => ?_, fun b hb => ?_,
      fun oid hgrant => absurd hgrant (hnone oid)⟩
    · cases b with
      | reached other oid => exact Search.mem_reach
      | adminTarget oid => simp [Search.Seen, Search.push, hnone]
    · cases b with
      | reached other oid =>
        simp only [Search.Pending, Search.mem_push]
        exact .inl (.inl (.inl hb))
      | adminTarget oid => exact hb
    · cases b with
      | reached other oid =>
        simp only [Search.Pending, Search.mem_push, or_assoc] at hb
        exact hb.imp_right fun hpushed => .inl ((hqueue other oid).mpr hpushed)
      | adminTarget oid => exact hb.elim
    · cases b with
      | reached other oid =>
        simp only [Search.Pending, Search.mem_push, or_assoc]
        exact .inr (.inr ((hqueue other oid).mp hb))
      | adminTarget oid => exact absurd hb (hnone oid)
  | capability => exact foldl_visited (by simp) (by simp)
  | management => exact foldl_visited (by simp) (by simp)

/-- The search from the root is explored so far. -/
def Exploring (graph : RoleGraph) (root : Oid) (s : Search) : Prop :=
  Explored (fun a b => b ∈ graph.consequences a) (.reached .active root) s.Seen s.Pending

/-- A visit of a pending role goes on with the search. -/
theorem Exploring.visit {rest : List Oid} (h : Exploring graph root s)
    (hqueue : s.queue kind = member :: rest) :
    Exploring graph root
      (graph.visit kind member { s with queue := Function.update s.queue kind rest }) := by
  have hpend : ∀ b, s.Pending b ↔ b = .reached kind member ∨
      Search.Pending { s with queue := Function.update s.queue kind rest } b := by
    intro b
    cases b with
    | adminTarget oid => simp [Search.Pending]
    | reached other oid =>
      by_cases hother : other = kind
      · subst hother
        simp [Search.Pending, hqueue]
      · simp [Search.Pending, hother]
  have hderived := h.sound _ (.inr ((hpend _).mpr (.inl rfl)))
  by_cases hseen : member ∈ s.reached kind
  · rw [RoleGraph.visit, if_pos hseen]
    refine h.advance (fun b hb => ?_) (fun b hb => h.sound b ?_) fun b hb hnot => absurd hb hnot
    · rcases hb with hb | hb
      · exact .inl hb
      · rcases (hpend b).mp hb with rfl | hb
        · exact .inl hseen
        · exact .inr hb
    · exact hb.imp_right fun hb => (hpend b).mpr (.inr hb)
  · have hvisited := @visit_visited graph kind member
      { s with queue := Function.update s.queue kind rest } hseen
    refine h.advance (fun b hb => ?_) (fun b hb => ?_) fun b hb hnot c hc => ?_
    · rcases hb with hb | hb
      · exact .inl ((hvisited.seen b).mpr (.inl hb))
      · rcases (hpend b).mp hb with rfl | hb
        · exact .inl ((hvisited.seen _).mpr (.inr (.inl rfl)))
        · exact .inr (hvisited.keeps b hb)
    · rcases hb with hb | hb
      · rcases (hvisited.seen b).mp hb with hb | rfl | ⟨_, _, hb⟩
        · exact h.sound b (.inl hb)
        · exact hderived
        · exact hderived.tail hb
      · rcases hvisited.adds b hb with hb | hb | ⟨oid, htgt, rfl⟩
        · exact h.sound b (.inr ((hpend b).mpr (.inr hb)))
        · exact hderived.tail hb
        · exact (hderived.tail htgt).tail (mem_singleton_self _)
    · rcases (hvisited.seen b).mp hb with hb | rfl | ⟨oid, rfl, hb⟩
      · exact absurd hb hnot
      · exact hvisited.follows c hc
      · rw [mem_singleton.mp hc]
        exact .inr (hvisited.grants oid hb hnot)

/-- The roles that a search can come to. -/
def RoleGraph.oids (graph : RoleGraph) (root : Oid) : List Oid :=
  root :: graph.databaseOwnerRole.toList ++ graph.memberships.map Membership.role

def RoleGraph.facts (graph : RoleGraph) (root : Oid) : Finset Fact :=
  ((graph.oids root).flatMap fun oid => [.adminTarget oid, .reached .active oid,
    .reached .capability oid, .reached .management oid]).toFinset

def Fact.oid : Fact → Oid
  | .reached _ oid | .adminTarget oid => oid

theorem mem_facts {a : Fact} : a ∈ graph.facts root ↔ a.oid ∈ graph.oids root := by
  simp only [RoleGraph.facts, mem_toFinset, mem_flatMap]
  cases a with
  | adminTarget oid => simp [Fact.oid]
  | reached kind oid => cases kind <;> simp [Fact.oid]

/-- All that is derived is one of finitely many facts. -/
theorem mem_facts_of_derived {a : Fact} (h : graph.Derived root a) : a ∈ graph.facts root := by
  induction h with
  | refl => simp [mem_facts, RoleGraph.oids, Fact.oid]
  | @tail a b _ hb ih =>
    rw [mem_facts] at ih ⊢
    have howner : ∀ member, ∀ oid ∈ graph.ownerRole member, oid ∈ graph.oids root := by
      intro member oid hoid
      rw [RoleGraph.ownerRole] at hoid
      split_ifs at hoid
      · simp [RoleGraph.oids, Option.mem_toList.mp hoid]
      · cases hoid
    have hedge : ∀ member, ∀ edge ∈ graph.membershipsByMember member,
        edge.role ∈ graph.oids root := by
      intro member edge hedge
      have hmem := mem_of_mem_filter hedge
      simpa [RoleGraph.oids] using .inr (.inr ⟨edge, hmem, rfl⟩)
    cases a with
    | adminTarget oid => exact mem_singleton.mp hb ▸ ih
    | reached kind oid => cases kind <;> simp [RoleGraph.consequences] at hb <;> grind [Fact.oid]

/-- The facts that the search has not seen. -/
def unseen (graph : RoleGraph) (root : Oid) (s : Search) : ℕ :=
  ((graph.facts root).filter fun a => ¬ s.Seen a).card

def progress (graph : RoleGraph) (root : Oid) (s : Search) : ℕ ×ₗ ℕ :=
  toLex (unseen graph root s, (s.queue .active).length + (s.queue .capability).length +
    (s.queue .management).length)

theorem Exploring.visit_progress {rest : List Oid} (h : Exploring graph root s)
    (hqueue : s.queue kind = member :: rest) :
    progress graph root
        (graph.visit kind member { s with queue := Function.update s.queue kind rest }) <
      progress graph root s := by
  by_cases hseen : member ∈ s.reached kind
  · rw [RoleGraph.visit, if_pos hseen]
    refine Prod.Lex.toLex_lt_toLex.mpr (.inr ⟨rfl, ?_⟩)
    cases kind <;> simp [hqueue]
  · have hvisited := @visit_visited graph kind member
      { s with queue := Function.update s.queue kind rest } hseen
    refine Prod.Lex.toLex_lt_toLex.mpr (.inl ?_)
    change unseen graph root _ < unseen graph root s
    refine Finset.card_lt_card (Finset.ssubset_iff_subset_ne.mpr ⟨?_, ?_⟩)
    · intro b hb
      rw [Finset.mem_filter] at hb ⊢
      exact ⟨hb.1, fun hold => hb.2 ((hvisited.seen b).mpr (.inl hold))⟩
    · intro heq
      have hmem : Fact.reached kind member ∈ graph.facts root :=
        mem_facts_of_derived (h.sound _ (.inr (by simp [Search.Pending, hqueue])))
      have hin : Fact.reached kind member ∈ (graph.facts root).filter fun a => ¬ s.Seen a :=
        Finset.mem_filter.mpr ⟨hmem, hseen⟩
      rw [← heq, Finset.mem_filter] at hin
      exact hin.2 ((hvisited.seen _).mpr (.inr (.inl rfl)))

/-- Every turn goes on with the search and makes progress. -/
theorem Exploring.turn {p p' : Reach × Search} (h : Exploring graph root p.2)
    (hturn : graph.turn p = some p') :
    Exploring graph root p'.2 ∧ progress graph root p'.2 < progress graph root p.2 := by
  obtain ⟨kind, _, hfound⟩ := exists_of_findSome?_eq_some hturn
  cases hqueue : p.2.queue kind with
  | nil => simp [hqueue] at hfound
  | cons member rest =>
    obtain rfl : _ = p' := by simpa [hqueue] using hfound
    exact ⟨h.visit hqueue, h.visit_progress hqueue⟩

/-- A search without another turn has nothing pending. -/
theorem not_pending_of_turn {p : Reach × Search} (hturn : graph.turn p = none) (a : Fact) :
    ¬ p.2.Pending a := by
  have hempty : ∀ kind, p.2.queue kind = [] := by
    intro kind
    have hmem : kind ∈ p.1.order := by cases p.1 <;> cases kind <;> simp [Reach.order]
    have hnone := findSome?_eq_none_iff.mp hturn kind hmem
    split at hnone
    · assumption
    · cases hnone
  cases a <;> simp [Search.Pending, hempty]

end Search

/-- The search ends with what is derived from the root. -/
theorem potentialReachability_derived (graph : RoleGraph) (root : Oid) :
    ∃ bound result, (∀ fuel, bound ≤ fuel → graph.potentialReachability root fuel = some result) ∧
      ∀ oid, (oid ∈ result.1 ↔ graph.Derived root (.reached .active oid)) ∧
        (oid ∈ result.2.1 ↔ graph.Derived root (.reached .capability oid)) ∧
        (oid ∈ result.2.2 ↔ graph.Derived root (.adminTarget oid)) := by
  have hinit : Exploring graph root
      ⟨fun _ => [], [], Function.update (fun _ => []) .active [root]⟩ := by
    refine ⟨.inr (by simp [Search.Pending]), fun a ha => ?_, fun a ha => ?_⟩
    · cases a with
      | adminTarget oid => simp [Search.Seen, Search.Pending] at ha
      | reached kind oid =>
        cases kind <;> simp [Search.Seen, Search.Pending] at ha
        rw [ha]
    · cases a <;> simp [Search.Seen] at ha
  obtain ⟨⟨kind, s⟩, hend, hlast, bound, hbound⟩ := loop_total
    (fun p : Reach × Search => Exploring graph root p.2) (fun p => progress graph root p.2)
    (fun p p' => Exploring.turn) (s := (Reach.active, _)) hinit
  have hseen : ∀ a, s.Seen a ↔ graph.Derived root a := fun a =>
    Explored.seen_iff hend (not_pending_of_turn hlast)
  refine ⟨bound, (s.reached .active, s.reached .capability, s.adminTargets), fun fuel hfuel => ?_,
    fun oid => ⟨hseen (.reached .active oid), hseen (.reached .capability oid),
      hseen (.adminTarget oid)⟩⟩
  rw [RoleGraph.potentialReachability, hbound fuel hfuel]
  rfl

theorem derived_closed_least (graph : RoleGraph) (root : Oid) :
    graph.Closed root (graph.Derived root) ∧
      ∀ X, graph.Closed root X → ∀ a, graph.Derived root a → X a := by
  refine ⟨⟨.refl, fun a ha b hb => ha.tail hb⟩, fun X hX a ha => ?_⟩
  induction ha with
  | refl => exact hX.1
  | tail _ hb ih => exact hX.2 _ ih _ hb

/-- Roles with different oids are found by their oid, in whatever order they are listed. -/
theorem role_eq_some
    {roles : List RoleInfo} {memberships : List Membership} {databaseOwner oid : Oid}
    {role : RoleInfo} (hdist : (roles.map RoleInfo.oid).Nodup) :
    (RoleGraph.new roles memberships databaseOwner).role oid = some role ↔
      role ∈ roles ∧ role.oid = oid := by
  constructor
  · intro h
    exact ⟨mem_reverse.mp (mem_of_find?_eq_some h), by simpa using find?_some h⟩
  · rintro ⟨hmem, rfl⟩
    obtain ⟨found, hfound⟩ : ∃ found,
        (RoleGraph.new roles memberships databaseOwner).role role.oid = some found := by
      rw [← Option.isSome_iff_exists, RoleGraph.role, find?_isSome]
      exact ⟨role, mem_reverse.mpr hmem, by simp⟩
    have hsame := inj_on_of_nodup_map hdist
      (mem_reverse.mp (mem_of_find?_eq_some hfound)) hmem
      (by simpa using find?_some hfound)
    rw [hfound, hsame]

/-- A single role with a name is found in whatever order the roles are listed. -/
theorem find?_perm {roles roles' : List RoleInfo} {p : RoleInfo → Bool} (h : roles.Perm roles')
    (hone : (roles.filter p).length ≤ 1) : roles'.find? p = roles.find? p := by
  have hperm := h.filter p
  rw [← head?_filter, ← head?_filter]
  cases hfilter : roles.filter p with
  | nil =>
    rw [hfilter] at hperm
    rw [hperm.nil_eq]
  | cons role rest =>
    rw [hfilter, length_cons] at hone
    obtain rfl := length_eq_zero_iff.mp (by omega : rest.length = 0)
    rw [hfilter] at hperm
    rw [perm_singleton.mp hperm.symm]

/-- The search ends with the least sets that the rules allow: the active roles, the capabilities
and the admin targets, which are the roles that someone reached can grant.  It does not matter in
which order roles and memberships are listed, as long as one role at most is called
`pg_database_owner`. -/
theorem role_reachability_is_the_least_closure
    (roles : List RoleInfo) (memberships : List Membership) (databaseOwner root : Oid) :
    let graph := RoleGraph.new roles memberships databaseOwner
    (∃ X : Fact → Prop, (graph.Closed root X ∧ ∀ Y, graph.Closed root Y → ∀ a, X a → Y a) ∧
      (∀ oid, X (.adminTarget oid) ↔ graph.usableAdminTarget oid = true ∧
        ∃ edge ∈ memberships, edge.admin = true ∧ edge.role = oid ∧
          (X (.reached .capability edge.member) ∨ X (.reached .management edge.member))) ∧
      ∃ bound result, (∀ fuel, bound ≤ fuel →
          graph.potentialReachability root fuel = some result) ∧
        ∀ oid, (oid ∈ result.1 ↔ X (.reached .active oid)) ∧
          (oid ∈ result.2.1 ↔ X (.reached .capability oid)) ∧
          (oid ∈ result.2.2 ↔ X (.adminTarget oid))) ∧
    ∀ roles' memberships', (roles.map RoleInfo.oid).Nodup →
      (roles.filter (·.name == "pg_database_owner")).length ≤ 1 → roles.Perm roles' →
      memberships.Perm memberships' →
      let graph' := RoleGraph.new roles' memberships' databaseOwner
      ∃ bound result result', (∀ fuel, bound ≤ fuel →
          graph.potentialReachability root fuel = some result ∧
          graph'.potentialReachability root fuel = some result') ∧
        ∀ oid, (oid ∈ result'.1 ↔ oid ∈ result.1) ∧ (oid ∈ result'.2.1 ↔ oid ∈ result.2.1) ∧
          (oid ∈ result'.2.2 ↔ oid ∈ result.2.2) := by
  intro graph
  obtain ⟨bound, result, hres, hderived⟩ := potentialReachability_derived graph root
  refine ⟨⟨graph.Derived root, derived_closed_least graph root, fun oid => ⟨fun h => ?_, ?_⟩, bound,
    result, hres, hderived⟩, ?_⟩
  · cases h with
    | @tail a _ ha hb =>
      cases a with
      | adminTarget => simp [RoleGraph.consequences] at hb
      | reached kind member =>
        cases kind <;>
          simp [RoleGraph.consequences, RoleGraph.membershipsByMember] at hb
        · obtain ⟨edge, ⟨hedge, ⟨hadmin, husable⟩, rfl⟩, rfl⟩ := hb
          exact ⟨husable, edge, hedge, hadmin, rfl, Or.inl ha⟩
        · obtain ⟨edge, ⟨hedge, ⟨hadmin, husable⟩, rfl⟩, rfl⟩ := hb
          exact ⟨husable, edge, hedge, hadmin, rfl, Or.inr ha⟩
  · rintro ⟨husable, edge, hedge, hadmin, rfl, h | h⟩ <;>
      exact h.tail (by
        simpa [RoleGraph.consequences, RoleGraph.membershipsByMember] using
          ⟨edge, ⟨hedge, ⟨hadmin, husable⟩, rfl⟩, rfl⟩)
  · intro roles' memberships' hdist hone hroles hmemberships graph'
    have howner : graph'.databaseOwnerRole = graph.databaseOwnerRole :=
      congrArg (Option.map RoleInfo.oid) (find?_perm hroles hone)
    have hrole : graph'.role = graph.role := by
      funext oid
      ext role
      rw [role_eq_some hdist, role_eq_some ((hroles.map _).nodup_iff.mp hdist), hroles.mem_iff]
    have hedges : ∀ member edge, edge ∈ graph'.membershipsByMember member ↔
        edge ∈ graph.membershipsByMember member :=
      fun member edge => (hmemberships.filter _).mem_iff.symm
    have hderives : graph'.Derived root = graph.Derived root := by
      have howners : graph'.ownerRole = graph.ownerRole := by
        funext member
        rw [RoleGraph.ownerRole, howner]
        rfl
      have husable : graph'.usableAdminTarget = graph.usableAdminTarget := by
        funext oid
        rw [RoleGraph.usableAdminTarget, hrole]
        rfl
      have hconsequences : ∀ a b, b ∈ graph'.consequences a ↔ b ∈ graph.consequences a := by
        rintro (⟨_ | _ | _, oid⟩ | oid) b <;>
          simp [RoleGraph.consequences, hrole, howners, husable, hedges]
      simp only [RoleGraph.Derived, hconsequences]
    obtain ⟨bound', result', hres', hderived'⟩ := potentialReachability_derived graph' root
    rw [hderives] at hderived'
    refine ⟨max bound bound', result, result', fun fuel hfuel => ⟨hres fuel (by omega),
      hres' fuel (by omega)⟩, fun oid => ?_⟩
    obtain ⟨hact, hcapability, htgt⟩ := hderived oid
    obtain ⟨hact', hcapability', htgt'⟩ := hderived' oid
    exact ⟨hact'.trans hact.symm, hcapability'.trans hcapability.symm, htgt'.trans htgt.symm⟩

/-- With two roles called `pg_database_owner`, the one that is listed first is the one that the
owner of the database becomes. -/
theorem listing_order_decides_the_owner_role :
    let roles := [⟨1, "app", false, false⟩, ⟨2, "pg_database_owner", false, false⟩,
      ⟨3, "pg_database_owner", false, false⟩]
    (roles.map RoleInfo.oid).Nodup ∧ roles.Perm roles.reverse ∧
      ∀ fuel, 6 ≤ fuel →
        (RoleGraph.new roles [] 1).potentialReachability 1 fuel = some ([2, 1], [2, 1], []) ∧
        (RoleGraph.new roles.reverse [] 1).potentialReachability 1 fuel =
          some ([3, 1], [3, 1], []) := by
  refine ⟨by decide, (reverse_perm _).symm, fun fuel hfuel => ?_⟩
  obtain ⟨fuel, rfl⟩ := Nat.exists_eq_add_of_le' hfuel
  exact ⟨rfl, rfl⟩

end Batter.Verification
