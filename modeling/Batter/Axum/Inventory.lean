import Batter.Axum.Index

/-!
# Route groups without a common path

Groups of routes are composed only if no patterns of two of them match one path.  A path
constructed for two patterns has to be confirmed by native routing.
-/

namespace Batter.Axum

open Bytes List

/-- What Axum answers: the path of a request for a path, and whether a pattern alone routes it.
A path that travels verbatim is routed by the rules of the pattern. -/
structure NativeRouting where
  inspection : String → Option String
  reportsMatch : String → String → Bool
  routes : ∀ pattern path, inspection path = some path → PatternMatches pattern (asBytes path) →
    reportsMatch pattern path = true

namespace NativeRouting

variable (native : NativeRouting)

/-- Confirms a path, and fails closed when no request can carry it. -/
def witnessed (first second path : String) : Bool :=
  native.inspection path ≠ some path ||
    native.reportsMatch first path && native.reportsMatch second path

def sharePath (first second : List String) : Bool :=
  first.any fun first => second.any fun second =>
    match sharedPath first second with
    | .disjoint => false
    | .unanalyzed => true
    | .witness path => native.witnessed first second path

/-- The first pair of groups that share a path. -/
def overlappingGroups : List (String × List String) → Option (String × String)
  | [] => none
  | (firstName, first) :: groups =>
    match groups.find? fun group => native.sharePath first group.2 with
    | some (secondName, _) => some (firstName, secondName)
    | none => overlappingGroups groups

variable {first second : List String} {path : String}

/-- Patterns that claim one path are found to share one, though perhaps another. -/
theorem sharePath_of_claims (hfirst : claims first path = true)
    (hsecond : claims second path = true) : native.sharePath first second = true := by
  obtain ⟨p, hp, hpath⟩ := claims_iff.mp hfirst
  obtain ⟨q, hq, hpath'⟩ := claims_iff.mp hsecond
  refine any_eq_true.mpr ⟨p, hp, any_eq_true.mpr ⟨q, hq, ?_⟩⟩
  rcases hpath with hnone | ⟨segments, hparse, hmatches⟩
  · simp [sharedPath, hnone]
  rcases hpath' with hnone | ⟨segments', hparse', hmatches'⟩
  · simp [sharedPath, hnone, hparse]
  rcases sharedPath_cases hparse hparse' with ⟨-, hnot⟩ | ⟨shared, hshared, hfirst', hsecond'⟩
  · exact absurd ⟨⟨_, hparse, hmatches⟩, ⟨_, hparse', hmatches'⟩⟩ (hnot _)
  · by_cases hsent : native.inspection shared = some shared
    · simp [hshared, witnessed, native.routes _ _ hsent hfirst', native.routes _ _ hsent hsecond']
    · simp [hshared, witnessed, hsent]

/-- Unless two groups are refused, at most one group claims a path. -/
theorem accepted_groups_share_no_path (groups : List (String × List String)) (path : String) :
    (native.overlappingGroups groups).isSome ∨
      (groups.filter fun group => claims group.2 path).length ≤ 1 := by
  induction groups with
  | nil => exact .inr (Nat.zero_le 1)
  | cons first groups ih =>
    unfold overlappingGroups
    cases hfind : groups.find? fun group => native.sharePath first.2 group.2 with
    | some second => exact .inl rfl
    | none =>
      refine ih.imp_right fun hrest => ?_
      by_cases hclaims : claims first.2 path = true
      · have hnone : (groups.filter fun group => claims group.2 path) = [] :=
          filter_eq_nil_iff.mpr fun second hsecond hboth =>
            find?_eq_none.mp hfind second hsecond (native.sharePath_of_claims hclaims hboth)
        simp [hclaims, hnone]
      · simpa [hclaims] using hrest

end NativeRouting

/-- A byte that a URI keeps in its path. -/
def isUriPathByte (byte : UInt8) : Bool :=
  0x21 ≤ byte && byte ∉ [0x23, 0x3C, 0x3E, 0x3F, 0x60]

/-- Routing by the rules of the patterns, for paths that a URI keeps. -/
def axumRouting : NativeRouting where
  inspection path := if (asBytes path).all isUriPathByte then some path else none
  reportsMatch pattern path := (parse pattern).any (matchesPath · (asBytes path))
  routes := by
    rintro pattern path - ⟨segments, hparse, hmatches⟩
    rw [hparse]
    exact hmatches

def sampleGroups : List (String × List String) :=
  [("api", ["/users/\x7bid\x7d", "/users/\x7bid\x7d/posts"]), ("admin", ["/admin/\x7b*rest\x7d"]),
    ("status", ["/healthz"])]

/-- The sample is accepted, so one group claims a user; a group for one user is refused. -/
theorem sample_groups_share_no_user :
    axumRouting.overlappingGroups sampleGroups = none ∧
    (sampleGroups.filter fun group => claims group.2 "/users/7").length ≤ 1 ∧
    axumRouting.overlappingGroups (("me", ["/users/me"]) :: sampleGroups) = some ("me", "api") := by
  have haccepted : axumRouting.overlappingGroups sampleGroups = none := by decide +kernel
  refine ⟨haccepted, ?_, by decide +kernel⟩
  refine (axumRouting.accepted_groups_share_no_path sampleGroups "/users/7").resolve_left ?_
  rw [haccepted]
  exact Bool.false_ne_true

end Batter.Axum
