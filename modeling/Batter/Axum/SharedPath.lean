import Batter.Axum.Pattern

/-!
# Paths that two patterns share

`sharedPath` constructs a path that two patterns match, or answers that there is none.
It builds one path, segment by segment: a literal where one of the patterns has one,
and otherwise the longer of the two leads with a filler byte behind it.  A wildcard
takes all that is left, so the rest of the path is built for the other pattern.

The construction is exact.  What it returns is matched by both patterns
(`witness_matches`), and whenever any path at all is matched by both it returns one
(`witness_of_matches`).
-/

namespace Batter.Axum

open Bytes List Option

variable {last : Bool} {bytes lead path rest result : List UInt8}

/-- Filler for what captures and wildcards take. -/
abbrev filler : UInt8 := 0x78

/-- Whether two patterns can match one path. -/
inductive SharedPath
  | disjoint
  | witness (path : String)
  | unanalyzed
  deriving DecidableEq

/-- The longer of two byte strings one of which begins with the other. -/
def longerCompatible (first second : List UInt8) : Option (List UInt8) :=
  if second.isPrefixOf first then some first
  else if first.isPrefixOf second then some second
  else none

/-- One segment matched by two segments that are not wildcards. -/
def segmentWitness (last : Bool) : Segment → Segment → Option (List UInt8)
  | .literal a, .literal b => if a = b then some a else none
  | .literal literal, .capture lead | .capture lead, .literal literal =>
    if lead.isPrefixOf literal && (!last || lead.length < literal.length) then some literal
    else none
  | .capture a, .capture b => (longerCompatible a b).map (· ++ [filler])
  | .wildcard _, _ | _, .wildcard _ => none

/-- A segment with what it captures filled. -/
def Segment.filled : Segment → List UInt8
  | .literal bytes => bytes
  | .capture lead => lead ++ [filler]
  | .wildcard lead => lead ++ [filler]

/-- The next segment of a path whose rest a wildcard with the lead must match; the wildcard
needs at least one byte after its lead. -/
def wildcardHead (lead : List UInt8) (last : Bool) : Segment → Option (List UInt8)
  | .literal literal =>
    if !lead.isPrefixOf literal || (literal.length = lead.length && last) then none
    else some literal
  | .capture capture | .wildcard capture => (longerCompatible capture lead).map (· ++ [filler])

/-- Completes a path whose rest a wildcard with the lead must match. -/
def wildcardTail (path lead : List UInt8) : List Segment → Option (List UInt8)
  | [] => none
  | head :: tail => do
    let segment ← wildcardHead lead tail.isEmpty head
    return tail.foldl (fun path segment => path ++ slash :: segment.filled)
      (path ++ slash :: segment)

/-- Builds a path that both lists of segments match. -/
def witness (path : List UInt8) : List Segment → List Segment → Option (List UInt8)
  | [], [] => some path
  | .wildcard a :: _, .wildcard b :: _ =>
    (longerCompatible a b).map fun lead => path ++ slash :: lead ++ [filler]
  | .wildcard lead :: _, head :: second => wildcardTail path lead (head :: second)
  | head :: first, .wildcard lead :: _ => wildcardTail path lead (head :: first)
  | a :: first, b :: second => do
    let segment ← segmentWitness first.isEmpty a b
    witness (path ++ slash :: segment) first second
  | [], _ :: _ | _ :: _, [] => none

/-- Constructs a path that both patterns match, when there is one. -/
def sharedPath (first second : String) : SharedPath :=
  match parse first, parse second with
  | some first, some second =>
    match (witness [] first second).map fromUtf8 with
    | none => .disjoint
    | some (some path) => .witness path
    | some none => .unanalyzed
  | _, _ => .unanalyzed

theorem plain_filler : Plain [filler] :=
  ⟨isText_singleton (by decide), by decide⟩

section Compatible

variable {a b c : List UInt8}

/-- The longer one begins with both and is one of them. -/
theorem longerCompatible_eq_some (h : longerCompatible a b = some c) :
    a <+: c ∧ b <+: c ∧ (c = a ∨ c = b) := by
  unfold longerCompatible at h
  split_ifs at h with hfirst hsecond
  · cases h
    exact ⟨prefix_rfl, isPrefixOf_iff_prefix.mp hfirst, .inl rfl⟩
  · cases h
    have hlonger := isPrefixOf_iff_prefix.mp hsecond
    exact ⟨hlonger, prefix_rfl, .inr rfl⟩

theorem plain_longerCompatible (h : longerCompatible a b = some c) (ha : Plain a) (hb : Plain b) :
    Plain c := by
  rcases (longerCompatible_eq_some h).2.2 with rfl | rfl
  · exact ha
  · exact hb

/-- Two beginnings of the same bytes are compatible. -/
theorem exists_longerCompatible (ha : a <+: c) (hb : b <+: c) :
    ∃ longer, longerCompatible a b = some longer := by
  unfold longerCompatible
  rcases prefix_or_prefix_of_prefix ha hb with h | h
  · split_ifs with hfirst hsecond
    · exact ⟨a, rfl⟩
    · exact ⟨b, rfl⟩
    · exact absurd h <| hsecond ∘ isPrefixOf_iff_prefix.mpr
  · have hfirst := isPrefixOf_iff_prefix.mpr h
    rw [if_pos hfirst]
    exact ⟨a, rfl⟩

theorem longerCompatible_comm (a b : List UInt8) : longerCompatible a b = longerCompatible b a := by
  unfold longerCompatible
  by_cases hab : a <+: b
  · by_cases hba : b <+: a
    · rw [hab.eq_of_length (hab.length_le.antisymm hba.length_le)]
    · simp [hab, hba]
  · by_cases hba : b <+: a
    · simp [hab, hba]
    · simp [hab, hba]

end Compatible

section Segments

variable {segment a b : Segment} {segments first second : List Segment}

theorem fits_literal {literal : List UInt8} :
    (Segment.literal literal).fits last bytes = true ↔ literal = bytes := by
  simp [Segment.fits]

theorem fits_capture : (Segment.capture lead).fits last bytes = true ↔
      lead <+: bytes ∧ (last = true → lead.length < bytes.length) := by
  cases last <;> simp [Segment.fits]

/-- What follows a lead is not empty when a filler follows it. -/
theorem length_lt_of_lead {longer : List UInt8} (h : lead <+: longer) :
    lead <+: longer ++ [filler] ∧ lead.length < (longer ++ [filler]).length := by
  refine ⟨h.trans (prefix_append ..), ?_⟩
  have hle := h.length_le
  rw [length_append, length_singleton]
  omega

/-- What two segments have in common fits both of them. -/
theorem segmentWitness_fits (h : segmentWitness last a b = some bytes) :
    a.fits last bytes = true ∧ b.fits last bytes = true := by
  cases a <;> cases b <;> simp only [segmentWitness, reduceCtorEq] at h
  case literal.literal =>
    split_ifs at h with heq
    cases h
    exact ⟨fits_literal.mpr rfl, fits_literal.mpr heq.symm⟩
  case literal.capture literal lead =>
    split_ifs at h with hfits
    cases h
    exact ⟨fits_literal.mpr rfl, hfits⟩
  case capture.literal lead literal =>
    split_ifs at h with hfits
    cases h
    exact ⟨hfits, fits_literal.mpr rfl⟩
  case capture.capture first second =>
    obtain ⟨longer, hlonger, rfl⟩ := map_eq_some_iff.mp h
    obtain ⟨hfirst, hsecond, -⟩ := longerCompatible_eq_some hlonger
    obtain ⟨hstarts, hlen⟩ := length_lt_of_lead hfirst
    obtain ⟨hstarts', hlen'⟩ := length_lt_of_lead hsecond
    exact ⟨fits_capture.mpr ⟨hstarts, fun _ => hlen⟩,
      fits_capture.mpr ⟨hstarts', fun _ => hlen'⟩⟩

theorem plain_segmentWitness (h : segmentWitness last a b = some bytes) (ha : Plain a.bytes)
    (hb : Plain b.bytes) : Plain bytes := by
  cases a <;> cases b <;> simp only [segmentWitness, reduceCtorEq] at h
  case literal.literal | literal.capture =>
    split_ifs at h
    cases h
    exact ha
  case capture.literal =>
    split_ifs at h
    cases h
    exact hb
  case capture.capture =>
    obtain ⟨longer, hlonger, rfl⟩ := map_eq_some_iff.mp h
    exact .append (plain_longerCompatible hlonger ha hb) plain_filler

/-- Segments that both fit some bytes have something in common. -/
theorem exists_segmentWitness (ha : a.fits last bytes = true) (hb : b.fits last bytes = true) :
    ∃ common, segmentWitness last a b = some common := by
  cases a with
  | wildcard => cases ha
  | literal first =>
    rw [fits_literal] at ha
    subst ha
    cases b with
    | wildcard => cases hb
    | literal second => exact ⟨_, if_pos (fits_literal.mp hb).symm⟩
    | capture lead => exact ⟨_, if_pos hb⟩
  | capture first =>
    cases b with
    | wildcard => cases hb
    | literal second =>
      rw [fits_literal] at hb
      subst hb
      exact ⟨_, if_pos ha⟩
    | capture second =>
      obtain ⟨longer, hlonger⟩ :=
        exists_longerCompatible (fits_capture.mp ha).1 (fits_capture.mp hb).1
      exact ⟨_, by rw [segmentWitness, hlonger, map_some]⟩

theorem segmentWitness_comm (last : Bool) (a b : Segment) :
    segmentWitness last a b = segmentWitness last b a := by
  cases a <;> cases b <;> simp only [segmentWitness]
  case literal.literal first second =>
    by_cases h : first = second
    · simp [h]
    · simp [h, Ne.symm h]
  case capture.capture first second =>
    rw [longerCompatible_comm]

end Segments

section Tail

/-- The filled segments, each behind a slash. -/
def filledTail (tail : List Segment) : List UInt8 :=
  tail.flatMap fun segment => slash :: segment.filled

variable {head : Segment} {tail : List Segment}

theorem foldl_filled (tail : List Segment) (path : List UInt8) :
    tail.foldl (fun path segment => path ++ slash :: segment.filled) path =
      path ++ filledTail tail := by
  induction tail generalizing path with
  | nil =>
    simp [filledTail]
  | cons segment tail ih =>
    rw [foldl_cons, ih]
    simp [filledTail]

variable {segment : Segment}

theorem plain_filled (h : Plain segment.bytes) : Plain segment.filled := by
  cases segment with
  | literal => exact h
  | capture | wildcard => exact .append h plain_filler

theorem fits_filled (h : segment.isWildcard = false) : segment.fits last segment.filled = true := by
  cases segment with
  | wildcard => cases h
  | literal => exact fits_literal.mpr rfl
  | capture lead =>
    obtain ⟨hstarts, hlen⟩ := length_lt_of_lead (@prefix_rfl _ lead)
    exact fits_capture.mpr ⟨hstarts, fun _ => hlen⟩

/-- Filled segments make a path that they match. -/
theorem matchesRest_filled (h : WellFormed (head :: tail)) :
    matchesRest (head :: tail) (head.filled ++ filledTail tail) = true := by
  induction tail generalizing head with
  | nil =>
    rw [filledTail, flatMap_nil, append_nil]
    by_cases hwildcard : head.isWildcard = true
    · cases head with
      | literal | capture => cases hwildcard
      | wildcard lead => exact matchesRest_wildcard.mpr (length_lt_of_lead prefix_rfl)
    · rw [Bool.not_eq_true] at hwildcard
      rw [matchesRest_last hwildcard (plain_filled (wellFormed_singleton.mp h)).noSlash]
      exact fits_filled hwildcard
  | cons next tail ih =>
    obtain ⟨hwildcard, hplain, hrest⟩ := wellFormed_cons.mp h
    have hpath : filledTail (next :: tail) = slash :: (next.filled ++ filledTail tail) := rfl
    rw [hpath, matchesRest_cons (plain_filled hplain).noSlash, Bool.and_eq_true]
    exact ⟨fits_filled hwildcard, ih hrest⟩

/-- The first segment may be filled with any bytes that fit. -/
theorem matchesRest_filledTail (h : WellFormed (head :: tail)) (hwildcard : head.isWildcard = false)
    (hbytes : slash ∉ bytes) (hfits : head.fits tail.isEmpty bytes = true) :
    matchesRest (head :: tail) (bytes ++ filledTail tail) = true := by
  cases tail with
  | nil =>
    rw [filledTail, flatMap_nil, append_nil, matchesRest_last hwildcard hbytes]
    exact hfits
  | cons next tail =>
    have hpath : filledTail (next :: tail) = slash :: (next.filled ++ filledTail tail) := rfl
    rw [hpath, matchesRest_cons hbytes, Bool.and_eq_true]
    exact ⟨hfits, matchesRest_filled (wellFormed_cons.mp h).2.2⟩

theorem isText_filledTail (h : ∀ segment ∈ tail, Plain segment.bytes) :
    IsText (filledTail tail) := by
  induction tail with
  | nil => exact isText_nil
  | cons segment tail ih =>
    rw [forall_mem_cons] at h
    have hslash : IsText [slash] := isText_singleton (by decide)
    exact .append (hslash.append (plain_filled h.1).text) (ih h.2)

end Tail

/-- A path after its first slash that both lists of segments match. -/
structure Common (first second : List Segment) (rest : List UInt8) : Prop where
  first : matchesRest first rest = true
  second : matchesRest second rest = true
  text : IsText rest

theorem Common.symm {first second : List Segment} (h : Common first second rest) :
    Common second first rest :=
  ⟨h.second, h.first, h.text⟩

section Wildcard

variable {head : Segment} {tail : List Segment}

/-- A head that a wildcard can share is a text without slash that fits it, and leaves the
wildcard a byte, if not in the segment then the slash behind it. -/
theorem wildcardHead_eq_some (h : wildcardHead lead last head = some bytes)
    (hhead : Plain head.bytes) (hlead : Plain lead) (hwildcard : head.isWildcard = false) :
    Plain bytes ∧ head.fits last bytes = true ∧ lead <+: bytes ∧
      (last = true → lead.length < bytes.length) := by
  cases head with
  | wildcard => cases hwildcard
  | literal literal =>
    rw [wildcardHead] at h
    split_ifs at h with hfails
    cases h
    simp only [Bool.or_eq_true, Bool.not_eq_true', Bool.and_eq_true, decide_eq_true_eq, not_or,
      Bool.not_eq_false, not_and, Bool.not_eq_true, isPrefixOf_iff_prefix] at hfails
    refine ⟨hhead, fits_literal.mpr rfl, hfails.1, fun hlast => ?_⟩
    have hle := hfails.1.length_le
    have hne : bytes.length ≠ lead.length := fun heq => by simpa [hlast] using hfails.2 heq
    omega
  | capture capture =>
    obtain ⟨longer, hlonger, rfl⟩ := map_eq_some_iff.mp h
    obtain ⟨hcapture, hwild, -⟩ := longerCompatible_eq_some hlonger
    obtain ⟨hstarts, hlen⟩ := length_lt_of_lead hcapture
    obtain ⟨hstarts', hlen'⟩ := length_lt_of_lead hwild
    exact ⟨Plain.append (plain_longerCompatible hlonger hhead hlead) plain_filler,
      fits_capture.mpr ⟨hstarts, fun _ => hlen⟩, hstarts', fun _ => hlen'⟩

/-- A head that matches a path together with a wildcard can be shared with it. -/
theorem exists_wildcardHead (hbytes : head.fits last bytes = true) (hlead : lead <+: bytes)
    (hlast : last = true → lead.length < bytes.length) :
    ∃ common, wildcardHead lead last head = some common := by
  cases head with
  | wildcard => cases hbytes
  | literal literal =>
    rw [fits_literal] at hbytes
    subst hbytes
    refine ⟨literal, if_neg ?_⟩
    simp only [Bool.or_eq_true, Bool.not_eq_true', Bool.and_eq_true, decide_eq_true_eq, not_or,
      Bool.not_eq_false, not_and, Bool.not_eq_true, isPrefixOf_iff_prefix]
    refine ⟨hlead, fun heq => ?_⟩
    cases last with
    | false => rfl
    | true => exact absurd heq (hlast rfl).ne'
  | capture capture =>
    obtain ⟨longer, hlonger⟩ := exists_longerCompatible (fits_capture.mp hbytes).1 hlead
    exact ⟨_, by rw [wildcardHead, hlonger, map_some]⟩

/-- What a wildcard and the segments of another pattern have in common. -/
theorem wildcardTail_common (h : wildcardTail path lead (head :: tail) = some result)
    (hwell : WellFormed (head :: tail)) (hlead : Plain lead) (hwildcard : head.isWildcard = false) :
    ∃ rest, result = path ++ slash :: rest ∧ Common [.wildcard lead] (head :: tail) rest := by
  obtain ⟨bytes, hbytes, hres⟩ := bind_eq_some_iff.mp h
  cases hres
  obtain ⟨hplain, hfits, hstarts, hlast⟩ :=
    wildcardHead_eq_some hbytes (hwell.plain head (mem_cons_self ..)) hlead hwildcard
  refine ⟨bytes ++ filledTail tail, ?_, ?_, ?_, ?_⟩
  · rw [foldl_filled, append_assoc, cons_append]
  · refine matchesRest_wildcard.mpr ⟨hstarts.trans (prefix_append ..), ?_⟩
    rw [length_append]
    cases tail with
    | nil =>
      have hlt := hlast rfl
      omega
    | cons next tail =>
      have hle := hstarts.length_le
      have hpos : 0 < (filledTail (next :: tail)).length := by simp [filledTail]
      omega
  · exact matchesRest_filledTail hwell hwildcard hplain.noSlash hfits
  · exact .append hplain.text (isText_filledTail fun segment hseg =>
      hwell.plain segment (mem_cons_of_mem _ hseg))

/-- A wildcard and segments that match one path have a path built for them. -/
theorem exists_wildcardTail (hslash : slash ∉ lead) (hwildcard : head.isWildcard = false)
    (hfirst : matchesRest [.wildcard lead] rest = true)
    (hsecond : matchesRest (head :: tail) rest = true) :
    ∃ result, wildcardTail path lead (head :: tail) = some result := by
  obtain ⟨hstarts, hlen⟩ := matchesRest_wildcard.mp hfirst
  obtain ⟨bytes, hbytes, hlead, hlast⟩ : ∃ bytes, head.fits tail.isEmpty bytes = true ∧
      lead <+: bytes ∧ (tail.isEmpty = true → lead.length < bytes.length) := by
    rcases matchesRest_cases hwildcard hsecond with ⟨rfl, -, hfits⟩ |
      ⟨bytes, next, -, rfl, hfits, hrest⟩
    · exact ⟨rest, hfits, hstarts, fun _ => hlen⟩
    · have htail : tail.isEmpty = false := by
        cases tail with
        | nil => cases hrest
        | cons => rfl
      refine ⟨bytes, htail ▸ hfits, ?_, fun hempty => ?_⟩
      · exact prefix_of_splitSlash hslash
          (show lead <+: bytes ++ fromSlash (some next) from hstarts)
      · rw [htail] at hempty
        cases hempty
  obtain ⟨common, hcommon⟩ := exists_wildcardHead hbytes hlead hlast
  exact ⟨_, by rw [wildcardTail, hcommon]; rfl⟩

end Wildcard

section Witness

variable {first second : List Segment}

theorem isWildcard_eq_false {segment : Segment} (h : ∀ lead, segment = .wildcard lead → False) :
    segment.isWildcard = false := by
  cases segment with
  | wildcard lead => exact absurd rfl (h lead)
  | literal | capture => rfl

/-- The path that is built is matched by both. -/
theorem witness_common (h : witness path first second = some result) (hfirst : WellFormed first)
    (hsecond : WellFormed second) :
    ∃ rest, result = path ++ slash :: rest ∧ Common first second rest := by
  fun_induction witness path first second with
  | case1 => exact absurd rfl hfirst.nonempty
  | case2 path a first b second =>
    obtain ⟨rfl, ha⟩ := wellFormed_wildcard hfirst
    obtain ⟨rfl, hb⟩ := wellFormed_wildcard hsecond
    obtain ⟨longer, hlonger, rfl⟩ := map_eq_some_iff.mp h
    obtain ⟨hstarts, hstarts', -⟩ := longerCompatible_eq_some hlonger
    have hplain := Plain.append (plain_longerCompatible hlonger ha hb) plain_filler
    exact ⟨longer ++ [filler], by simp, matchesRest_wildcard.mpr (length_lt_of_lead hstarts),
      matchesRest_wildcard.mpr (length_lt_of_lead hstarts'), hplain.text⟩
  | case3 path lead first head second hhead =>
    obtain ⟨rfl, hlead⟩ := wellFormed_wildcard hfirst
    exact wildcardTail_common h hsecond hlead (isWildcard_eq_false hhead)
  | case4 path head first lead second hhead =>
    obtain ⟨rfl, hlead⟩ := wellFormed_wildcard hsecond
    obtain ⟨rest, hrest, hcommon⟩ := wildcardTail_common h hfirst hlead (isWildcard_eq_false hhead)
    exact ⟨rest, hrest, hcommon.symm⟩
  | case5 path a first b second _ ha hb ih =>
    obtain ⟨segment, hseg, hres⟩ := bind_eq_some_iff.mp h
    have ha' := isWildcard_eq_false ha
    have hb' := isWildcard_eq_false hb
    have hplain := plain_segmentWitness hseg (hfirst.plain a (mem_cons_self ..))
      (hsecond.plain b (mem_cons_self ..))
    obtain ⟨hfits, hfits'⟩ := segmentWitness_fits hseg
    cases first with
    | nil =>
      cases second with
      | cons => cases hres
      | nil =>
        cases hres
        exact ⟨segment, rfl, by rwa [matchesRest_last ha' hplain.noSlash],
          by rwa [matchesRest_last hb' hplain.noSlash], hplain.text⟩
    | cons next first =>
      cases second with
      | nil =>
        rw [witness] at hres
        cases hres
      | cons next' second =>
        obtain ⟨rest, rfl, hcommon⟩ := ih segment hres (wellFormed_cons.mp hfirst).2.2
          (wellFormed_cons.mp hsecond).2.2
        have hslash : IsText [slash] := isText_singleton (by decide)
        refine ⟨segment ++ slash :: rest, by simp, ?_, ?_,
          hplain.text.append (hslash.append hcommon.text)⟩
        · rw [matchesRest_cons hplain.noSlash, Bool.and_eq_true]
          exact ⟨hfits, hcommon.first⟩
        · rw [matchesRest_cons hplain.noSlash, Bool.and_eq_true]
          exact ⟨hfits', hcommon.second⟩
  | case6 => cases h
  | case7 => cases h

/-- Whenever a path is matched by both, one is built. -/
theorem exists_witness (hfirst : WellFormed first) (hsecond : WellFormed second)
    (hmatch : matchesRest first rest = true) (hmatch' : matchesRest second rest = true) :
    ∃ result, witness path first second = some result := by
  fun_induction witness path first second generalizing rest with
  | case1 path => exact ⟨path, rfl⟩
  | case2 path a first b second =>
    obtain ⟨rfl, -⟩ := wellFormed_wildcard hfirst
    obtain ⟨rfl, -⟩ := wellFormed_wildcard hsecond
    obtain ⟨longer, hlonger⟩ := exists_longerCompatible (matchesRest_wildcard.mp hmatch).1
      (matchesRest_wildcard.mp hmatch').1
    exact ⟨_, by rw [hlonger, map_some]⟩
  | case3 path lead first head second hhead =>
    obtain ⟨rfl, hlead⟩ := wellFormed_wildcard hfirst
    exact exists_wildcardTail hlead.noSlash (isWildcard_eq_false hhead) hmatch hmatch'
  | case4 path head first lead second hhead =>
    obtain ⟨rfl, hlead⟩ := wellFormed_wildcard hsecond
    exact exists_wildcardTail hlead.noSlash (isWildcard_eq_false hhead) hmatch' hmatch
  | case5 path a first b second _ ha hb ih =>
    rcases matchesRest_cases (isWildcard_eq_false ha) hmatch with ⟨rfl, hslash, hfits⟩ |
      ⟨bytes, next, hslash, rfl, hfits, hrest⟩
    · rcases matchesRest_cases (isWildcard_eq_false hb) hmatch' with ⟨rfl, -, hfits'⟩ |
        ⟨bytes, next, -, rfl, -⟩
      · obtain ⟨common, hcommon⟩ := exists_segmentWitness hfits hfits'
        exact ⟨_, by rw [isEmpty_nil, hcommon]; rfl⟩
      · simp at hslash
    · rcases matchesRest_cases (isWildcard_eq_false hb) hmatch' with ⟨rfl, hslash', -⟩ |
        ⟨bytes', next', hslash', heq, hfits', hrest'⟩
      · simp at hslash'
      · obtain ⟨rfl, rfl⟩ : bytes = bytes' ∧ next = next' := by
          have hsplit : splitSlash (bytes ++ slash :: next) = (bytes, some next) :=
            splitSlash_eq.mpr ⟨hslash, rfl⟩
          have hsplit' : splitSlash (bytes ++ slash :: next) = (bytes', some next') :=
            splitSlash_eq.mpr ⟨hslash', heq⟩
          simpa using hsplit.symm.trans hsplit'
        cases first with
        | nil => cases hrest
        | cons head first =>
          cases second with
          | nil => cases hrest'
          | cons head' second =>
            obtain ⟨common, hcommon⟩ := exists_segmentWitness hfits hfits'
            obtain ⟨result, hres⟩ := ih common (wellFormed_cons.mp hfirst).2.2
              (wellFormed_cons.mp hsecond).2.2 hrest hrest'
            exact ⟨result, by rw [isEmpty_cons, hcommon]; exact hres⟩
  | case6 => exact absurd rfl hfirst.nonempty
  | case7 => exact absurd rfl hsecond.nonempty

/-- The order of the patterns does not matter. -/
theorem witness_comm (path : List UInt8) (first second : List Segment) :
    witness path first second = witness path second first := by
  fun_induction witness path first second with
  | case1 => rfl
  | case2 path a first b second => rw [witness, longerCompatible_comm]
  | case3 path lead first head second hhead => rw [witness]; exact hhead
  | case4 path head first lead second hhead => rw [witness]; exact hhead
  | case5 path a first b second _ ha hb ih =>
    have hswap : witness path (b :: second) (a :: first) =
        (segmentWitness second.isEmpty b a).bind fun segment =>
          witness (path ++ slash :: segment) second first := by
      rw [witness]
      · rfl
      · exact fun _ _ hwildcard => (hb _ hwildcard).elim
      · exact hb
      · exact ha
    rw [hswap, bind_eq_bind, segmentWitness_comm]
    cases first with
    | nil =>
      cases second with
      | nil => exact bind_congr fun segment _ => ih segment
      | cons next second => simp [witness]
    | cons next first =>
      cases second with
      | nil => simp [witness]
      | cons next' second => exact bind_congr fun segment _ => ih segment
  | case6 => rw [witness]
  | case7 => rw [witness]

end Witness

/-- A pattern that parses matches a path. -/
def PatternMatches (pattern : String) (path : List UInt8) : Prop :=
  ∃ segments, parse pattern = some segments ∧ matchesPath segments path = true

section Shared

variable {first second : String} {p q : List Segment}

theorem patternMatches_iff {pattern : String} {segments : List Segment}
    (h : parse pattern = some segments) :
    PatternMatches pattern path ↔
      ∃ rest, path = slash :: rest ∧ matchesRest segments rest = true := by
  have hpath : matchesPath segments path = true ↔
      ∃ rest, path = slash :: rest ∧ matchesRest segments rest = true := by
    simp only [matchesPath, Option.any_eq_true, afterSlash_eq_some]
  rw [← hpath]
  constructor
  · rintro ⟨other, hother, hmatches⟩
    rw [h] at hother
    cases hother
    exact hmatches
  · intro hmatches
    exact ⟨segments, h, hmatches⟩

/-- What is answered for patterns that parse. -/
theorem sharedPath_cases (hp : parse first = some p) (hq : parse second = some q) :
    (sharedPath first second = .disjoint ∧
        ∀ path, ¬ (PatternMatches first path ∧ PatternMatches second path)) ∨
      ∃ path, sharedPath first second = .witness path ∧
        PatternMatches first (asBytes path) ∧ PatternMatches second (asBytes path) := by
  have hfirst := parse_wellFormed hp
  have hsecond := parse_wellFormed hq
  unfold sharedPath
  simp only [hp, hq]
  cases hwitness : witness [] p q with
  | none =>
    refine .inl ⟨rfl, fun path hboth => ?_⟩
    obtain ⟨rest, rfl, hmatch⟩ := (patternMatches_iff hp).mp hboth.1
    obtain ⟨rest', heq, hmatch'⟩ := (patternMatches_iff hq).mp hboth.2
    cases heq
    obtain ⟨result, hres⟩ := @exists_witness [] rest p q hfirst hsecond hmatch hmatch'
    rw [hwitness] at hres
    cases hres
  | some result =>
    obtain ⟨rest, rfl, hcommon⟩ := witness_common hwitness hfirst hsecond
    have hslash : IsText [slash] := isText_singleton (by decide)
    obtain ⟨text, htext⟩ := hslash.append hcommon.text
    have hutf8 : fromUtf8 ([] ++ slash :: rest) = some text := fromUtf8_eq_some.mpr htext
    refine .inr ⟨text, ?_, ?_, ?_⟩
    · rw [map_some, hutf8]
    · exact (patternMatches_iff hp).mpr ⟨rest, htext, hcommon.first⟩
    · exact (patternMatches_iff hq).mpr ⟨rest, htext, hcommon.second⟩

/-- The answer is a path that both patterns match, or that there is none at all; a pattern that
parses is always analyzed, and the order of the patterns does not matter. -/
theorem route_overlap_analysis_is_exact (first second : String) :
    (∀ path, sharedPath first second = .witness path →
      PatternMatches first (asBytes path) ∧ PatternMatches second (asBytes path)) ∧
    (sharedPath first second = .disjoint → ∀ path : List UInt8,
      ¬ (PatternMatches first path ∧ PatternMatches second path)) ∧
    ((parse first).isSome → (parse second).isSome →
      sharedPath first second ≠ .unanalyzed ∧
      (sharedPath first second = .disjoint ↔ ∀ path : String,
        ¬ (PatternMatches first (asBytes path) ∧ PatternMatches second (asBytes path)))) ∧
    sharedPath first second = sharedPath second first := by
  have hcomm : sharedPath first second = sharedPath second first := by
    unfold sharedPath
    cases hp : parse first with
    | none => cases parse second <;> rfl
    | some p =>
      cases hq : parse second with
      | none => rfl
      | some q => simp only [witness_comm [] p q]
  have hanalyzed : sharedPath first second ≠ .unanalyzed →
      ∃ p q, parse first = some p ∧ parse second = some q := by
    intro hne
    unfold sharedPath at hne
    cases hp : parse first with
    | none => exact absurd (by simp [hp]) hne
    | some p =>
      cases hq : parse second with
      | none => exact absurd (by simp [hp, hq]) hne
      | some q => exact ⟨p, q, rfl, rfl⟩
  refine ⟨fun path hwitness => ?_, fun hdisj => ?_, fun hfirst hsecond => ?_, hcomm⟩
  · obtain ⟨p, q, hp, hq⟩ := hanalyzed (by rw [hwitness]; simp)
    rcases sharedPath_cases hp hq with ⟨hdisj, -⟩ | ⟨path', hpath', hmatches⟩
    · rw [hwitness] at hdisj
      cases hdisj
    · rw [hwitness] at hpath'
      cases hpath'
      exact hmatches
  · obtain ⟨p, q, hp, hq⟩ := hanalyzed (by rw [hdisj]; simp)
    rcases sharedPath_cases hp hq with ⟨-, hnone⟩ | ⟨path', hpath', -⟩
    · exact hnone
    · rw [hdisj] at hpath'
      cases hpath'
  · obtain ⟨p, hp⟩ := Option.isSome_iff_exists.mp hfirst
    obtain ⟨q, hq⟩ := Option.isSome_iff_exists.mp hsecond
    rcases sharedPath_cases hp hq with ⟨hdisj, hnone⟩ | ⟨path', hpath', hmatches⟩
    · rw [hdisj]
      exact ⟨by simp, by simpa using fun path => hnone (asBytes path)⟩
    · rw [hpath']
      exact ⟨by simp, by simpa using ⟨path', hmatches⟩⟩

end Shared

end Batter.Axum
