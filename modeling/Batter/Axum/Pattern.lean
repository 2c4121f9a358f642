import Batter.Library.Utf8

/-!
# Route patterns

A pattern splits at the slashes into segments: literal bytes, a capture behind a
literal lead, or a wildcard that ends the pattern.  `parse` reads a pattern byte by
byte; the index of the source is the list of the bytes still to be read.

`matchesPath` says which request paths a pattern matches.  `parse_wellFormed`
collects what parsing guarantees: there is a segment, no segment contains a slash,
only the last one is a wildcard, and the bytes of every segment are a text.
-/

namespace Batter.Axum

open Bytes List Option

/-- The byte that separates segments. -/
abbrev slash : UInt8 := 0x2f

/-- The byte that opens a parameter. -/
abbrev openBrace : UInt8 := 0x7b

/-- The byte that closes a parameter. -/
abbrev closeBrace : UInt8 := 0x7d

/-- The byte that marks a wildcard. -/
abbrev star : UInt8 := 0x2a

/-- One segment of a pattern. -/
inductive Segment
  /-- Unescaped literal bytes. -/
  | literal (bytes : List UInt8)
  /-- Literal bytes followed by a capture ending the segment. -/
  | capture (lead : List UInt8)
  /-- Literal bytes followed by a wildcard ending the pattern. -/
  | wildcard (lead : List UInt8)
  deriving DecidableEq

namespace Segment

/-- The literal bytes of a segment. -/
def bytes : Segment → List UInt8
  | literal bytes => bytes
  | capture lead => lead
  | wildcard lead => lead

/-- Whether the segment is a wildcard. -/
def isWildcard : Segment → Bool
  | wildcard _ => true
  | _ => false

/-- Whether the segment is a capture. -/
def isCapture : Segment → Bool
  | capture _ => true
  | _ => false

end Segment

/-- The rest of a parameter name, up to its closing brace; `named` once it has a byte. -/
def parameterName (wildcard : Bool) : Bool → List UInt8 → Option (Bool × List UInt8)
  | _, [] => none
  | _, 0x7d :: 0x7d :: rest => parameterName wildcard true rest
  | named, 0x7d :: rest => if !wildcard || named then some (wildcard, rest) else none
  | _, byte :: rest =>
    if byte = star || byte = slash then none else parameterName wildcard true rest

/-- Checks a parameter name; returns whether it names a wildcard, and what follows. -/
def parameter : List UInt8 → Option (Bool × List UInt8)
  | [] => none
  | first :: rest =>
    if first = closeBrace then none else parameterName (first = star) false rest

/-- A parameter must end its segment. -/
def endParameter (literal : List UInt8) : Bool × List UInt8 → Option (Segment × List UInt8)
  | (wildcard, rest) =>
    if rest.head?.any (· ≠ slash) then none
    else some (if wildcard then .wildcard literal else .capture literal, rest)

/-- Parses one segment; what follows is empty or begins with the slash that ends it. -/
def parseSegment (literal : List UInt8) : List UInt8 → Option (Segment × List UInt8)
  | [] => some (.literal literal, [])
  | byte :: rest =>
    if byte = slash then
      some (.literal literal, byte :: rest)
    else if byte = openBrace then
      match rest with
      | 0x7b :: rest => parseSegment (literal ++ [byte]) rest
      | rest => (parameter rest).bind (endParameter literal)
    else if byte = closeBrace then
      match rest with
      | 0x7d :: rest => parseSegment (literal ++ [byte]) rest
      | _ => none
    else
      parseSegment (literal ++ [byte]) rest

section Parameter

variable {bytes rest : List UInt8}

/-- A parameter is a part of the bytes that a closing brace ends. -/
theorem parameterName_eq_some {wildcard named answer : Bool}
    (h : parameterName wildcard named bytes = some (answer, rest)) :
    ∃ name, bytes = name ++ closeBrace :: rest := by
  fun_induction parameterName wildcard named bytes with
  | case1 => cases h
  | case2 _ bytes ih =>
    obtain ⟨name, rfl⟩ := ih h
    exact ⟨closeBrace :: closeBrace :: name, rfl⟩
  | case3 =>
    cases h
    exact ⟨[], rfl⟩
  | case4 => cases h
  | case5 => cases h
  | case6 _ byte bytes _ _ _ ih =>
    obtain ⟨name, rfl⟩ := ih h
    exact ⟨byte :: name, rfl⟩

theorem parameter_eq_some {answer : Bool} (h : parameter bytes = some (answer, rest)) :
    ∃ name, bytes = name ++ closeBrace :: rest := by
  cases bytes with
  | nil => cases h
  | cons first bytes =>
    rw [parameter] at h
    split_ifs at h
    obtain ⟨name, rfl⟩ := parameterName_eq_some h
    exact ⟨first :: name, rfl⟩

theorem endParameter_eq_some {literal bytes rest : List UInt8} {wildcard : Bool} {segment : Segment}
    (h : endParameter literal (wildcard, bytes) = some (segment, rest)) :
    segment.bytes = literal ∧ rest = bytes ∧ ∀ byte ∈ rest.head?, byte = slash := by
  rw [endParameter] at h
  split_ifs at h with hend hwild
  all_goals
    cases h
    refine ⟨rfl, rfl, fun byte hbyte => ?_⟩
    rw [mem_def] at hbyte
    simpa [hbyte] using hend

end Parameter

/-- What follows a segment is no longer than the bytes it was read from. -/
theorem parseSegment_length_le {literal bytes rest : List UInt8} {segment : Segment}
    (h : parseSegment literal bytes = some (segment, rest)) : rest.length ≤ bytes.length := by
  fun_induction parseSegment literal bytes with
  | case1 =>
    cases h
    rfl
  | case2 =>
    cases h
    rfl
  | case3 literal bytes _ ih =>
    have hle := ih h
    rw [length_cons, length_cons]
    omega
  | case4 literal bytes _ _ =>
    obtain ⟨⟨wildcard, following⟩, hparam, hend⟩ := bind_eq_some_iff.mp h
    obtain ⟨-, rfl, -⟩ := endParameter_eq_some hend
    obtain ⟨name, rfl⟩ := parameter_eq_some hparam
    simp only [length_cons, length_append]
    omega
  | case5 literal bytes _ _ ih =>
    have hle := ih h
    rw [length_cons, length_cons]
    omega
  | case6 => cases h
  | case7 literal byte bytes _ _ _ ih =>
    have hle := ih h
    rw [length_cons]
    omega

/-- Parses the segments of a pattern after its first slash. -/
def parseSegments (bytes : List UInt8) : Option (List Segment) :=
  match _hsegment : parseSegment [] bytes with
  | none => none
  | some (segment, []) => some [segment]
  | some (segment, _ :: rest) =>
    if segment.isWildcard then none else (parseSegments rest).map (segment :: ·)
termination_by bytes.length
decreasing_by
  have hle := parseSegment_length_le _hsegment
  rw [List.length_cons] at hle
  omega

/-- matchit names captures from one letter and fails while naming a 26th. -/
def maxCaptures : Nat := 25

/-- What follows the slash that begins a path. -/
def afterSlash : List UInt8 → Option (List UInt8)
  | [] => none
  | byte :: rest => if byte = slash then some rest else none

theorem afterSlash_eq_some {bytes rest : List UInt8} :
    afterSlash bytes = some rest ↔ bytes = slash :: rest := by
  cases bytes with
  | nil => simp [afterSlash]
  | cons byte bytes =>
    by_cases hslash : byte = slash
    · simp [afterSlash, hslash]
    · simp [afterSlash, hslash]

/-- The segments of a pattern, if it is one. -/
def parse (pattern : String) : Option (List Segment) := do
  let bytes ← afterSlash (asBytes pattern)
  let segments ← parseSegments bytes
  if segments.countP Segment.isCapture ≤ maxCaptures then some segments else none

section Parsed

/-- Bytes that may stand between two slashes of a path: a text without slash. -/
structure Plain (bytes : List UInt8) : Prop where
  text : IsText bytes
  noSlash : slash ∉ bytes

theorem Plain.append {a b : List UInt8} (ha : Plain a) (hb : Plain b) : Plain (a ++ b) := by
  refine ⟨ha.text.append hb.text, fun hmem => ?_⟩
  rcases mem_append.mp hmem with hmem | hmem
  · exact ha.noSlash hmem
  · exact hb.noSlash hmem

/-- What one parsed segment is: its bytes are plain, and what follows is a text that is empty or
begins with a slash. -/
structure ParsedSegment (segment : Segment) (rest : List UInt8) : Prop where
  plain : Plain segment.bytes
  restText : IsText rest
  ended : ∀ byte ∈ rest.head?, byte = slash

/-- An escaped brace in a text stands for one brace. -/
theorem isText_unescape {literal bytes : List UInt8} {brace : UInt8} (hbrace : brace < 128)
    (h : IsText (literal ++ brace :: brace :: bytes)) : IsText (literal ++ [brace] ++ bytes) := by
  obtain ⟨hliteral, hrest⟩ := h.split hbrace
  rw [append_assoc]
  exact hliteral.append hrest

variable {segment : Segment} {segments : List Segment}

/-- Parsing a segment keeps the bytes read so far and those to come a text. -/
theorem parseSegment_eq_some {literal bytes rest : List UInt8}
    (h : parseSegment literal bytes = some (segment, rest)) (htext : IsText (literal ++ bytes))
    (hslash : slash ∉ literal) : ParsedSegment segment rest := by
  have hconcat : ∀ {literal : List UInt8} {byte : UInt8}, slash ∉ literal → byte ≠ slash →
      slash ∉ literal ++ [byte] := by
    intro literal byte hliteral hbyte
    simp [hliteral, Ne.symm hbyte]
  fun_induction parseSegment literal bytes with
  | case1 literal =>
    cases h
    rw [append_nil] at htext
    exact ⟨⟨htext, hslash⟩, isText_nil, by simp⟩
  | case2 literal bytes =>
    cases h
    obtain ⟨hliteral, hrest⟩ := htext.split (by decide)
    exact ⟨⟨hliteral, hslash⟩, .append (isText_singleton (by decide)) hrest, by simp⟩
  | case3 literal bytes hne ih =>
    exact ih h (isText_unescape (by decide) htext) (hconcat hslash hne)
  | case4 literal bytes _ _ =>
    obtain ⟨⟨wildcard, following⟩, hparam, hend⟩ := bind_eq_some_iff.mp h
    obtain ⟨hbytes, rfl, hended⟩ := endParameter_eq_some hend
    obtain ⟨name, rfl⟩ := parameter_eq_some hparam
    obtain ⟨hliteral, hrest⟩ := htext.split (by decide)
    obtain ⟨-, hfollowing⟩ := hrest.split (by decide)
    exact ⟨hbytes ▸ ⟨hliteral, hslash⟩, hfollowing, hended⟩
  | case5 literal bytes hne _ ih =>
    exact ih h (isText_unescape (by decide) htext) (hconcat hslash hne)
  | case6 => cases h
  | case7 literal byte bytes hne _ _ ih =>
    exact ih h (by simpa using htext) (hconcat hslash hne)

/-- What parsing guarantees of the segments of a pattern. -/
structure WellFormed (segments : List Segment) : Prop where
  nonempty : segments ≠ []
  plain : ∀ segment ∈ segments, Plain segment.bytes
  wildcard_last : ∀ segment ∈ segments.dropLast, segment.isWildcard = false

theorem wellFormed_singleton : WellFormed [segment] ↔ Plain segment.bytes := by
  constructor
  · intro h
    exact h.plain segment (mem_singleton_self _)
  · intro hplain
    exact ⟨by simp, by simpa using hplain, by simp⟩

theorem wellFormed_cons {segment next : Segment} : WellFormed (segment :: next :: segments) ↔
      segment.isWildcard = false ∧ Plain segment.bytes ∧ WellFormed (next :: segments) := by
  constructor
  · rintro ⟨-, hplain, hlast⟩
    rw [forall_mem_cons] at hplain
    rw [dropLast_cons_cons, forall_mem_cons] at hlast
    exact ⟨hlast.1, hplain.1, by simp, hplain.2, hlast.2⟩
  · rintro ⟨hwild, hplain, -, hplains, hlast⟩
    refine ⟨by simp, forall_mem_cons.mpr ⟨hplain, hplains⟩, ?_⟩
    rw [dropLast_cons_cons]
    exact forall_mem_cons.mpr ⟨hwild, hlast⟩

/-- A wildcard is the only segment from its position on. -/
theorem wellFormed_wildcard {lead : List UInt8} (h : WellFormed (.wildcard lead :: segments)) :
    segments = [] ∧ Plain lead := by
  refine ⟨?_, h.plain _ (mem_cons_self ..)⟩
  cases segments with
  | nil => rfl
  | cons next segments => cases (wellFormed_cons.mp h).1

theorem parseSegments_wellFormed {bytes : List UInt8} (h : parseSegments bytes = some segments)
    (htext : IsText bytes) : WellFormed segments := by
  fun_induction parseSegments bytes generalizing segments with
  | case1 => cases h
  | case2 bytes segment hseg =>
    cases h
    have hparsed := parseSegment_eq_some hseg htext (by simp)
    exact wellFormed_singleton.mpr hparsed.plain
  | case3 => cases h
  | case4 bytes segment byte rest hseg hwild ih =>
    have hparsed := parseSegment_eq_some hseg htext (by simp)
    obtain rfl := hparsed.ended byte rfl
    have hrest := (IsText.split (a := []) (by decide) hparsed.restText).2
    obtain ⟨following, hfollowing, rfl⟩ := map_eq_some_iff.mp h
    have hwell := ih hfollowing hrest
    cases following with
    | nil => exact absurd rfl hwell.nonempty
    | cons next following =>
      exact wellFormed_cons.mpr ⟨by simpa using hwild, hparsed.plain, hwell⟩

/-- The segments of a pattern are well formed. -/
theorem parse_wellFormed {pattern : String} (h : parse pattern = some segments) :
    WellFormed segments := by
  simp only [parse, bind_eq_bind, bind_eq_some_iff] at h
  obtain ⟨bytes, hbytes, parsed, hparsed, hcount⟩ := h
  split_ifs at hcount
  cases hcount
  refine parseSegments_wellFormed hparsed ?_
  have htext := isText_asBytes pattern
  rw [afterSlash_eq_some.mp hbytes] at htext
  exact (IsText.split (a := []) (by decide) htext).2

end Parsed

section Matching

/-- The bytes up to the first slash, and those after it. -/
def splitSlash : List UInt8 → List UInt8 × Option (List UInt8)
  | [] => ([], none)
  | byte :: rest =>
    if byte = slash then ([], some rest) else ((byte :: (splitSlash rest).1), (splitSlash rest).2)

/-- Whether one segment of a path fits; what a capture takes may be empty unless the capture
ends the pattern. -/
def Segment.fits (last : Bool) (bytes : List UInt8) : Segment → Bool
  | .literal expected => expected = bytes
  | .capture lead => lead.isPrefixOf bytes && (!last || lead.length < bytes.length)
  | .wildcard _ => false

/-- Whether segments match a path after its first slash. -/
def matchesRest : List Segment → List UInt8 → Bool
  | [], _ => false
  | [.wildcard lead], rest => lead.isPrefixOf rest && lead.length < rest.length
  | segment :: segments, rest =>
    match splitSlash rest with
    | (bytes, none) => segments.isEmpty && segment.fits true bytes
    | (bytes, some next) => segment.fits false bytes && matchesRest segments next

/-- Whether segments match a path. -/
def matchesPath (segments : List Segment) (path : List UInt8) : Bool :=
  (afterSlash path).any (matchesRest segments)

/-- The part of a path that begins with a slash, if there is one. -/
def fromSlash : Option (List UInt8) → List UInt8
  | none => []
  | some next => slash :: next

variable {next : Option (List UInt8)} {segment : Segment} {segments : List Segment}

theorem splitSlash_eq {rest bytes : List UInt8} :
    splitSlash rest = (bytes, next) ↔ slash ∉ bytes ∧ rest = bytes ++ fromSlash next := by
  induction rest generalizing bytes with
  | nil =>
    rw [splitSlash, Prod.mk.injEq]
    constructor
    · rintro ⟨rfl, rfl⟩
      simp [fromSlash]
    · rintro ⟨-, heq⟩
      obtain ⟨rfl, hnext⟩ := nil_eq_append_iff.mp heq
      cases next with
      | none => exact ⟨rfl, rfl⟩
      | some next => cases hnext
  | cons byte rest ih =>
    rw [splitSlash]
    split_ifs with hslash
    · subst hslash
      rw [Prod.mk.injEq]
      constructor
      · rintro ⟨rfl, rfl⟩
        simp [fromSlash]
      · rintro ⟨hmem, heq⟩
        cases bytes with
        | nil =>
          cases next with
          | none => cases heq
          | some next => exact ⟨rfl, by rw [(List.cons.inj heq).2]⟩
        | cons first bytes =>
          have hfirst := (List.cons.inj heq).1
          exact absurd (hfirst ▸ mem_cons_self ..) hmem
    · rcases hsplit : splitSlash rest with ⟨segment, following⟩
      rw [Prod.mk.injEq]
      constructor
      · rintro ⟨rfl, rfl⟩
        obtain ⟨hmem, rfl⟩ := ih.mp hsplit
        exact ⟨by simp [hmem, Ne.symm hslash], rfl⟩
      · rintro ⟨hmem, heq⟩
        cases bytes with
        | nil =>
          cases next with
          | none => cases heq
          | some next => exact absurd (List.cons.inj heq).1 hslash
        | cons first bytes =>
          obtain ⟨rfl, hrest⟩ := List.cons.inj heq
          have hsame := ih.mpr ⟨fun h => hmem (mem_cons_of_mem _ h), hrest⟩
          rw [hsplit, Prod.mk.injEq] at hsame
          exact ⟨by rw [hsame.1], hsame.2⟩

/-- A lead without a slash lies within the first segment. -/
theorem prefix_of_splitSlash {lead bytes : List UInt8} (hlead : slash ∉ lead)
    (h : lead <+: bytes ++ fromSlash next) : lead <+: bytes := by
  induction bytes generalizing lead with
  | nil =>
    cases lead with
    | nil => exact prefix_rfl
    | cons byte lead =>
      cases next with
      | none => exact absurd h.length_le (by simp [fromSlash])
      | some next =>
        obtain ⟨hbyte, -⟩ := cons_prefix_cons.mp h
        exact absurd (hbyte ▸ mem_cons_self ..) hlead
  | cons first bytes ih =>
    cases lead with
    | nil => exact nil_prefix
    | cons byte lead =>
      obtain ⟨hbyte, hrest⟩ := cons_prefix_cons.mp h
      exact cons_prefix_cons.mpr
        ⟨hbyte, ih (fun hmem => hlead (mem_cons_of_mem _ hmem)) hrest⟩

/-- A wildcard alone matches its lead followed by at least one byte. -/
theorem matchesRest_wildcard {lead rest : List UInt8} :
    matchesRest [.wildcard lead] rest = true ↔ lead <+: rest ∧ lead.length < rest.length := by
  simp [matchesRest]

/-- The last segment takes all that is left. -/
theorem matchesRest_last {bytes : List UInt8} (hseg : segment.isWildcard = false)
    (hbytes : slash ∉ bytes) : matchesRest [segment] bytes = segment.fits true bytes := by
  have hsplit : splitSlash bytes = (bytes, none) := splitSlash_eq.mpr ⟨hbytes, (append_nil _).symm⟩
  cases segment with
  | wildcard => cases hseg
  | literal | capture => simp [matchesRest, hsplit]

/-- Another segment takes the bytes up to the next slash. -/
theorem matchesRest_cons {segment next : Segment} {bytes rest : List UInt8}
    (hbytes : slash ∉ bytes) :
    matchesRest (segment :: next :: segments) (bytes ++ slash :: rest) =
      (segment.fits false bytes && matchesRest (next :: segments) rest) := by
  have hsplit : splitSlash (bytes ++ slash :: rest) = (bytes, some rest) :=
    splitSlash_eq.mpr ⟨hbytes, rfl⟩
  simp [matchesRest, hsplit]

/-- How segments match a path that is not empty: the last one takes all that is left, another
one the bytes up to the next slash. -/
theorem matchesRest_cases {rest : List UInt8} (hseg : segment.isWildcard = false)
    (h : matchesRest (segment :: segments) rest = true) :
    (segments = [] ∧ slash ∉ rest ∧ segment.fits true rest = true) ∨
      ∃ bytes next, slash ∉ bytes ∧ rest = bytes ++ slash :: next ∧
        segment.fits false bytes = true ∧ matchesRest segments next = true := by
  rcases hsplit : splitSlash rest with ⟨bytes, next⟩
  obtain ⟨hbytes, rfl⟩ := splitSlash_eq.mp hsplit
  have hunfold : matchesRest (segment :: segments) (bytes ++ fromSlash next) =
      match splitSlash (bytes ++ fromSlash next) with
      | (bytes, none) => segments.isEmpty && segment.fits true bytes
      | (bytes, some next) => segment.fits false bytes && matchesRest segments next := by
    cases segment with
    | wildcard => cases hseg
    | literal | capture => rw [matchesRest]; simp
  rw [hunfold, hsplit] at h
  cases next with
  | none =>
    rw [Bool.and_eq_true, List.isEmpty_iff] at h
    refine Or.inl ⟨h.1, ?_, ?_⟩
    · simpa [fromSlash] using hbytes
    · simpa [fromSlash] using h.2
  | some next =>
    rw [Bool.and_eq_true] at h
    exact Or.inr ⟨bytes, next, hbytes, rfl, h.1, h.2⟩

end Matching

end Batter.Axum
