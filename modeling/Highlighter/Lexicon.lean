import Highlighter.Grammar
import Highlighter.Escape

/-! # Lexicons — the patterns of a grammar, ready to search

    A lexicon holds the definitions whose patterns could be read, in their order; a region
    whose opening pattern matches the empty text is left out.  All opening patterns are
    also merged into one alternation, so that one search tells whether a region opens
    ahead; which one it is, is settled at the place found.  Where the merged pattern
    cannot be read, each opening pattern is searched for by itself. -/

namespace Highlighter

/-- The definitions of a grammar in use. -/
structure Lexicon where
  regions : List RegionDef := []
  tokens  : List TokenDef := []
  merged  : Option Matcher := none
  escape  : Option Char := none
  deriving Inhabited

/-- A region found to open. -/
structure RegionStart where
  tag   : Nat
  start : Nat
  stop  : Nat
  deriving DecidableEq, Repr

/-- Outside every region, or inside the region of a tag. -/
inductive ScanState where
  | outside
  | inside (tag : Nat)
  deriving DecidableEq, Repr, Inhabited

/-- A region boundary met by a scan. -/
structure Step where
  /-- Where the text of the delimiter begins. -/
  textStart : Nat
  /-- The boundary itself. -/
  offset    : Nat
  /-- Where scanning goes on. -/
  next      : Nat
  /-- The state after the boundary. -/
  state     : ScanState
  deriving DecidableEq, Repr

namespace Lexicon

/-- A lexicon with no definitions. -/
def empty : Lexicon := {}

/-- Greatest number of region definitions. -/
def regionLimit : Nat := 65535

/-- A region whose opening pattern matches the empty text would open everywhere. -/
def opensOnNothing (d : RegionDef) : Bool := (d.start.find? #[] 0).isSome

/-- The alternation of the opening patterns, as a pattern. -/
def mergedSource (regions : List RegionDef) : String :=
  "|".intercalate (regions.map fun d => "(?:" ++ d.source ++ ")")

section Reading

variable (compile : String → Option Matcher)

/-- The usable region definitions of some rules. -/
def usableRegions (rules : List RegionRule) : List RegionDef :=
  rules.filterMap fun r =>
    match r.readBy compile with
    | .ok d => if opensOnNothing d then none else some d
    | .error _ => none

/-- The usable token definitions of some rules. -/
def usableTokens (rules : List TokenRule) : List TokenDef :=
  rules.filterMap fun r => (r.readBy compile).toOption

/-- The opening patterns merged; none without regions, or where merging clashes. -/
def mergedStart (regions : List RegionDef) : Option Matcher :=
  if regions.isEmpty then none else compile (mergedSource regions)

/-- The lexicon of a grammar whose patterns are read by `compile`. -/
def ofGrammarBy (g : Grammar) : Lexicon :=
  let regions := (usableRegions compile g.regions).take regionLimit
  { regions
    tokens := usableTokens compile g.tokens
    merged := mergedStart compile regions
    escape := g.escape }

end Reading

/-- The lexicon of a grammar. -/
def ofGrammar (g : Grammar) : Lexicon := ofGrammarBy Regex.compile? g

/-- Some region can open. -/
def hasRegions (lex : Lexicon) : Bool := !lex.regions.isEmpty

def region? (lex : Lexicon) (tag : Nat) : Option RegionDef := lex.regions[tag]?

variable (lex : Lexicon) (text : Array Char)

/-! ## Region starts -/

/-- The first start at or after `p` of each opening pattern by itself, the least of them. -/
def leastStart? (p : Nat) : Option Nat :=
  (lex.regions.filterMap fun d => (nextUnescaped text lex.escape d.start p).map (·.start)).min?

/-- The first place at or after `p` where some opening pattern matches unescaped. -/
def candidate? (p : Nat) : Option Nat :=
  match lex.merged with
  | some r => (nextUnescaped text lex.escape r p).map (·.start)
  | none => lex.leastStart? text p

/-- The first of the definitions, numbered from `tag`, whose opening pattern matches some
    chars at `p`.  Each is searched for from there, and a match that begins later does not
    count. -/
def firstStartAt? (p : Nat) : (tag : Nat) → List RegionDef → Option RegionStart
  | _, [] => none
  | tag, d :: rest =>
    match d.start.find? text p with
    | none => firstStartAt? p (tag + 1) rest
    | some m =>
      if m.start ≠ p then firstStartAt? p (tag + 1) rest
      else if m.isEmpty then firstStartAt? p (tag + 1) rest
      else some ⟨tag, m.start, m.stop⟩

variable {lex text}

/-- A candidate lies between where it was sought and the end of the text. -/
theorem candidate?_bounds {p c : Nat} (h : lex.candidate? text p = some c) :
    p ≤ c ∧ c ≤ text.size := by
  unfold candidate? at h
  split at h
  · obtain ⟨m, hm, rfl⟩ := Option.map_eq_some_iff.1 h
    have := nextUnescaped_bounds hm
    omega
  · have hmem := List.min?_mem h
    obtain ⟨d, -, hd⟩ := List.mem_filterMap.1 hmem
    obtain ⟨m, hm, rfl⟩ := Option.map_eq_some_iff.1 hd
    have := nextUnescaped_bounds hm
    omega

/-- A definition is the first when its opening pattern matches some chars that begin at `p`. -/
theorem firstStartAt?_cons (p tag : Nat) (d : RegionDef) (rest : List RegionDef) :
    firstStartAt? text p tag (d :: rest) =
      match d.start.endAt? text p with
      | some q => if p < q then some ⟨tag, p, q⟩ else firstStartAt? text p (tag + 1) rest
      | none => firstStartAt? text p (tag + 1) rest := by
  rw [firstStartAt?]
  cases hm : d.start.find? text p with
  | none =>
      rw [Matcher.endAt?, hm]
      rfl
  | some m =>
      by_cases hstart : m.start = p
      · rw [Matcher.endAt?_of_find? hm hstart]
        subst hstart
        by_cases hlt : m.start < m.stop
        · simp [Extent.isEmpty, hlt, Nat.not_le.2 hlt]
        · simp [Extent.isEmpty, hlt, Nat.not_lt.1 hlt]
      · rw [Matcher.endAt?_eq_none_of_ne hm hstart]
        simp [hstart]

/-- A start that is found begins at the candidate, and has a char. -/
theorem firstStartAt?_bounds {p tag : Nat} {ds : List RegionDef} {m : RegionStart}
    (h : firstStartAt? text p tag ds = some m) : m.start = p ∧ p < m.stop ∧ m.stop ≤ text.size := by
  induction ds generalizing tag with
  | nil => simp [firstStartAt?] at h
  | cons d rest ih =>
      rw [firstStartAt?_cons] at h
      split at h
      · rename_i q hq
        split at h
        · obtain rfl := Option.some.inj h
          exact ⟨rfl, by assumption, (Matcher.endAt?_bounds hq).2⟩
        · exact ih h
      · exact ih h

variable (lex text)

/-- The next unescaped region start at or after `p`.  Of the definitions that match there the
    first wins; a match of no chars opens nothing. -/
def findStart (p : Nat) : Option RegionStart :=
  match _hc : lex.candidate? text p with
  | none => none
  | some c =>
    match firstStartAt? text c 0 lex.regions with
    | some m => some m
    | none => findStart (c + 1)
termination_by text.size + 1 - p
decreasing_by
  have := candidate?_bounds _hc
  omega

/-- The next unescaped end of the region of a tag at or after `p`. -/
def findStop (tag p : Nat) : Option Extent := do
  let d ← lex.region? tag
  nextUnescaped text lex.escape d.stop p

/-! ## Steps -/

/-- The next boundary at or after `p`: outside, where the next region start begins; inside, where
    the next match of the region's closing pattern ends. -/
def step (p : Nat) : ScanState → Option Step
  | .outside => (lex.findStart text p).map fun m => ⟨m.start, m.start, m.stop, .inside m.tag⟩
  | .inside tag => (lex.findStop text tag p).map fun m => ⟨m.start, m.stop, m.stop, .outside⟩

variable {lex text}

/-- A start that is found lies where it was sought, and has a char. -/
theorem findStart_bounds {p : Nat} {m : RegionStart} (h : lex.findStart text p = some m) :
    p ≤ m.start ∧ m.start < m.stop ∧ m.stop ≤ text.size := by
  fun_induction findStart lex text p with
  | case1 => simp at h
  | case2 p c hc m' hm =>
      obtain rfl := Option.some.inj h
      have h1 := candidate?_bounds hc
      have h2 := firstStartAt?_bounds hm
      omega
  | case3 p c hc _ ih =>
      have h1 := candidate?_bounds hc
      have h2 := ih h
      omega

/-- A step goes forward and stays inside the text; one that opens a region moves on. -/
theorem step_bounds {p : Nat} {state : ScanState} {s : Step} (h : lex.step text p state = some s) :
    p ≤ s.next ∧ s.next ≤ text.size ∧ (state = .outside → p < s.next) := by
  cases state with
  | outside =>
      obtain ⟨m, hm, rfl⟩ := Option.map_eq_some_iff.1 h
      have := findStart_bounds hm
      exact ⟨by simp only; omega, this.2.2, fun _ => by simp only; omega⟩
  | inside tag =>
      obtain ⟨m, hm, rfl⟩ := Option.map_eq_some_iff.1 h
      obtain ⟨d, -, hd⟩ := Option.bind_eq_some_iff.1 hm
      have := nextUnescaped_bounds hd
      exact ⟨by simp only; omega, this.2.2, fun h => by simp at h⟩

/-- The state after a step is the other one: a region opens outside and closes inside. -/
theorem step_state {p : Nat} {state : ScanState} {s : Step} (h : lex.step text p state = some s) :
    state = .outside ↔ s.state ≠ .outside := by
  cases state with
  | outside =>
      obtain ⟨m, -, rfl⟩ := Option.map_eq_some_iff.1 h
      simp
  | inside tag =>
      obtain ⟨m, -, rfl⟩ := Option.map_eq_some_iff.1 h
      simp

variable (lex text)

/-- Steps that scanning can still take: two for every char left, one more inside a region. -/
def stepsLeft (p : Nat) (state : ScanState) : Nat :=
  2 * (text.size - p) + (if state = .outside then 0 else 1)

variable {lex text}

/-- Every step leaves fewer steps to come, also one over an end that has no char. -/
theorem stepsLeft_lt {p : Nat} {state : ScanState} {s : Step}
    (h : lex.step text p state = some s) :
    stepsLeft text s.next s.state < stepsLeft text p state := by
  have h1 := step_bounds h
  have h2 := step_state h
  unfold stepsLeft
  by_cases hs : state = .outside
  · have h3 := h1.2.2 hs
    have h4 := h2.1 hs
    rw [if_pos hs, if_neg h4]
    omega
  · have h4 : s.state = .outside := by
      by_cases h5 : s.state = .outside
      · exact h5
      · exact absurd (h2.2 h5) hs
    rw [if_neg hs, if_pos h4]
    omega

variable (lex text)

/-- Every boundary from `p` on, by repeated steps. -/
def scan (p : Nat) (state : ScanState) : List Step :=
  match _hs : lex.step text p state with
  | none => []
  | some s => s :: scan s.next s.state
termination_by stepsLeft text p state
decreasing_by exact stepsLeft_lt _hs

end Lexicon

end Highlighter
