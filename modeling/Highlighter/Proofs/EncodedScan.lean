import Highlighter.Lexicon.Encoded
import Highlighter.Proofs.Batches
import Highlighter.Proofs.EscapedSearch

/-! # Encoded scan — scans by byte offsets are scans by char positions

    With the matchers of a lexicon in place of its patterns, each relation of an encoded scan
    has one answer, and that is what the function of the same kind answers by char positions.
    A byte offset of the one is the length of the code up to a position of the other
    (`offset`), and the counter of a scan takes it back to that position, whatever it was
    asked for before (`charOffset?_offset`).

    * `starts_iff` — the search for region starts.
    * `steps_iff` — one step of a scan.
    * `batches_iff` — the scan of a batch, with its boundaries in chars of the whole text.
    * `confirms_iff` — the scan of edited lines. -/

namespace Highlighter
namespace Encoded

variable {text : Array Char} {base p : Nat}

/-! ## Chars of a slice -/

/-- A char number is turned into the byte offset of its char. -/
theorem byteOfChar_eq (hp : p ≤ text.size) : byteOfChar text.toList p = offset text p := by
  have hall : ∀ (cs : List Char) (n : Nat), byteOfChar cs n = (utf8 (cs.take n)).length := by
    intro cs
    induction cs with
    | nil => intro n; cases n <;> rfl
    | cons c cs ih =>
        intro n
        cases n with
        | zero => rfl
        | succ n => rw [byteOfChar, ih, List.take_succ_cons, length_utf8_cons]
  rw [hall, offset_eq hp]

/-- A counter that has been asked for the byte offset of a position. -/
def CharCounter.upTo (text : Array Char) (q : Nat) : CharCounter := ⟨offset text q, q⟩

/-- A new counter has come to the start of the text. -/
theorem CharCounter.upTo_zero (text : Array Char) : CharCounter.upTo text 0 = {} := by
  rw [upTo, offset_eq (Nat.zero_le _)]
  rfl

/-- **Whatever it was asked for before, a counter takes the byte offset of a position back to it.** -/
theorem CharCounter.charOffset?_offset (base q : Nat) (hp : p ≤ text.size) :
    (upTo text q).charOffset? text base (offset text p) = some (base + p, upTo text p) := by
  have hcap : min (offset text p) (byteLength text) = offset text p :=
    Nat.min_eq_left (offset_le_byteLength hp)
  -- the count goes on from a position at or before it
  obtain ⟨i, hi, hcounter⟩ : ∃ i, i ≤ p ∧
      (if offset text p < (upTo text q).byte then {} else upTo text q) = upTo text i := by
    by_cases hback : offset text p < offset text q
    · exact ⟨0, Nat.zero_le p, (if_pos hback).trans (upTo_zero text).symm⟩
    · exact ⟨q, offset_le_iff.1 (Nat.le_of_not_lt hback), if_neg hback⟩
  have hpassed : splitAt? (text.toList.take p) (offset text i) =
      some (text.toList.take i, (text.toList.take p).drop i) := by
    have hsplit := splitAt?_append ((text.toList.take p).take i) ((text.toList.take p).drop i)
    rw [List.take_append_drop, List.take_take, Nat.min_eq_left hi] at hsplit
    rwa [offset_eq (Nat.le_trans hi hp)]
  have hlength : i + ((text.toList.take p).drop i).length = p := by
    have hsize : text.toList.length = text.size := Array.length_toList
    rw [List.length_drop, List.length_take, hsize]
    omega
  simp only [charOffset?, hcap, hcounter, splitAt?_offset hp, Option.bind_eq_bind, Option.bind_some]
  rw [show (upTo text i).byte = offset text i from rfl, hpassed, Option.bind_some]
  simp only [show (upTo text i).chars = i from rfl, hlength]
  rfl

/-! ## Patterns -/

/-- A region start, by byte offsets. -/
def startInBytes (text : Array Char) (m : RegionStart) : RegionStart :=
  ⟨m.tag, offset text m.start, offset text m.stop⟩

/-- A step, by byte offsets. -/
def stepInBytes (text : Array Char) (s : Step) : Step :=
  ⟨offset text s.textStart, offset text s.offset, offset text s.next, s.state⟩

end Encoded

/-- The patterns of a lexicon, asked for matches in a text by byte offset. -/
def Lexicon.encoded (lex : Lexicon) (text : Array Char) : Encoded.Patterns where
  starts := lex.regions.map fun d => Encoded.findFrom text d.start
  stops := lex.regions.map fun d => Encoded.findFrom text d.stop
  merged := lex.merged.map (Encoded.findFrom text)
  escape := lex.escape

namespace Encoded

/-! ## Region starts -/

/-- The least of some positions is at the least of their byte offsets. -/
theorem min?_map_offset (ps : List Nat) : (ps.map (offset text)).min? = ps.min?.map (offset text) := by
  cases h : ps.min? with
  | none =>
      rw [List.min?_eq_none_iff] at h
      rw [h]
      rfl
  | some p =>
      obtain ⟨hmem, hleast⟩ := List.min?_eq_some_iff.1 h
      rw [Option.map_some, List.min?_eq_some_iff]
      refine ⟨List.mem_map_of_mem hmem, ?_⟩
      intro b hb
      obtain ⟨q, hq, rfl⟩ := List.mem_map.1 hb
      exact offset_le_iff.2 (hleast q hq)

/-- The search by byte offsets has the candidate of the search by char positions. -/
theorem candidate_candidate? (lex : Lexicon) (text : Array Char) (p : Nat) :
    Candidate (lex.encoded text) text (offset text p) ((lex.candidate? text p).map (offset text)) := by
  unfold Lexicon.candidate?
  cases hmerged : lex.merged with
  | some r =>
      obtain ⟨asked, hsearch⟩ := searches_nextUnescaped text lex.escape r p
      have hcandidate : Candidate (lex.encoded text) text (offset text p) _ :=
        .merged (congrArg (Option.map (findFrom text)) hmerged) hsearch
      rw [Option.map_map] at hcandidate ⊢
      exact hcandidate
  | none =>
      have hsearches : List.Forall₂ (fun find m =>
          ∃ asked, Searches find text lex.escape (offset text p) asked m) (lex.encoded text).starts
          (lex.regions.map fun d =>
            (nextUnescaped text lex.escape d.start p).map (inBytes text)) := by
        rw [Lexicon.encoded, List.forall₂_map_left_iff, List.forall₂_map_right_iff,
          List.forall₂_same]
        intro d _
        exact searches_nextUnescaped text lex.escape d.start p
      have hcandidate : Candidate (lex.encoded text) text (offset text p) _ :=
        .separate (congrArg (Option.map (findFrom text)) hmerged) hsearches
      have hsame : (fun d : RegionDef =>
          Option.map (·.start) ((nextUnescaped text lex.escape d.start p).map (inBytes text))) =
        fun d =>
          Option.map (offset text) ((nextUnescaped text lex.escape d.start p).map (·.start)) := by
        funext d
        rw [Option.map_map, Option.map_map]
        rfl
      rw [List.filterMap_map] at hcandidate
      rw [Lexicon.leastStart?, ← min?_map_offset, List.map_filterMap, ← hsame]
      exact hcandidate

/-- At a candidate both find the same definition. -/
theorem firstStart?_encoded (hp : p ≤ text.size) (tag : Nat) (ds : List RegionDef) :
    firstStart? (offset text p) tag (ds.map fun d => findFrom text d.start) =
      (Lexicon.firstStartAt? text p tag ds).map (startInBytes text) := by
  induction ds generalizing tag with
  | nil => rfl
  | cons d rest ih =>
      rw [List.map_cons, firstStart?, Lexicon.firstStartAt?, findFrom_offset d.start hp]
      cases hm : d.start.find? text p with
      | none => exact ih (tag + 1)
      | some m =>
          have hstart : (inBytes text m).start = offset text p ↔ m.start = p := offset_inj
          simp only [Option.map_some, ne_eq, hstart, isEmpty_inBytes, ih]
          split
          · rfl
          · split <;> rfl

/-- The search by char positions is the one by byte offsets. -/
theorem starts_findStart (lex : Lexicon) (text : Array Char) (p : Nat) :
    Starts (lex.encoded text) text (offset text p)
      ((lex.findStart text p).map (startInBytes text)) := by
  have hcandidate := candidate_candidate? lex text p
  fun_induction Lexicon.findStart lex text p with
  | case1 p hc =>
      rw [hc] at hcandidate
      by_cases hp : p ≤ text.size
      · exact .none (offset_le_byteLength hp) hcandidate
      · exact .past (byteLength_lt_iff.2 (Nat.not_le.1 hp))
  | case2 p c hc m hm =>
      obtain ⟨hpc, hsize⟩ := Lexicon.candidate?_bounds hc
      rw [hc] at hcandidate
      refine .found (offset_le_byteLength (Nat.le_trans hpc hsize)) hcandidate ?_
      rw [Lexicon.encoded, firstStart?_encoded hsize, hm]
      rfl
  | case3 p c hc hm ih =>
      obtain ⟨hpc, hsize⟩ := Lexicon.candidate?_bounds hc
      rw [hc] at hcandidate
      refine .again (offset_le_byteLength (Nat.le_trans hpc hsize)) hcandidate ?_ (next?_offset hsize)
        (ih (candidate_candidate? lex text (c + 1)))
      rw [Lexicon.encoded, firstStart?_encoded hsize, hm]
      rfl

variable {lex : Lexicon} {ps : Patterns} {byte : Nat}

/-- A search for a candidate has one answer. -/
theorem Candidate.unique {answer answer' : Option Nat} (h : Candidate ps text byte answer)
    (h' : Candidate ps text byte answer') : answer = answer' := by
  cases h with
  | merged hmerged hsearch =>
      cases h' with
      | merged hmerged' hsearch' =>
          obtain rfl := Option.some.inj (hmerged.symm.trans hmerged')
          rw [(hsearch.unique hsearch').2]
      | separate hmerged' _ => exact absurd (hmerged.symm.trans hmerged') (Option.some_ne_none _)
  | separate hmerged hsearches =>
      cases h' with
      | merged hmerged' _ => exact absurd (hmerged'.symm.trans hmerged) (Option.some_ne_none _)
      | separate _ hsearches' =>
          have hone : Relator.RightUnique fun (find : Nat → Option Extent) (m : Option Extent) =>
              ∃ asked, Searches find text ps.escape byte asked m := by
            rintro find m m' ⟨_, hsearch⟩ ⟨_, hsearch'⟩
            exact (hsearch.unique hsearch').2
          rw [hone.forall₂ hsearches hsearches']

/-- A search for a region start goes one way only. -/
theorem Starts.unique {answer answer' : Option RegionStart} (h : Starts ps text byte answer)
    (h' : Starts ps text byte answer') : answer = answer' := by
  induction h with
  | past hpast =>
      cases h' with
      | past => rfl
      | none => rfl
      | found hin => exact absurd hin (Nat.not_le.2 hpast)
      | again hin => exact absurd hin (Nat.not_le.2 hpast)
  | none hin hcandidate =>
      cases h' with
      | past => rfl
      | none => rfl
      | found _ hcandidate' => exact absurd (hcandidate.unique hcandidate') (Option.some_ne_none _).symm
      | again _ hcandidate' => exact absurd (hcandidate.unique hcandidate') (Option.some_ne_none _).symm
  | found hin hcandidate hfirst =>
      cases h' with
      | past hpast => exact absurd hin (Nat.not_le.2 hpast)
      | none _ hcandidate' => exact absurd (hcandidate.unique hcandidate') (Option.some_ne_none _)
      | found _ hcandidate' hfirst' =>
          obtain rfl := Option.some.inj (hcandidate.unique hcandidate')
          exact hfirst.symm.trans hfirst'
      | again _ hcandidate' hfirst' =>
          obtain rfl := Option.some.inj (hcandidate.unique hcandidate')
          exact absurd (hfirst.symm.trans hfirst') (Option.some_ne_none _)
  | again hin hcandidate hfirst hnext _ ih =>
      cases h' with
      | past hpast => exact absurd hin (Nat.not_le.2 hpast)
      | none _ hcandidate' => exact absurd (hcandidate.unique hcandidate') (Option.some_ne_none _)
      | found _ hcandidate' hfirst' =>
          obtain rfl := Option.some.inj (hcandidate.unique hcandidate')
          exact absurd (hfirst'.symm.trans hfirst) (Option.some_ne_none _)
      | again _ hcandidate' _ hnext' hrest' =>
          obtain rfl := Option.some.inj (hcandidate.unique hcandidate')
          obtain rfl := Option.some.inj (hnext.symm.trans hnext')
          exact ih hrest'

/-- **The search for a start by byte offsets** answers what the search by char positions finds, and
    nothing else. -/
theorem starts_iff {answer : Option RegionStart} :
    Starts (lex.encoded text) text (offset text p) answer ↔
      answer = (lex.findStart text p).map (startInBytes text) := by
  constructor
  · intro h
    exact h.unique (starts_findStart lex text p)
  · rintro rfl
    exact starts_findStart lex text p

/-! ## Steps -/

/-- A step by byte offsets is the step by char positions. -/
theorem steps_step (lex : Lexicon) (text : Array Char) (p : Nat) (state : ScanState) :
    Steps (lex.encoded text) text (offset text p) state
      ((lex.step text p state).map (stepInBytes text)) := by
  cases state with
  | outside =>
      have hsteps := Steps.outside (starts_findStart lex text p)
      rw [Lexicon.step]
      rw [Option.map_map] at hsteps ⊢
      exact hsteps
  | inside tag =>
      rw [Lexicon.step, Lexicon.findStop]
      cases hd : lex.region? tag with
      | none =>
          refine .unknown ?_
          rw [Lexicon.encoded, List.getElem?_map]
          exact congrArg (Option.map _) hd
      | some d =>
          obtain ⟨asked, hsearch⟩ := searches_nextUnescaped text lex.escape d.stop p
          have hfind : (lex.encoded text).stops[tag]? = some (findFrom text d.stop) := by
            rw [Lexicon.encoded, List.getElem?_map]
            exact congrArg (Option.map _) hd
          have hsteps : Steps (lex.encoded text) text (offset text p) (.inside tag) _ :=
            .inside hfind hsearch
          rw [Option.map_map] at hsteps
          show Steps _ _ _ _ (((nextUnescaped text lex.escape d.stop p).map _).map _)
          rw [Option.map_map]
          exact hsteps

theorem Steps.unique {state : ScanState} {answer answer' : Option Step}
    (h : Steps ps text byte state answer) (h' : Steps ps text byte state answer') :
    answer = answer' := by
  cases h with
  | outside hstarts =>
      cases h' with
      | outside hstarts' => rw [hstarts.unique hstarts']
  | inside hfind hsearch =>
      cases h' with
      | inside hfind' hsearch' =>
          obtain rfl := Option.some.inj (hfind.symm.trans hfind')
          rw [(hsearch.unique hsearch').2]
      | unknown hfind' => exact absurd (hfind.symm.trans hfind') (Option.some_ne_none _)
  | unknown hfind =>
      cases h' with
      | inside hfind' => exact absurd (hfind'.symm.trans hfind) (Option.some_ne_none _)
      | unknown => rfl

/-- The step by byte offsets is the step by char positions, and no other. -/
theorem steps_iff {state : ScanState} {answer : Option Step} :
    Steps (lex.encoded text) text (offset text p) state answer ↔
      answer = (lex.step text p state).map (stepInBytes text) := by
  constructor
  · intro h
    exact h.unique (steps_step lex text p state)
  · rintro rfl
    exact steps_step lex text p state

/-! ## Batches -/

/-- Where a scan is, by byte offsets. -/
def Position.inBytes (text : Array Char) (p : Nat) (state : ScanState) (q : Nat) : Position :=
  ⟨offset text p, state, .upTo text q⟩

/-- A scan begins with a counter that has not been asked for anything. -/
theorem begin_inBytes {state : ScanState} (hp : p ≤ text.size) :
    (⟨byteOfChar text.toList p, state, {}⟩ : Position) = .inBytes text p state 0 := by
  rw [Position.inBytes, CharCounter.upTo_zero, byteOfChar_eq hp]

theorem bound_inBytes {bound : Option Nat} (hbound : ∀ b, bound = some b → b ≤ text.size) :
    bound.map (byteOfChar text.toList) = bound.map (offset text) :=
  Option.map_congr fun b hb => byteOfChar_eq (hbound b hb)

/-- Whether a step begins before a bound. -/
theorem filter_bound (bound : Option Nat) (step : Option Step) :
    (step.map (stepInBytes text)).filter
        (fun s => !(bound.map (offset text)).any fun b => decide (b ≤ s.textStart)) =
      (step.filter fun s => !bound.any fun b => decide (b ≤ s.textStart)).map (stepInBytes text) := by
  cases step with
  | none => rfl
  | some s =>
      have hbound : ((bound.map (offset text)).any fun b => decide (b ≤ (stepInBytes text s).textStart)) =
          bound.any fun b => decide (b ≤ s.textStart) := by
        cases bound with
        | none => rfl
        | some b => exact decide_eq_decide.2 offset_le_iff
      simp only [Option.map_some, Option.filter_some, hbound]
      split <;> rfl

/-- A step lies inside the text. -/
theorem step_within {state : ScanState} {s : Step} {p : Nat} (h : lex.step text p state = some s) :
    s.textStart ≤ text.size ∧ s.offset ≤ text.size ∧ s.next ≤ text.size := by
  cases state with
  | outside =>
      obtain ⟨m, hm, rfl⟩ := Option.map_eq_some_iff.1 h
      obtain ⟨-, hlt, hsize⟩ := Lexicon.findStart_bounds hm
      have hstart : m.start ≤ text.size := Nat.le_trans (Nat.le_of_lt hlt) hsize
      exact ⟨hstart, hstart, hsize⟩
  | inside tag =>
      obtain ⟨m, hm, rfl⟩ := Option.map_eq_some_iff.1 h
      obtain ⟨d, -, hd⟩ := Option.bind_eq_some_iff.1 hm
      obtain ⟨-, hle, hsize⟩ := nextUnescaped_bounds hd
      exact ⟨Nat.le_trans hle hsize, hsize, hsize⟩

/-- A round with no step before the bound ends the scan where it is. -/
theorem batchTurn_of_none {window : Array Char} {bound : Option Nat} {saved : Option SavedTail}
    {state : ScanState} {step : Option Step} {p : Nat} (base q : Nat) (hp : p ≤ window.size)
    (h : (step.filter fun s => !bound.any fun b => decide (b ≤ s.textStart)) = none) :
    batchTurn window base (bound.map (offset window)) (.inBytes window p state q) saved
        (step.map (stepInBytes window)) =
      some (.done ([], .reached p state saved)) := by
  rw [batchTurn, filter_bound, h, Option.map_none]
  simp only [Position.inBytes, CharCounter.charOffset?_offset base q hp, Option.bind_eq_bind,
    Option.bind_some, Nat.add_sub_cancel_left]
  rfl

/-- A round with a step before the bound finds its boundary. -/
theorem batchTurn_of_some {window : Array Char} {bound : Option Nat} {saved saved' : Option SavedTail}
    {state : ScanState} {step : Option Step} {s : Step} {b : Boundary} {p : Nat} (base q : Nat)
    (hs : s.offset ≤ window.size)
    (h : (step.filter fun s => !bound.any fun b => decide (b ≤ s.textStart)) = some s)
    (hb : b = Boundary.into (base + s.offset) s.state)
    (hsaved : saved' = saved.bind (·.discardBefore b.offset)) :
    batchTurn window base (bound.map (offset window)) (.inBytes window p state q) saved
        (step.map (stepInBytes window)) =
      match saved'.bind (·.behind? b) with
      | some behind => some (.done ([b], .spliced b.offset behind (saved'.bind (·.frontier))))
      | none => some (.again (b, .inBytes window s.next s.state s.offset, saved')) := by
  subst hb hsaved
  rw [batchTurn, filter_bound, h, Option.map_some]
  simp only [Position.inBytes, stepInBytes, CharCounter.charOffset?_offset base q hs,
    Option.bind_eq_bind, Option.bind_some]
  rfl

/-- **The scan of a batch by byte offsets** finds what the scan by char positions finds. -/
theorem batches_scanBatch (lex : Lexicon) (window : Array Char) (base : Nat) (bound : Option Nat)
    (q : Nat) {p : Nat} (state : ScanState) (saved : Option SavedTail) (hp : p ≤ window.size) :
    Batches (lex.encoded window) window base (bound.map (offset window))
      (.inBytes window p state q) saved
      (Analysis.scanBatch lex window base bound p state saved) := by
  fun_induction Analysis.scanBatch lex window base bound p state saved generalizing q with
  | case1 p state saved hs =>
      refine .done (steps_step lex window p state) (batchTurn_of_none base q hp ?_)
      rw [hs]
      rfl
  | case2 p state saved s hs hbound =>
      refine .done (steps_step lex window p state) (batchTurn_of_none base q hp ?_)
      rw [hs, Option.filter_some, hbound]
      rfl
  | case3 p state saved s hs hbound b saved' behind hbehind =>
      have hbefore : (lex.step window p state).filter
          (fun s => !bound.any fun b => decide (b ≤ s.textStart)) = some s := by
        rw [hs, Option.filter_some, Bool.eq_false_iff.2 hbound]
        rfl
      refine .done (steps_step lex window p state) ?_
      rw [batchTurn_of_some base q (step_within hs).2.1 hbefore rfl rfl, hbehind]
  | case4 p state saved s hs hbound b saved' hbehind found stop heq ih =>
      have hbefore : (lex.step window p state).filter
          (fun s => !bound.any fun b => decide (b ≤ s.textStart)) = some s := by
        rw [hs, Option.filter_some, Bool.eq_false_iff.2 hbound]
        rfl
      have hrest := ih s.offset (Lexicon.step_bounds hs).2.1
      rw [heq] at hrest
      refine .again (steps_step lex window p state) ?_ hrest
      rw [batchTurn_of_some base q (step_within hs).2.1 hbefore rfl rfl, hbehind]

theorem Batches.unique {at' : Position} {bound : Option Nat} {saved : Option SavedTail}
    {answer answer' : List Boundary × BatchEnd} (h : Batches ps text base bound at' saved answer)
    (h' : Batches ps text base bound at' saved answer') : answer = answer' := by
  induction h generalizing answer' with
  | done hstep hturn =>
      cases h' with
      | done hstep' hturn' =>
          obtain rfl := hstep.unique hstep'
          exact Turn.done.inj (Option.some.inj (hturn.symm.trans hturn'))
      | again hstep' hturn' =>
          obtain rfl := hstep.unique hstep'
          exact nomatch Option.some.inj (hturn.symm.trans hturn')
  | again hstep hturn _ ih =>
      cases h' with
      | done hstep' hturn' =>
          obtain rfl := hstep.unique hstep'
          exact nomatch Option.some.inj (hturn.symm.trans hturn')
      | again hstep' hturn' hrest' =>
          obtain rfl := hstep.unique hstep'
          have heq := Turn.again.inj (Option.some.inj (hturn.symm.trans hturn'))
          simp only [Prod.mk.injEq] at heq
          obtain ⟨rfl, rfl, rfl⟩ := heq
          have hrest := ih hrest'
          simp only [Prod.mk.injEq] at hrest
          obtain ⟨rfl, rfl⟩ := hrest
          rfl

/-- The scan of a batch begins at a char number and ends before one; what it finds is what the
    scan by char positions finds. -/
theorem batches_iff {window : Array Char} {bound : Option Nat} {state : ScanState}
    {saved : Option SavedTail} {answer : List Boundary × BatchEnd} (hp : p ≤ window.size)
    (hbound : ∀ b, bound = some b → b ≤ window.size) :
    Batches (lex.encoded window) window base (bound.map (byteOfChar window.toList))
        ⟨byteOfChar window.toList p, state, {}⟩ saved answer ↔
      answer = Analysis.scanBatch lex window base bound p state saved := by
  have hscan := batches_scanBatch lex window base bound 0 state saved hp
  rw [bound_inBytes hbound, begin_inBytes hp]
  constructor
  · intro h
    exact h.unique hscan
  · rintro rfl
    exact hscan

/-! ## Edited lines -/

/-- A counter takes a step by byte offsets back to chars of the whole text. -/
theorem CharCounter.place?_stepInBytes (base q : Nat) {s : Step} (hfrom : s.textStart ≤ text.size)
    (hoffset : s.offset ≤ text.size) (hnext : s.next ≤ text.size) :
    (upTo text q).place? text base (stepInBytes text s) =
      some ({ s with
        textStart := base + s.textStart, offset := base + s.offset, next := base + s.next },
        upTo text s.next) := by
  simp only [place?, stepInBytes, charOffset?_offset base _ hfrom, charOffset?_offset base _ hoffset,
    charOffset?_offset base _ hnext, Option.bind_eq_bind, Option.bind_some]
  rfl

/-- A round with no step before the bound asks for no more boundaries. -/
theorem confirmTurn_of_none {window : Array Char} {bound : Option Nat} {e : Edit}
    {at' : Position} {expected : List Boundary} {step : Option Step} (base : Nat)
    (h : (step.filter fun s => !bound.any fun b => decide (b ≤ s.textStart)) = none) :
    confirmTurn window base (bound.map (offset window)) e at' expected
        (step.map (stepInBytes window)) = some (.done expected.isEmpty) := by
  rw [confirmTurn, filter_bound, h]
  rfl

/-- A round with a step before the bound is one of the edited lines. -/
theorem confirmTurn_of_some {window : Array Char} {bound : Option Nat} {state : ScanState}
    {s : Step} {p : Nat} (e : Edit) (expected : List Boundary) (base q : Nat)
    (hs : lex.step window p state = some s)
    (h : ((lex.step window p state).filter fun s => !bound.any fun b => decide (b ≤ s.textStart)) =
      some s) :
    confirmTurn window base (bound.map (offset window)) e (.inBytes window p state q) expected
        ((lex.step window p state).map (stepInBytes window)) =
      if base + s.textStart ≤ e.newStop ∧ e.pos ≤ base + s.next then some (.done false)
      else
        match expected with
        | [] => some (.done false)
        | b :: rest =>
          if b = Boundary.into (base + s.offset) s.state then
            some (.again (.inBytes window s.next s.state s.next, rest))
          else some (.done false) := by
  obtain ⟨hfrom, hoffset, hnext⟩ := step_within hs
  rw [confirmTurn, filter_bound, h, Option.map_some]
  simp only [Position.inBytes, CharCounter.place?_stepInBytes base q hfrom hoffset hnext,
    Option.bind_eq_bind, Option.bind_some]
  rfl

/-- **The scan of edited lines by byte offsets** confirms what the scan by char positions does. -/
theorem confirms_confirms (lex : Lexicon) (window : Array Char) (base : Nat) (bound : Option Nat)
    (e : Edit) (budget : Nat) (p q : Nat) (state : ScanState) (expected : List Boundary) :
    Confirms (lex.encoded window) window base (bound.map (offset window)) e budget
      (.inBytes window p state q) expected
      (Analysis.confirms lex window base bound e budget p state expected) := by
  induction budget generalizing p q state expected with
  | zero => exact .spent
  | succ budget ih =>
      have hsteps := steps_step lex window p state
      rw [Analysis.confirms]
      cases hs : lex.step window p state with
      | none =>
          refine .done hsteps (confirmTurn_of_none base ?_)
          rw [hs]
          rfl
      | some s =>
          by_cases hbound : (bound.any fun b => decide (b ≤ s.textStart)) = true
          · simp only [hbound, if_true]
            refine .done hsteps (confirmTurn_of_none base ?_)
            rw [hs, Option.filter_some, hbound]
            rfl
          · have hbefore : (lex.step window p state).filter
                (fun s => !bound.any fun b => decide (b ≤ s.textStart)) = some s := by
              rw [hs, Option.filter_some, Bool.eq_false_iff.2 hbound]
              rfl
            have hturn := confirmTurn_of_some e expected base q hs hbefore
            simp only [hbound, Bool.false_eq_true, if_false]
            by_cases htouch : base + s.textStart ≤ e.newStop ∧ e.pos ≤ base + s.next
            · rw [if_pos htouch] at hturn ⊢
              exact .done hsteps hturn
            · rw [if_neg htouch] at hturn ⊢
              cases expected with
              | nil => exact .done hsteps hturn
              | cons b rest =>
                  by_cases hb : b = Boundary.into (base + s.offset) s.state
                  · simp only [hb, if_true] at hturn
                    simp only [hb, beq_self_eq_true, Bool.true_and]
                    exact .again hsteps hturn (ih s.next s.next s.state rest)
                  · simp only [hb, if_false] at hturn
                    simp only [beq_eq_false_iff_ne.2 hb, Bool.false_and]
                    exact .done hsteps hturn

theorem Confirms.unique {bound : Option Nat} {e : Edit} {budget : Nat} {at' : Position}
    {expected : List Boundary} {answer answer' : Bool}
    (h : Confirms ps text base bound e budget at' expected answer)
    (h' : Confirms ps text base bound e budget at' expected answer') : answer = answer' := by
  induction h with
  | spent =>
      cases h'
      rfl
  | done hstep hturn =>
      cases h' with
      | done hstep' hturn' =>
          obtain rfl := hstep.unique hstep'
          exact Turn.done.inj (Option.some.inj (hturn.symm.trans hturn'))
      | again hstep' hturn' =>
          obtain rfl := hstep.unique hstep'
          exact nomatch Option.some.inj (hturn.symm.trans hturn')
  | again hstep hturn _ ih =>
      cases h' with
      | done hstep' hturn' =>
          obtain rfl := hstep.unique hstep'
          exact nomatch Option.some.inj (hturn.symm.trans hturn')
      | again hstep' hturn' hrest' =>
          obtain rfl := hstep.unique hstep'
          have heq := Turn.again.inj (Option.some.inj (hturn.symm.trans hturn'))
          simp only [Prod.mk.injEq] at heq
          obtain ⟨rfl, rfl⟩ := heq
          exact ih hrest'

/-- **The comparison by byte offsets** comes out as the one by char positions. -/
theorem confirms_iff {window : Array Char} {bound : Option Nat} {e : Edit} {budget : Nat}
    {state : ScanState} {expected : List Boundary} {answer : Bool} (hp : p ≤ window.size)
    (hbound : ∀ b, bound = some b → b ≤ window.size) :
    Confirms (lex.encoded window) window base (bound.map (byteOfChar window.toList)) e budget
        ⟨byteOfChar window.toList p, state, {}⟩ expected answer ↔
      answer = Analysis.confirms lex window base bound e budget p state expected := by
  have hscan := confirms_confirms lex window base bound e budget p 0 state expected
  rw [bound_inBytes hbound, begin_inBytes hp]
  constructor
  · intro h
    exact h.unique hscan
  · rintro rfl
    exact hscan

/-! ## Windows -/

/-- A scan up to a line break begins inside its window, and so does what is left to the next. -/
theorem window_within (doc : Document) {start stop : Nat} (hle : start ≤ stop)
    (hstop : stop ≤ doc.length) :
    start - doc.lineStart start ≤ (doc.window start stop).size ∧
      ∀ b, doc.windowBound start stop = some b → b ≤ (doc.window start stop).size := by
  have hahead := doc.le_lookahead hstop
  have hsize : (doc.window start stop).size =
      min (Analysis.lookahead doc stop) doc.length - doc.lineStart start :=
    doc.size_slice _
  refine ⟨by omega, ?_⟩
  intro b hb
  obtain ⟨-, hb⟩ := Option.ite_none_right_eq_some.1 hb
  obtain rfl := Option.some.inj hb
  omega

/-- **Batches of a document**, scanned by byte offsets of their windows. -/
theorem batches_window (lex : Lexicon) (doc : Document) {start stop : Nat} {state : ScanState}
    {saved : Option SavedTail} {answer : List Boundary × BatchEnd} (hle : start ≤ stop)
    (hstop : stop ≤ doc.length) :
    Batches (lex.encoded (doc.window start stop)) (doc.window start stop) (doc.lineStart start)
        ((doc.windowBound start stop).map (byteOfChar (doc.window start stop).toList))
        ⟨byteOfChar (doc.window start stop).toList (start - doc.lineStart start), state, {}⟩ saved
        answer ↔
      answer = Analysis.scanBatch lex (doc.window start stop) (doc.lineStart start)
        (doc.windowBound start stop) (start - doc.lineStart start) state saved := by
  obtain ⟨hbegin, hbound⟩ := window_within doc hle hstop
  exact batches_iff hbegin hbound

/-- **Edited lines of a document**, scanned by byte offsets of their windows. -/
theorem confirms_window (lex : Lexicon) (doc : Document) {start stop : Nat} {e : Edit}
    {budget : Nat} {state : ScanState} {expected : List Boundary} {answer : Bool}
    (hle : start ≤ stop) (hstop : stop ≤ doc.length) :
    Confirms (lex.encoded (doc.window start stop)) (doc.window start stop) (doc.lineStart start)
        ((doc.windowBound start stop).map (byteOfChar (doc.window start stop).toList)) e budget
        ⟨byteOfChar (doc.window start stop).toList (start - doc.lineStart start), state, {}⟩ expected
        answer ↔
      answer = Analysis.confirms lex (doc.window start stop) (doc.lineStart start)
        (doc.windowBound start stop) e budget (start - doc.lineStart start) state expected := by
  obtain ⟨hbegin, hbound⟩ := window_within doc hle hstop
  exact confirms_iff hbegin hbound

end Encoded
end Highlighter
