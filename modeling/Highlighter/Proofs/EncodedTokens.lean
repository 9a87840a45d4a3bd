import Highlighter.Tokens.Encoded
import Highlighter.Proofs.EncodedScan
import Highlighter.Proofs.TokenWalk

/-! # Encoded tokens — tokens by byte offsets are tokens by char positions

    Byte offsets are in the order of the positions that they belong to, so the same match is
    the best whichever is counted (`bestToken_inBytes`), and the search by byte offsets takes
    the tokens of the search by char positions (`tokenizes_iff`).  A counter takes their ends
    back to chars, and with that the spans drawn are the same (`spans?_renderTokens`). -/

namespace Highlighter
namespace Encoded

variable {text : Array Char} {p : Nat}

/-- A token, by byte offsets. -/
def tokenInBytes (text : Array Char) (t : Token) : Token := ⟨t.pattern, inBytes text t.extent⟩

/-! ## The best of the matches at hand -/

/-- Which of two matches is preferred is no matter of what is counted. -/
theorem preferred_inBytes (a b : Extent) :
    preferred (inBytes text a) (inBytes text b) = preferred a b := by
  have hstart : (offset text a.start == offset text b.start) = (a.start == b.start) := by
    rw [Bool.eq_iff_iff, beq_iff_eq, beq_iff_eq, offset_inj]
  simp only [preferred, inBytes, offset_lt_iff, hstart]

/-- What is the best match is no matter of what is counted. -/
theorem bestToken_inBytes (i : Nat) (ms : List (Option Extent)) :
    bestToken i (ms.map (Option.map (inBytes text))) = (bestToken i ms).map (tokenInBytes text) := by
  induction ms generalizing i with
  | nil => rfl
  | cons m rest ih =>
      cases m with
      | none => exact ih (i + 1)
      | some m =>
          rw [List.map_cons, Option.map_some, bestToken, bestToken, ih]
          cases bestToken (i + 1) rest with
          | none => rfl
          | some t =>
              simp only [Option.map_some, tokenInBytes, preferred_inBytes]
              split <;> rfl

/-! ## Searches -/

/-- The next match by byte offsets is the next match by char positions. -/
theorem nexts_nextToken (text : Array Char) (r : Highlighter.Matcher) (p : Nat) :
    Nexts text (findFrom text r) (offset text p) ((nextToken text r p).map (inBytes text)) := by
  fun_induction nextToken text r p with
  | case1 p hm =>
      by_cases hp : p ≤ text.size
      · refine .none (offset_le_byteLength hp) ?_
        rw [findFrom_offset r hp, hm]
        rfl
      · exact .past (byteLength_lt_iff.2 (Nat.not_le.1 hp))
  | case2 p m hm hempty ih =>
      obtain ⟨hp, hstart, hfind⟩ := findFrom_of_some hm
      exact .again (offset_le_byteLength hp) hfind ((isEmpty_inBytes m).trans hempty)
        (next?_offset hstart) ih
  | case3 p m hm hchars =>
      obtain ⟨hp, -, hfind⟩ := findFrom_of_some hm
      exact .found (offset_le_byteLength hp) hfind
        ((isEmpty_inBytes m).trans (Bool.eq_false_iff.2 hchars))

/-- A search for the next match has one answer. -/
theorem Nexts.unique {find : Nat → Option Extent} {byte : Nat} {answer answer' : Option Extent}
    (h : Nexts text find byte answer) (h' : Nexts text find byte answer') : answer = answer' := by
  induction h with
  | past hpast =>
      cases h' with
      | past => rfl
      | none => rfl
      | found hin => exact absurd hin (Nat.not_le.2 hpast)
      | again hin => exact absurd hin (Nat.not_le.2 hpast)
  | none hin hfind =>
      cases h' with
      | past => rfl
      | none => rfl
      | found _ hfind' => exact absurd (hfind.symm.trans hfind') (Option.some_ne_none _).symm
      | again _ hfind' => exact absurd (hfind.symm.trans hfind') (Option.some_ne_none _).symm
  | found hin hfind hchars =>
      cases h' with
      | past hpast => exact absurd hin (Nat.not_le.2 hpast)
      | none _ hfind' => exact absurd (hfind.symm.trans hfind') (Option.some_ne_none _)
      | found _ hfind' => exact hfind.symm.trans hfind'
      | again _ hfind' hempty =>
          obtain rfl := Option.some.inj (hfind.symm.trans hfind')
          exact absurd (hchars.symm.trans hempty) Bool.false_ne_true
  | again hin hfind hempty hnext _ ih =>
      cases h' with
      | past hpast => exact absurd hin (Nat.not_le.2 hpast)
      | none _ hfind' => exact absurd (hfind.symm.trans hfind') (Option.some_ne_none _)
      | found _ hfind' hchars =>
          obtain rfl := Option.some.inj (hfind.symm.trans hfind')
          exact absurd (hchars.symm.trans hempty) Bool.false_ne_true
      | again _ hfind' _ hnext' hrest' =>
          obtain rfl := Option.some.inj (hfind.symm.trans hfind')
          obtain rfl := Option.some.inj (hnext.symm.trans hnext')
          exact ih hrest'

theorem length_refreshTokens (defs : List TokenDef) {ms : List (Option Extent)}
    (hms : ms.length = defs.length) : (refreshTokens text p defs ms).length = defs.length := by
  induction defs generalizing ms with
  | nil =>
      obtain rfl := List.length_eq_zero_iff.1 hms
      rfl
  | cons d rest ih =>
      cases ms with
      | nil => exact absurd hms (Nat.succ_ne_zero _).symm
      | cons m ms => cases m <;> exact congrArg Nat.succ (ih (Nat.succ.inj hms))

/-- Bringing the matches at hand up to date by byte offsets is doing so by char positions. -/
theorem refreshes_refreshTokens (text : Array Char) (p : Nat) (defs : List TokenDef)
    {ms : List (Option Extent)} (hms : ms.length = defs.length) :
    Refreshes text (offset text p) (defs.map fun d => findFrom text d.regex)
      (ms.map (Option.map (inBytes text)))
      ((refreshTokens text p defs ms).map (Option.map (inBytes text))) := by
  induction defs generalizing ms with
  | nil =>
      obtain rfl := List.length_eq_zero_iff.1 hms
      exact .nil
  | cons d rest ih =>
      cases ms with
      | nil => exact absurd hms (Nat.succ_ne_zero _).symm
      | cons m ms =>
          have hrest := ih (Nat.succ.inj hms)
          cases m with
          | none => exact .cons .none hrest
          | some m =>
              refine .cons ?_ hrest
              by_cases hbehind : m.start < p
              · rw [if_pos hbehind]
                exact .anew (offset_lt_offset hbehind) (nexts_nextToken text d.regex p)
              · rw [if_neg hbehind]
                exact .kept (offset_le_iff.2 (Nat.not_lt.1 hbehind))

theorem Refreshed.unique {find : Nat → Option Extent} {byte : Nat} {m m₁ m₂ : Option Extent}
    (h : Refreshed text find byte m m₁) (h' : Refreshed text find byte m m₂) : m₁ = m₂ := by
  cases h with
  | none =>
      cases h'
      rfl
  | kept hahead =>
      cases h' with
      | kept => rfl
      | anew hbehind => exact absurd hbehind (Nat.not_lt.2 hahead)
  | anew hbehind hnext =>
      cases h' with
      | kept hahead => exact absurd hbehind (Nat.not_lt.2 hahead)
      | anew _ hnext' => exact hnext.unique hnext'

theorem Refreshes.unique {byte : Nat} {finds : List (Nat → Option Extent)}
    {ms ms₁ ms₂ : List (Option Extent)} (h : Refreshes text byte finds ms ms₁)
    (h' : Refreshes text byte finds ms ms₂) : ms₁ = ms₂ := by
  induction h generalizing ms₂ with
  | nil =>
      cases h'
      rfl
  | cons hfirst _ ih =>
      cases h' with
      | cons hfirst' hrest' =>
          rw [ih hrest', hfirst.unique hfirst']

theorem Takes.unique {finds : List (Nat → Option Extent)} {ms : List (Option Extent)}
    {ts ts' : List Token} (h : Takes text finds ms ts) (h' : Takes text finds ms ts') : ts = ts' := by
  induction h generalizing ts' with
  | done hbest =>
      cases h' with
      | done => rfl
      | take hbest' => exact absurd (hbest.symm.trans hbest') (Option.some_ne_none _).symm
  | take hbest hrefresh _ ih =>
      cases h' with
      | done hbest' => exact absurd (hbest.symm.trans hbest') (Option.some_ne_none _)
      | take hbest' hrefresh' hrest' =>
          obtain rfl := Option.some.inj (hbest.symm.trans hbest')
          obtain rfl := hrefresh.unique hrefresh'
          rw [ih hrest']

/-- The matches that a search begins with lie ahead of it. -/
theorem ahead_nextToken (text : Array Char) (defs : List TokenDef) (p : Nat) :
    Lexicon.Ahead text p (defs.map fun d => nextToken text d.regex p) := by
  intro m hm
  obtain ⟨d, -, hnext⟩ := List.mem_map.1 hm
  exact nextToken_bounds hnext

/-- With room for all chars left, the tokens are taken until no match is at hand. -/
theorem takes_takeTokens {defs : List TokenDef} {room : Nat} {ms : List (Option Extent)}
    (hms : ms.length = defs.length) (hahead : Lexicon.Ahead text p ms) (hroom : text.size - p ≤ room) :
    Takes text (defs.map fun d => findFrom text d.regex) (ms.map (Option.map (inBytes text)))
      ((takeTokens text defs room ms).map (tokenInBytes text)) := by
  induction room generalizing p ms with
  | zero =>
      -- no char is left for a match at hand
      have hnone : bestToken 0 ms = none := by
        refine bestToken_of_forall_none ?_
        intro m hm
        cases m with
        | none => rfl
        | some m =>
            have hbounds := hahead m hm
            omega
      refine .done ?_
      rw [bestToken_inBytes, hnone]
      rfl
  | succ room ih =>
      rw [takeTokens]
      cases hbest : bestToken 0 ms with
      | none =>
          refine .done ?_
          rw [bestToken_inBytes, hbest]
          rfl
      | some t =>
          have hbounds := hahead t.extent (Lexicon.bestToken_mem hbest)
          refine .take ?_ (refreshes_refreshTokens text t.extent.stop defs hms)
            (ih ?_ hahead.refresh (by omega))
          · rw [bestToken_inBytes, hbest]
            rfl
          · exact length_refreshTokens defs hms

/-- The search by byte offsets takes the tokens of the search by char positions. -/
theorem tokenizes_tokens (text : Array Char) (defs : List TokenDef) (p : Nat) :
    Tokenizes text (defs.map fun d => findFrom text d.regex) (offset text p)
      ((tokens text defs p).map (tokenInBytes text)) := by
  refine ⟨(defs.map fun d => nextToken text d.regex p).map (Option.map (inBytes text)), ?_, ?_⟩
  · rw [List.map_map, List.forall₂_map_left_iff, List.forall₂_map_right_iff, List.forall₂_same]
    intro d _
    exact nexts_nextToken text d.regex p
  · exact takes_takeTokens (List.length_map _) (ahead_nextToken text defs p) (Nat.le_refl _)

/-- **The tokens by byte offsets** are the tokens by char positions. -/
theorem tokenizes_iff {defs : List TokenDef} {ts : List Token} :
    Tokenizes text (defs.map fun d => findFrom text d.regex) (offset text p) ts ↔
      ts = (tokens text defs p).map (tokenInBytes text) := by
  have htokens := tokenizes_tokens text defs p
  constructor
  · rintro ⟨ms, hms, htakes⟩
    obtain ⟨ms', hms', htakes'⟩ := htokens
    have hone : Relator.RightUnique fun (find : Nat → Option Extent) (m : Option Extent) =>
        Nexts text find (offset text p) m := fun _ _ _ h h' => h.unique h'
    obtain rfl := hone.forall₂ hms hms'
    exact htakes.unique htakes'
  · rintro rfl
    exact htokens

/-! ## Spans -/

/-- A counter takes the ends of tokens back to chars of the whole text. -/
theorem spans?_inBytes (defs : List TokenDef) (base q : Nat) {ts : List Token}
    (h : ∀ t ∈ ts, t.extent.start ≤ text.size ∧ t.extent.stop ≤ text.size) :
    spans? text defs base (.upTo text q) (ts.map (tokenInBytes text)) =
      some (ts.map fun t => ⟨base + t.extent.start, base + t.extent.stop,
        (defs[t.pattern]?.map (·.style)).getD ""⟩) := by
  induction ts generalizing q with
  | nil => rfl
  | cons t rest ih =>
      obtain ⟨⟨hstart, hstop⟩, hrest⟩ := List.forall_mem_cons.1 h
      simp only [List.map_cons, spans?, tokenInBytes, inBytes,
        CharCounter.charOffset?_offset base _ hstart, CharCounter.charOffset?_offset base _ hstop,
        Option.bind_eq_bind, Option.bind_some]
      rw [ih _ hrest]
      rfl

/-- Tokens lie inside the text, whatever the patterns match. -/
theorem within_takeTokens (defs : List TokenDef) (room : Nat) {ms : List (Option Extent)}
    (hahead : Lexicon.Ahead text p ms) :
    ∀ t ∈ takeTokens text defs room ms, t.extent.start ≤ text.size ∧ t.extent.stop ≤ text.size := by
  induction room generalizing p ms with
  | zero => exact fun t ht => absurd ht List.not_mem_nil
  | succ room ih =>
      rw [takeTokens]
      cases hbest : bestToken 0 ms with
      | none => exact fun t ht => absurd ht List.not_mem_nil
      | some t =>
          obtain ⟨-, hlt, hstop⟩ := hahead t.extent (Lexicon.bestToken_mem hbest)
          exact List.forall_mem_cons.2
            ⟨⟨Nat.le_trans (Nat.le_of_lt hlt) hstop, hstop⟩, ih hahead.refresh⟩

/-- **The token spans of a range** are those of the tokens that are found by byte offsets. -/
theorem spans?_renderTokens (lex : Lexicon) (doc : Document) {range : Extent} {window : Array Char}
    (hle : range.start ≤ range.stop) (hstop : range.stop ≤ doc.length)
    (hwindow : window = doc.slice ⟨doc.lineStart range.start, range.stop⟩)
    (hp : p = range.start - doc.lineStart range.start) :
    ∃ ts, Tokenizes window (lex.tokens.map fun d => findFrom window d.regex)
        (byteOfChar window.toList p) ts ∧
      spans? window lex.tokens (doc.lineStart range.start) {} ts = some (renderTokens lex doc range) := by
  have hsize : window.size = min range.stop doc.length - doc.lineStart range.start := by
    rw [hwindow, Document.size_slice]
  have hin : p ≤ window.size := by omega
  have hwithin := within_takeTokens lex.tokens (window.size - p)
    (ahead_nextToken window lex.tokens p)
  refine ⟨_, byteOfChar_eq hin ▸ tokenizes_tokens window lex.tokens p, ?_⟩
  rw [← CharCounter.upTo_zero window, tokens, spans?_inBytes lex.tokens _ 0 hwithin, renderTokens]
  by_cases hnone : lex.tokens.isEmpty = true
  · rw [if_pos hnone, List.isEmpty_iff.1 hnone]
    cases window.size - p <;> rfl
  · rw [if_neg hnone, hp, hwindow]
    rfl

end Encoded
end Highlighter
