import Highlighter.Rendering
import Highlighter.Proofs.Batches
import Highlighter.Proofs.Spans

/-! # Token walks — flat patterns, one position at a time

    The search for tokens keeps the next match of every pattern at hand and picks the best
    of them.  Position by position this is simple: at each one the longest match that
    begins there is the token (`tokenAt?`), and without a match the walk goes on by one.
    `flat_eq` says that the tokens of a stretch of text are those of such a walk.

    For line-local patterns a walk forgets what lies behind it at every line start.  So the
    tokens of a stretch can be put together from those of its lines (`flat_append`), and
    they depend on the chars of the stretch and the one before it (`flat_shifted`). -/

namespace Highlighter

variable {text text' : Array Char}

/-! ## The best of the matches at one position -/

/-- The length of the match of a pattern that begins at a position, if it takes a char. -/
def lengthAt? (text : Array Char) (r : Matcher) (p : Nat) : Option Nat :=
  (r.endAt? text p).bind fun q => if p < q then some (q - p) else none

theorem lengthAt?_eq_some {r : Matcher} {p n : Nat} (h : lengthAt? text r p = some n) :
    ∃ q, r.endAt? text p = some q ∧ p < q ∧ n = q - p := by
  obtain ⟨q, hq, hn⟩ := Option.bind_eq_some_iff.1 h
  obtain ⟨hlt, hn⟩ := Option.ite_none_right_eq_some.1 hn
  exact ⟨q, hq, hlt, (Option.some.inj hn).symm⟩

theorem lengthAt?_of_none {r : Matcher} {p : Nat} (h : r.endAt? text p = none) :
    lengthAt? text r p = none := by
  rw [lengthAt?, h, Option.bind_none]

/-- The longest of some matches, numbered from `i`; of equals the first. -/
def longest : (i : Nat) → List (Option Nat) → Option (Nat × Nat)
  | _, [] => none
  | i, none :: rest => longest (i + 1) rest
  | i, some n :: rest =>
    match longest (i + 1) rest with
    | some m => if n < m.2 then some m else some (i, n)
    | none => some (i, n)

theorem longest_cons_ne_none {i n : Nat} {rest : List (Option Nat)} :
    longest i (some n :: rest) ≠ none := by
  rw [longest]
  split
  · split <;> exact Option.some_ne_none _
  · exact Option.some_ne_none _

/-- The first match is the longest unless a longer one follows. -/
theorem longest_cons_eq_some {i n : Nat} {rest : List (Option Nat)} {m : Nat × Nat}
    (h : longest i (some n :: rest) = some m) :
    (longest (i + 1) rest = some m ∧ n < m.2) ∨
      (m = (i, n) ∧ ∀ m', longest (i + 1) rest = some m' → m'.2 ≤ n) := by
  rw [longest] at h
  cases hrest : longest (i + 1) rest with
  | none =>
      rw [hrest] at h
      exact .inr ⟨(Option.some.inj h).symm, fun m' hm' => absurd hm' (Option.some_ne_none m').symm⟩
  | some m' =>
      rw [hrest] at h
      dsimp only at h
      by_cases hlt : n < m'.2
      · rw [if_pos hlt] at h
        obtain rfl := Option.some.inj h
        exact .inl ⟨rfl, hlt⟩
      · rw [if_neg hlt] at h
        refine .inr ⟨(Option.some.inj h).symm, ?_⟩
        intro m'' hm'
        obtain rfl := Option.some.inj hm'
        exact Nat.le_of_not_lt hlt

/-- The longest is one of the lengths. -/
theorem longest_mem {i : Nat} {lengths : List (Option Nat)} {m : Nat × Nat}
    (h : longest i lengths = some m) : some m.2 ∈ lengths := by
  induction lengths generalizing i with
  | nil => exact absurd h (Option.some_ne_none m).symm
  | cons l rest ih =>
      cases l with
      | none => exact List.mem_cons_of_mem _ (ih h)
      | some n =>
          rcases longest_cons_eq_some h with ⟨hrest, -⟩ | ⟨rfl, -⟩
          · exact List.mem_cons_of_mem _ (ih hrest)
          · exact List.mem_cons_self

/-- With no longest there is none. -/
theorem eq_none_of_longest {i : Nat} {lengths : List (Option Nat)}
    (h : longest i lengths = none) : ∀ l ∈ lengths, l = none := by
  induction lengths generalizing i with
  | nil => simp
  | cons l rest ih =>
      cases l with
      | none =>
          intro l' hl'
          rcases List.mem_cons.1 hl' with rfl | hl'
          · rfl
          · exact ih h l' hl'
      | some n => exact absurd h longest_cons_ne_none

/-! ## The best of the matches at hand -/

/-- A match that starts earlier is preferred. -/
theorem preferred_of_lt {a b : Extent} (h : a.start < b.start) : preferred a b = true := by
  rw [preferred, decide_eq_true h, Bool.true_or]

theorem not_preferred_of_lt {a b : Extent} (h : b.start < a.start) : preferred a b = false := by
  rw [preferred, Bool.or_eq_false_iff, Bool.and_eq_false_iff]
  exact ⟨decide_eq_false (by omega), .inl (beq_eq_false_iff_ne.2 (by omega))⟩

/-- Of two matches that begin together the longer one is preferred. -/
theorem preferred_together (p n n' : Nat) :
    preferred ⟨p, p + n'⟩ ⟨p, p + n⟩ = decide (n < n') := by
  simp [preferred]

/-- A better match behind it takes the place of the first. -/
theorem bestToken_cons_of_preferred {i : Nat} {m : Extent} {rest : List (Option Extent)} {t : Token}
    (h : bestToken (i + 1) rest = some t) (hbetter : preferred t.extent m = true) :
    bestToken i (some m :: rest) = some t := by
  rw [bestToken, h]
  exact if_pos hbetter

theorem bestToken_cons_of_not_preferred {i : Nat} {m : Extent} {rest : List (Option Extent)}
    (h : ∀ t, bestToken (i + 1) rest = some t → preferred t.extent m = false) :
    bestToken i (some m :: rest) = some ⟨i, m⟩ := by
  rw [bestToken]
  cases hrest : bestToken (i + 1) rest with
  | none => rfl
  | some t => exact if_neg (by rw [h t hrest]; exact Bool.false_ne_true)

theorem bestToken_of_forall_none {i : Nat} {ms : List (Option Extent)} (h : ∀ m ∈ ms, m = none) :
    bestToken i ms = none := by
  induction ms generalizing i with
  | nil => rfl
  | cons m rest ih =>
      rw [h m List.mem_cons_self, bestToken]
      exact ih fun m' hm' => h m' (List.mem_cons_of_mem m hm')

theorem bestToken_cons_ne_none {i : Nat} {m : Extent} {rest : List (Option Extent)} :
    bestToken i (some m :: rest) ≠ none := by
  rw [bestToken]
  split
  · split <;> exact Option.some_ne_none _
  · exact Option.some_ne_none _

/-- The first match is the best unless what follows is preferred to it. -/
theorem bestToken_cons_eq_some {i : Nat} {m : Extent} {rest : List (Option Extent)} {t : Token}
    (h : bestToken i (some m :: rest) = some t) :
    (bestToken (i + 1) rest = some t ∧ preferred t.extent m = true) ∨
      (t = ⟨i, m⟩ ∧ ∀ t', bestToken (i + 1) rest = some t' → preferred t'.extent m = false) := by
  rw [bestToken] at h
  cases hrest : bestToken (i + 1) rest with
  | none =>
      rw [hrest] at h
      exact .inr ⟨(Option.some.inj h).symm, fun t' ht' => absurd ht' (Option.some_ne_none t').symm⟩
  | some t' =>
      rw [hrest] at h
      dsimp only at h
      by_cases hpreferred : preferred t'.extent m = true
      · rw [if_pos hpreferred] at h
        obtain rfl := Option.some.inj h
        exact .inl ⟨rfl, hpreferred⟩
      · rw [if_neg hpreferred] at h
        refine .inr ⟨(Option.some.inj h).symm, ?_⟩
        intro t'' ht'
        obtain rfl := Option.some.inj ht'
        exact Bool.eq_false_iff.2 hpreferred

/-! ## The search, position by position -/

/-- The next match has a char, and lies ahead and inside the text. -/
theorem nextToken_bounds {r : Matcher} {p : Nat} {m : Extent} (h : nextToken text r p = some m) :
    p ≤ m.start ∧ m.start < m.stop ∧ m.stop ≤ text.size := by
  fun_induction nextToken text r p with
  | case1 => exact absurd h (Option.some_ne_none m).symm
  | case2 p m' hm hempty ih =>
      have hbounds := r.bounds hm
      have hlater := ih h
      omega
  | case3 p m' hm hfull =>
      obtain rfl := Option.some.inj h
      have hlt : m'.start < m'.stop := by simpa [Extent.isEmpty] using hfull
      exact ⟨(r.bounds hm).1, hlt, (r.bounds hm).2.2⟩

/-- The next match of a pattern is the one at the least position that has one. -/
theorem nextToken_eq_firstFrom {r : Matcher} (hr : r.Lawful) (p : Nat) :
    nextToken text r p =
      firstFrom (fun q => (lengthAt? text r q).map fun n => ⟨q, q + n⟩) p text.size := by
  have hnone : ∀ {i}, (r.endAt? text i).map (Extent.mk i) = none →
      (lengthAt? text r i).map (fun n => Extent.mk i (i + n)) = none := by
    intro i hi
    rw [lengthAt?_of_none (Option.map_eq_none_iff.1 hi), Option.map_none]
  fun_induction nextToken text r p with
  | case1 p h =>
      rw [hr.find?_eq_firstFrom, firstFrom_eq_none_iff] at h
      exact (firstFrom_eq_none_iff.2 fun i hp hn => hnone (h i hp hn)).symm
  | case2 p m h hempty ih =>
      rw [hr.find?_eq_firstFrom] at h
      obtain ⟨q, hpq, hqn, hq, hbefore⟩ := firstFrom_eq_some h
      obtain ⟨e, he, rfl⟩ := Option.map_eq_some_iff.1 hq
      rw [ih]
      refine (firstFrom_skip (Nat.le_succ_of_le hpq) ?_).symm
      intro i hi hlt
      rcases Nat.lt_succ_iff_lt_or_eq.1 hlt with hlt | rfl
      · exact hnone (hbefore i hi hlt)
      · have hle : ¬i < e := Nat.not_lt.2 (of_decide_eq_true hempty)
        rw [lengthAt?, he, Option.bind_some, if_neg hle, Option.map_none]
  | case3 p m h hfull =>
      rw [hr.find?_eq_firstFrom] at h
      obtain ⟨q, hpq, hqn, hq, hbefore⟩ := firstFrom_eq_some h
      obtain ⟨e, he, rfl⟩ := Option.map_eq_some_iff.1 hq
      have hlt : q < e := by simpa [Extent.isEmpty] using hfull
      have hhere : (lengthAt? text r q).map (fun n => Extent.mk q (q + n)) = some ⟨q, e⟩ := by
        rw [lengthAt?, he, Option.bind_some, if_pos hlt, Option.map_some,
          Nat.add_sub_cancel' (Nat.le_of_lt hlt)]
      rw [firstFrom_skip hpq fun i hi hlt => hnone (hbefore i hi hlt), firstFrom_of_some hqn hhere]

/-- A match that begins at a position is the next one from there. -/
theorem nextToken_of_some {r : Matcher} (hr : r.Lawful) {p n : Nat} (hp : p ≤ text.size)
    (h : lengthAt? text r p = some n) : nextToken text r p = some ⟨p, p + n⟩ := by
  rw [nextToken_eq_firstFrom hr]
  exact firstFrom_of_some hp (by rw [h, Option.map_some])

theorem nextToken_of_none {r : Matcher} (hr : r.Lawful) {p : Nat} (h : lengthAt? text r p = none) :
    nextToken text r p = nextToken text r (p + 1) := by
  rw [nextToken_eq_firstFrom hr, nextToken_eq_firstFrom hr]
  exact firstFrom_of_none (by rw [h, Option.map_none])

/-- The next match stays the next one from anywhere before it. -/
theorem nextToken_of_le {r : Matcher} (hr : r.Lawful) {p q : Nat} {m : Extent} (hpq : p ≤ q)
    (h : nextToken text r p = some m) (hq : q ≤ m.start) : nextToken text r q = some m := by
  rw [nextToken_eq_firstFrom hr] at h ⊢
  obtain ⟨i, hpi, hi, hm, hbefore⟩ := firstFrom_eq_some h
  obtain ⟨n, hn, rfl⟩ := Option.map_eq_some_iff.1 hm
  rw [firstFrom_skip hq fun j hj hlt => hbefore j (by omega) hlt, firstFrom_of_some hi hm]

theorem nextToken_none_of_le {r : Matcher} (hr : r.Lawful) {p q : Nat} (hpq : p ≤ q)
    (h : nextToken text r p = none) : nextToken text r q = none := by
  rw [nextToken_eq_firstFrom hr] at h ⊢
  exact firstFrom_eq_none_iff.2 fun i hi hn => firstFrom_eq_none_iff.1 h i (by omega) hn

/-- At the end of the text no token is left. -/
theorem nextToken_of_size_le {r : Matcher} {p : Nat} (h : text.size ≤ p) :
    nextToken text r p = none := by
  cases hm : nextToken text r p with
  | none => rfl
  | some m =>
      have hbounds := nextToken_bounds hm
      omega

/-- All patterns of some definitions are lawful. -/
def TokensLawful (defs : List TokenDef) : Prop := ∀ d ∈ defs, d.regex.Lawful

/-- A match at hand that the text taken has not overtaken is what a new search would find; only the
    others have to be searched again. -/
theorem refreshTokens_nextToken {p q : Nat} (hpq : p ≤ q) {defs : List TokenDef}
    (hlawful : TokensLawful defs) :
    refreshTokens text q defs (defs.map fun d => nextToken text d.regex p) =
      defs.map fun d => nextToken text d.regex q := by
  induction defs with
  | nil => rfl
  | cons d rest ih =>
      obtain ⟨hd, hrest⟩ := List.forall_mem_cons.1 hlawful
      rw [List.map_cons, List.map_cons]
      cases hnext : nextToken text d.regex p with
      | none => rw [refreshTokens, ih hrest, nextToken_none_of_le hd hpq hnext]
      | some m =>
          rw [refreshTokens, ih hrest]
          by_cases hlt : m.start < q
          · rw [if_pos hlt]
          · rw [if_neg hlt, nextToken_of_le hd hpq hnext (Nat.le_of_not_lt hlt)]

namespace Lexicon

variable {lex : Lexicon}

/-- The token that begins at a position: its pattern, and its length. -/
def tokenAt? (lex : Lexicon) (text : Array Char) (p : Nat) : Option (Nat × Nat) :=
  longest 0 (lex.tokens.map fun d => lengthAt? text d.regex p)

/-- Of the matches at hand the best is the longest that begins where they are sought from, if one
    begins there, else it begins later. -/
theorem bestToken_nextToken {p : Nat} (hp : p ≤ text.size) (i : Nat) {defs : List TokenDef}
    (hlawful : TokensLawful defs) :
    (∀ m, longest i (defs.map fun d => lengthAt? text d.regex p) = some m →
      bestToken i (defs.map fun d => nextToken text d.regex p) = some ⟨m.1, ⟨p, p + m.2⟩⟩) ∧
    (longest i (defs.map fun d => lengthAt? text d.regex p) = none →
      ∀ t, bestToken i (defs.map fun d => nextToken text d.regex p) = some t →
        p < t.extent.start) := by
  induction defs generalizing i with
  | nil =>
      constructor
      · intro m hm
        exact absurd hm (Option.some_ne_none m).symm
      · intro _ t ht
        exact absurd ht (Option.some_ne_none t).symm
  | cons d rest ih =>
      obtain ⟨hd, hrest⟩ := List.forall_mem_cons.1 hlawful
      obtain ⟨hsome, hnone⟩ := ih (i + 1) hrest
      simp only [List.map_cons]
      cases hlen : lengthAt? text d.regex p with
      | some n =>
          rw [nextToken_of_some hd hp hlen]
          refine ⟨?_, fun h => absurd h longest_cons_ne_none⟩
          intro m hm
          rcases longest_cons_eq_some hm with ⟨hrest, hlt⟩ | ⟨rfl, hle⟩
          · refine bestToken_cons_of_preferred (hsome m hrest) ?_
            exact (preferred_together p n m.2).trans (decide_eq_true hlt)
          · -- what follows begins here and is no longer, or begins later
            refine bestToken_cons_of_not_preferred ?_
            intro t ht
            cases hrest : longest (i + 1) (rest.map fun d => lengthAt? text d.regex p) with
            | some m' =>
                rw [hsome m' hrest] at ht
                obtain rfl := Option.some.inj ht
                have := hle m' hrest
                exact (preferred_together p n m'.2).trans (decide_eq_false (by omega))
            | none => exact not_preferred_of_lt (hnone hrest t ht)
      | none =>
          have hlater : ∀ m, nextToken text d.regex p = some m → p < m.start := by
            intro m hm
            rw [nextToken_of_none hd hlen] at hm
            exact (nextToken_bounds hm).1
          rw [longest]
          cases hnext : nextToken text d.regex p with
          | none => exact ⟨hsome, hnone⟩
          | some m =>
              have hm := hlater m hnext
              refine ⟨fun m' hm' => bestToken_cons_of_preferred (hsome m' hm') (preferred_of_lt hm),
                fun hrest t ht => ?_⟩
              rcases bestToken_cons_eq_some ht with ⟨ht, -⟩ | ⟨rfl, -⟩
              · exact hnone hrest t ht
              · exact hm

/-- The matches at hand from a position on. -/
def atHand (lex : Lexicon) (text : Array Char) (p : Nat) : List (Option Extent) :=
  lex.tokens.map fun d => nextToken text d.regex p

theorem atHand_of_none (hlawful : TokensLawful lex.tokens) {p : Nat}
    (h : lex.tokenAt? text p = none) : lex.atHand text p = lex.atHand text (p + 1) := by
  refine List.map_congr_left fun d hd => nextToken_of_none (hlawful d hd) ?_
  exact eq_none_of_longest h _ (List.mem_map_of_mem hd)

/-- Bringing the matches up to date gives those from the later position on. -/
theorem refreshTokens_atHand (hlawful : TokensLawful lex.tokens) {p q : Nat} (hpq : p ≤ q) :
    refreshTokens text q lex.tokens (lex.atHand text p) = lex.atHand text q :=
  refreshTokens_nextToken hpq hlawful

theorem tokenAt?_bounds {p : Nat} {m : Nat × Nat}
    (h : lex.tokenAt? text p = some m) : 0 < m.2 ∧ p + m.2 ≤ text.size := by
  obtain ⟨d, -, hd⟩ := List.mem_map.1 (longest_mem h)
  obtain ⟨q, hq, hlt, hn⟩ := lengthAt?_eq_some hd
  have := (Matcher.endAt?_bounds hq).2
  omega

/-! ## Walks -/

/-- The style of a token pattern. -/
def tokenStyle (lex : Lexicon) (pattern : Nat) : String :=
  (lex.tokens[pattern]?.map (·.style)).getD ""

/-- The span of a token that begins at a position. -/
def tokenSpan (lex : Lexicon) (p : Nat) (m : Nat × Nat) : Span := ⟨p, p + m.2, lex.tokenStyle m.1⟩

/-- A walk from `p` comes to `q` and leaves the spans of the tokens on its way. -/
inductive Walks (lex : Lexicon) (text : Array Char) : (p : Nat) → List Span → (q : Nat) → Prop
  | done {p : Nat} : Walks lex text p [] p
  | skip {p q : Nat} {spans : List Span} : p < text.size → lex.tokenAt? text p = none →
      Walks lex text (p + 1) spans q → Walks lex text p spans q
  | take {p q : Nat} {spans : List Span} {m : Nat × Nat} : p < text.size →
      lex.tokenAt? text p = some m → Walks lex text (p + m.2) spans q →
      Walks lex text p (lex.tokenSpan p m :: spans) q

/-- The span of a token. -/
def spanOf (lex : Lexicon) (t : Token) : Span :=
  ⟨t.extent.start, t.extent.stop, lex.tokenStyle t.pattern⟩

/-- The search takes the tokens of the walk to the end of the text. -/
theorem Walks.tokens (hlawful : TokensLawful lex.tokens) {p q : Nat} {spans : List Span}
    (h : lex.Walks text p spans q) (hq : text.size ≤ q) {room : Nat} (hroom : text.size - p ≤ room) :
    (takeTokens text lex.tokens room (lex.atHand text p)).map lex.spanOf = spans := by
  induction h generalizing room with
  | @done p =>
      have hnone : bestToken 0 (lex.atHand text p) = none := by
        refine bestToken_of_forall_none ?_
        intro m hm
        obtain ⟨d, -, rfl⟩ := List.mem_map.1 hm
        exact nextToken_of_size_le hq
      cases room with
      | zero => rfl
      | succ room => rw [takeTokens, hnone, List.map_nil]
  | @skip p q spans hp hnone _ ih =>
      rw [atHand_of_none hlawful hnone]
      exact ih hq (by omega)
  | @take p q spans m hp hm _ ih =>
      obtain ⟨hpos, hle⟩ := tokenAt?_bounds hm
      obtain ⟨room, rfl⟩ : ∃ k, room = k + 1 := ⟨room - 1, by omega⟩
      have hbest : bestToken 0 (lex.atHand text p) = some ⟨m.1, ⟨p, p + m.2⟩⟩ :=
        (bestToken_nextToken (Nat.le_of_lt hp) 0 hlawful).1 m hm
      rw [takeTokens, hbest]
      simp only [List.map_cons]
      rw [refreshTokens_atHand hlawful (Nat.le_add_right p m.2), ih hq (by omega)]
      rfl

/-! ## Tokens in order -/

/-- The matches at hand have chars, and lie from `p` on and inside the text. -/
def Ahead (text : Array Char) (p : Nat) (ms : List (Option Extent)) : Prop :=
  ∀ m, some m ∈ ms → p ≤ m.start ∧ m.start < m.stop ∧ m.stop ≤ text.size

theorem ahead_atHand (lex : Lexicon) (text : Array Char) (p : Nat) :
    Ahead text p (lex.atHand text p) := by
  intro m hm
  obtain ⟨d, -, hnext⟩ := List.mem_map.1 hm
  exact nextToken_bounds hnext

/-- What is overtaken is sought again, so that all matches at hand lie ahead. -/
theorem Ahead.refresh {p q : Nat} {defs : List TokenDef} {ms : List (Option Extent)}
    (h : Ahead text p ms) : Ahead text q (refreshTokens text q defs ms) := by
  induction defs generalizing ms with
  | nil =>
      intro m hm
      cases ms <;> exact absurd hm List.not_mem_nil
  | cons d rest ih =>
      cases ms with
      | nil =>
          intro m hm
          exact absurd hm List.not_mem_nil
      | cons m' ms =>
          have hrest : Ahead text p ms := fun m hm => h m (List.mem_cons_of_mem m' hm)
          intro m hm
          cases m' with
          | none =>
              rcases List.mem_cons.1 hm with heq | hm
              · exact absurd heq (Option.some_ne_none m)
              · exact ih hrest m hm
          | some m' =>
              rcases List.mem_cons.1 hm with heq | hm
              · split at heq
                · exact nextToken_bounds heq.symm
                · rename_i hge
                  obtain rfl := Option.some.inj heq
                  exact ⟨Nat.le_of_not_lt hge, (h m List.mem_cons_self).2⟩
              · exact ih hrest m hm

/-- The best match is one of those at hand. -/
theorem bestToken_mem {i : Nat} {ms : List (Option Extent)} {t : Token}
    (h : bestToken i ms = some t) : some t.extent ∈ ms := by
  induction ms generalizing i with
  | nil => exact absurd h (Option.some_ne_none t).symm
  | cons m rest ih =>
      cases m with
      | none => exact List.mem_cons_of_mem _ (ih h)
      | some m =>
          rcases bestToken_cons_eq_some h with ⟨hrest, -⟩ | ⟨rfl, -⟩
          · exact List.mem_cons_of_mem _ (ih hrest)
          · exact List.mem_cons_self

/-- Tokens are taken one behind another, whatever the patterns match. -/
theorem laid_takeTokens (lex : Lexicon) {p room : Nat} {ms : List (Option Extent)}
    (hp : p ≤ text.size) (h : Ahead text p ms) :
    Laid p ((takeTokens text lex.tokens room ms).map lex.spanOf) text.size := by
  induction room generalizing p ms with
  | zero => exact hp
  | succ room ih =>
      rw [takeTokens]
      cases hbest : bestToken 0 ms with
      | none => exact hp
      | some t =>
          obtain ⟨hstart, hlt, hstop⟩ := h t.extent (bestToken_mem hbest)
          exact ⟨hstart, hlt, ih hstop h.refresh⟩

/-- The tokens of a text lie in order from where they are searched. -/
theorem laid_tokens (lex : Lexicon) (text : Array Char) {p : Nat} (hp : p ≤ text.size) :
    Laid p ((Highlighter.tokens text lex.tokens p).map lex.spanOf) text.size :=
  lex.laid_takeTokens hp (lex.ahead_atHand text p)

/-! ## Walks to the end -/

/-- A walk comes to the end of the text. -/
theorem exists_walks (lex : Lexicon) (text : Array Char) {p : Nat} (hp : p ≤ text.size) :
    ∃ spans, lex.Walks text p spans text.size := by
  induction hn : text.size - p using Nat.strongRecOn generalizing p with
  | _ n ih =>
      subst hn
      rcases Nat.eq_or_lt_of_le hp with rfl | hlt
      · exact ⟨[], .done⟩
      · cases hm : lex.tokenAt? text p with
        | none =>
            obtain ⟨spans, h⟩ := ih _ (by omega) hlt rfl
            exact ⟨spans, .skip hlt hm h⟩
        | some m =>
            obtain ⟨hpos, hle⟩ := tokenAt?_bounds hm
            obtain ⟨spans, h⟩ := ih _ (by omega) hle rfl
            exact ⟨_, .take hlt hm h⟩

/-! ## Walks of line-local patterns -/

/-- Every token pattern is line-local. -/
def TokensLocal (lex : Lexicon) : Prop := ∀ d ∈ lex.tokens, d.regex.LineLocal

/-- Patterns that are line-local are lawful. -/
theorem TokensLocal.lawful (h : lex.TokensLocal) : TokensLawful lex.tokens :=
  fun d hd => (h d hd).toLawful

/-- Its numbers stay in their line. -/
theorem tokensLocal_lisp : (Lexicon.ofGrammar .lisp).TokensLocal := by
  rw [Grammar.lexicon_lisp]
  intro d hd
  obtain rfl := List.mem_singleton.1 hd
  exact Regex.lineLocal_of_staysInLine (by decide +kernel)

/-- Positions that see the same line have matches of the same length. -/
theorem lengthAt?_congr {r : Matcher} (hlocal : r.LineLocal) {p p' : Nat} (hp : p ≤ text.size)
    (hp' : p' ≤ text'.size) (hsame : SameLine text p text' p') :
    lengthAt? text r p = lengthAt? text' r p' := by
  have hpos : ∀ (text : Array Char) (p : Nat), lengthAt? text r p =
      ((r.endAt? text p).map (· - p)).bind fun n => if 0 < n then some n else none := by
    intro text p
    rw [lengthAt?]
    cases r.endAt? text p with
    | none => rfl
    | some q =>
        rw [Option.map_some, Option.bind_some, Option.bind_some]
        simp only [Nat.sub_pos_iff_lt]
  rw [hpos, hpos, hlocal.depends hp hp' hsame]

/-- The token at a position is a matter of its line. -/
theorem tokenAt?_congr (hlocal : lex.TokensLocal) {p p' : Nat} (hp : p ≤ text.size)
    (hp' : p' ≤ text'.size) (hsame : SameLine text p text' p') :
    lex.tokenAt? text p = lex.tokenAt? text' p' := by
  refine congrArg (longest 0) (List.map_congr_left ?_)
  intro d hd
  exact lengthAt?_congr (hlocal d hd) hp hp' hsame

/-- A token lies in its line. -/
theorem tokenAt?_within (hlocal : lex.TokensLocal) {p : Nat} {m : Nat × Nat} (hp : p ≤ text.size)
    (h : lex.tokenAt? text p = some m) : p + m.2 ≤ lineStop text p := by
  obtain ⟨d, hd, hlen⟩ := List.mem_map.1 (longest_mem h)
  obtain ⟨q, hq, hlt, hn⟩ := lengthAt?_eq_some hlen
  have := (hlocal d hd).within hp hq
  omega

namespace Walks

variable {p q : Nat} {spans : List Span}

theorem le (h : lex.Walks text p spans q) : p ≤ q := by
  induction h with
  | done => exact Nat.le_refl _
  | skip _ _ _ ih => omega
  | take _ _ _ ih => omega

/-- The tokens of a walk lie in order along it. -/
theorem laid (h : lex.Walks text p spans q) : Laid p spans q := by
  induction h with
  | done => exact Nat.le_refl _
  | skip _ _ _ ih => exact ih.mono (Nat.le_succ _) (Nat.le_refl _)
  | take hp hm _ ih =>
      obtain ⟨hpos, -⟩ := tokenAt?_bounds hm
      exact ⟨Nat.le_refl _, Nat.lt_add_of_pos_right hpos, ih⟩

/-- A walk comes by every line start on its way. -/
theorem cut (hlocal : lex.TokensLocal) (h : lex.Walks text p spans q) {L : Nat}
    (hL : IsLineStart text L) (hsize : L ≤ text.size) (hpL : p ≤ L) (hLq : L ≤ q) :
    ∃ spans₁ spans₂, spans = spans₁ ++ spans₂ ∧ lex.Walks text p spans₁ L ∧
      lex.Walks text L spans₂ q := by
  induction h with
  | @done p =>
      obtain rfl : p = L := by omega
      exact ⟨[], [], rfl, .done, .done⟩
  | @skip p q spans hp hnone htail ih =>
      rcases Nat.eq_or_lt_of_le hpL with rfl | hlt
      · exact ⟨[], spans, rfl, .done, .skip hp hnone htail⟩
      · obtain ⟨spans₁, spans₂, rfl, hfront, hrest⟩ := ih hlt hLq
        exact ⟨spans₁, spans₂, rfl, .skip hp hnone hfront, hrest⟩
  | @take p q spans m hp hm htail ih =>
      rcases Nat.eq_or_lt_of_le hpL with rfl | hlt
      · exact ⟨[], lex.tokenSpan p m :: spans, rfl, .done, .take hp hm htail⟩
      · have hend := tokenAt?_within hlocal (Nat.le_of_lt hp) hm
        have hline := lineStop_lt hL hlt hsize
        obtain ⟨spans₁, spans₂, rfl, hfront, hrest⟩ := ih (by omega) hLq
        exact ⟨lex.tokenSpan p m :: spans₁, spans₂, rfl, .take hp hm hfront, hrest⟩

/-- A walk takes the same tokens through another text that looks alike on its way. -/
theorem shifted (h : lex.Walks text p spans q) {delta : Int} (hdelta : 0 ≤ (p : Int) + delta)
    (hagree : ∀ i, p ≤ i → i < q → shift i delta < text'.size ∧
      lex.tokenAt? text' (shift i delta) = lex.tokenAt? text i) :
    lex.Walks text' (shift p delta) (spans.map (·.shifted delta)) (shift q delta) := by
  induction h with
  | done => exact .done
  | @skip p q spans hp hnone htail ih =>
      have hle := htail.le
      obtain ⟨hsize, hsame⟩ := hagree p (Nat.le_refl p) (by omega)
      have hnext := ih (by omega) fun i hi hlt => hagree i (by omega) hlt
      rw [shift_add hdelta] at hnext
      exact .skip hsize (hsame.trans hnone) hnext
  | @take p q spans m hp hm htail ih =>
      have hle := htail.le
      obtain ⟨hpos, -⟩ := tokenAt?_bounds hm
      obtain ⟨hsize, hsame⟩ := hagree p (Nat.le_refl p) (by omega)
      have hnext := ih (by omega) fun i hi hlt => hagree i (by omega) hlt
      rw [shift_add hdelta] at hnext
      have hspan : (lex.tokenSpan p m).shifted delta = lex.tokenSpan (shift p delta) m := by
        show Span.mk _ (shift (p + m.2) delta) _ = _
        rw [shift_add hdelta]
        rfl
      rw [List.map_cons, hspan]
      exact .take hsize (hsame.trans hm) hnext

end Walks

/-! ## Tokens of a stretch -/

/-- The token spans of a stretch of a text that ends there. -/
def flat (lex : Lexicon) (text : Array Char) (u v : Nat) : List Span :=
  (Highlighter.tokens (text.extract 0 v) lex.tokens u).map lex.spanOf

variable {u v : Nat}

theorem size_front (hv : v ≤ text.size) : (text.extract 0 v).size = v := by
  rw [Array.size_extract]
  omega

/-- A walk to the end of a stretch leaves its token spans. -/
theorem flat_eq (hlawful : TokensLawful lex.tokens) {spans : List Span} (hv : v ≤ text.size)
    (h : lex.Walks (text.extract 0 v) u spans v) : lex.flat text u v = spans :=
  h.tokens hlawful (Nat.le_of_eq (size_front hv)) (Nat.le_refl _)

/-- The token spans of a stretch are those of a walk through it. -/
theorem walks_flat (hlawful : TokensLawful lex.tokens) (huv : u ≤ v) (hv : v ≤ text.size) :
    lex.Walks (text.extract 0 v) u (lex.flat text u v) v := by
  have hsize := size_front hv
  obtain ⟨spans, h⟩ := exists_walks lex (text.extract 0 v) (p := u) (by omega)
  rw [hsize] at h
  rwa [flat_eq hlawful hv h]

/-- The tokens of a stretch lie in order inside it. -/
theorem laid_flat (lex : Lexicon) (huv : u ≤ v) (hv : v ≤ text.size) :
    Laid u (lex.flat text u v) v := by
  have hlaid := lex.laid_tokens (text.extract 0 v) (p := u) (by rw [size_front hv]; exact huv)
  rwa [size_front hv] at hlaid

theorem getElem?_front (text : Array Char) (v i : Nat) :
    (text.extract 0 v)[i]? = if i < v then text[i]? else none := by
  rw [Array.getElem?_extract, Nat.zero_add]
  by_cases hi : i < text.size
  · by_cases hv : i < v
    · rw [if_pos (by omega), if_pos hv]
    · rw [if_neg (by omega), if_neg hv]
  · have hnone : text[i]? = none := Array.getElem?_eq_none (Nat.le_of_not_lt hi)
    rw [hnone, ite_self, ite_self]

/-- The front of a text has the same chars before its positions. -/
theorem charBefore_front {i : Nat} (hi : i ≤ v) :
    charBefore (text.extract 0 v) i = charBefore text i :=
  charBefore_congr fun j hj => by rw [getElem?_front, if_pos (Nat.lt_of_lt_of_le hj hi)]

/-- The tokens of a stretch depend on its chars and on the one before it. -/
theorem flat_shifted (hlocal : lex.TokensLocal) {delta : Int} (huv : u ≤ v) (hv : v ≤ text.size)
    (hdelta : 0 ≤ (u : Int) + delta) (hv' : shift v delta ≤ text'.size)
    (hbefore : charBefore text' (shift u delta) = charBefore text u)
    (hagree : ∀ i, u ≤ i → i < v → text'[shift i delta]? = text[i]?) :
    lex.flat text' (shift u delta) (shift v delta) =
      (lex.flat text u v).map (·.shifted delta) := by
  refine flat_eq hlocal.lawful hv' ((walks_flat hlocal.lawful huv hv).shifted hdelta ?_)
  intro i hi hlt
  have hsize := size_front hv
  have hsize' := size_front hv'
  have hlt' : shift i delta < shift v delta := (shift_lt_shift (by omega)).2 hlt
  refine ⟨by omega, tokenAt?_congr hlocal (by omega) (by omega) ?_⟩
  have hadd : ∀ n : Nat, shift i delta + n = shift (i + n) delta :=
    fun n => (shift_add (by omega) n).symm
  refine SameLine.of_agree (n := v - i) ?_ ?_ (.inl ?_)
  · rw [charBefore_front (by omega), charBefore_front (by omega)]
    exact charBefore_shift hdelta hbefore hi fun j hj hji => hagree j hj (by omega)
  · intro n hn
    rw [getElem?_front, getElem?_front, hadd]
    by_cases hin : i + n < v
    · rw [if_pos hin, if_pos ((shift_lt_shift (by omega)).2 hin), hagree _ (by omega) hin]
    · rw [if_neg hin, if_neg fun h => hin ((shift_lt_shift (by omega)).1 h)]
  · rw [hadd, getElem?_front, if_neg]
    have : i + (v - i) = v := by omega
    rw [this]
    exact Nat.lt_irrefl _

/-- Up to a line start a text looks the same when it ends there. -/
theorem sameLine_front {L i : Nat} (hL : IsLineStart text L) (hi : i < L) (hLv : L ≤ v)
    (hsize : L ≤ text.size) : SameLine (text.extract 0 L) i (text.extract 0 v) i := by
  have hnl := hL.getElem? (by omega) hsize
  refine SameLine.of_agree (n := L - 1 - i) ?_ ?_ (.inr ?_)
  · rw [charBefore_front (by omega), charBefore_front (by omega)]
  · intro n hn
    rw [getElem?_front, getElem?_front, if_pos (by omega), if_pos (by omega)]
  · have hlast : i + (L - 1 - i) = L - 1 := by omega
    rw [hlast, getElem?_front, if_pos (by omega), hnl]

/-- Tokens can be put together at a line start. -/
theorem flat_append (hlocal : lex.TokensLocal) {L : Nat} (hL : IsLineStart text L) (huL : u ≤ L)
    (hLv : L ≤ v) (hv : v ≤ text.size) :
    lex.flat text u v = lex.flat text u L ++ lex.flat text L v := by
  have hwalk := walks_flat hlocal.lawful (Nat.le_trans huL hLv) hv
  have hL' : IsLineStart (text.extract 0 v) L := (charBefore_front hLv).trans hL
  obtain ⟨spans₁, spans₂, heq, hfront, hrest⟩ :=
    hwalk.cut hlocal hL' (by rw [size_front hv]; exact hLv) huL hLv
  rw [heq, flat_eq hlocal.lawful hv hrest]
  congr 1
  -- the front of the walk does not see that its text ends
  refine (flat_eq hlocal.lawful (Nat.le_trans hLv hv) ?_).symm
  have hsame : lex.Walks (text.extract 0 L) (shift u 0) (spans₁.map (·.shifted 0)) (shift L 0) := by
    refine hfront.shifted (by omega) ?_
    intro i hi hlt
    rw [shift_zero, size_front (Nat.le_trans hLv hv)]
    refine ⟨hlt, tokenAt?_congr hlocal ?_ ?_ ?_⟩
    · rw [size_front (Nat.le_trans hLv hv)]
      omega
    · rw [size_front hv]
      omega
    · exact sameLine_front hL (by omega) hLv (Nat.le_trans hLv hv)
  rwa [shift_zero, shift_zero, map_shifted_zero] at hsame

end Lexicon

/-- The tokens that a stretch is searched for are those of its line, moved to where the line is. -/
theorem renderTokens_shifted {lex : Lexicon} (doc : Document) (hfull : lex.tokens.isEmpty = false)
    (u v : Nat) : renderTokens lex doc ⟨u, v⟩ =
      ((tokens (doc.slice ⟨doc.lineStart u, v⟩) lex.tokens (u - doc.lineStart u)).map
        lex.spanOf).map (·.shifted (doc.lineStart u : Int)) := by
  rw [renderTokens, if_neg (Bool.eq_false_iff.1 hfull), List.map_map]
  refine List.map_congr_left ?_
  intro t _
  show Span.mk _ _ _ = Span.mk (shift t.extent.start (doc.lineStart u))
    (shift t.extent.stop (doc.lineStart u)) _
  rw [shift_nat, shift_nat]
  rfl

/-- The tokens of a slice that begins at a line start are those of the text, moved to its start. -/
theorem flat_slice {lex : Lexicon} (hlocal : lex.TokensLocal) (doc : Document) {base u v : Nat}
    (hline : IsLineStart doc.chars base) (hbase : base ≤ u) (huv : u ≤ v) (hv : v ≤ doc.length) :
    (tokens (doc.slice ⟨base, v⟩) lex.tokens (u - base)).map lex.spanOf =
      (lex.flat doc.chars u v).map (·.shifted (-(base : Int))) := by
  have hlen : doc.length = doc.chars.size := doc.length_eq
  have hsize : (doc.slice ⟨base, v⟩).size = v - base := by
    rw [Document.size_slice]
    show min v doc.length - base = v - base
    omega
  have hshift : ∀ i, shift i (-(base : Int)) = i - base := by
    intro i
    show ((i : Int) + -(base : Int)).toNat = i - base
    omega
  have hget : ∀ i, base ≤ i → i < v →
      (doc.slice ⟨base, v⟩)[shift i (-(base : Int))]? = doc.chars[i]? := by
    intro i hi hlt
    rw [hshift, Document.getElem?_slice]
    show (if base + (i - base) < v then doc.chars[base + (i - base)]? else none) = _
    rw [Nat.add_sub_cancel' hi, if_pos hlt]
  -- before the first char of the slice nothing stands, which counts as a newline
  have hbefore : charBefore (doc.slice ⟨base, v⟩) (shift base (-(base : Int))) =
      charBefore doc.chars base := by
    rw [hshift, Nat.sub_self]
    exact hline.symm
  have hmoved := Lexicon.flat_shifted hlocal huv (hlen ▸ hv) (by omega)
    (Nat.le_of_eq ((hshift v).trans hsize.symm))
    (charBefore_shift (by omega) hbefore hbase fun j hj hlt => hget j hj (by omega))
    fun i hi hlt => hget i (by omega) hlt
  have hwhole : (doc.slice ⟨base, v⟩).extract 0 (v - base) = doc.slice ⟨base, v⟩ := by
    rw [← hsize]
    exact Array.extract_size
  rwa [hshift, hshift, Lexicon.flat, hwhole] at hmoved

/-- **Rendering tokens** answers the tokens of the stretch, though it searches the whole line. -/
theorem renderTokens_eq {lex : Lexicon} (hlocal : lex.TokensLocal) (doc : Document) {u v : Nat}
    (huv : u ≤ v) (hv : v ≤ doc.length) : renderTokens lex doc ⟨u, v⟩ = lex.flat doc.chars u v := by
  by_cases hnil : lex.tokens.isEmpty = true
  · have htokens : lex.tokens = [] := List.isEmpty_iff.1 hnil
    rw [renderTokens, if_pos hnil, Lexicon.flat, htokens, tokens]
    cases (doc.chars.extract 0 v).size - u <;> rfl
  · have hbase : doc.lineStart u ≤ u := Nat.le_trans (doc.lineStart_le u) (Nat.min_le_left u _)
    rw [renderTokens_shifted doc (Bool.eq_false_iff.2 hnil),
      flat_slice hlocal doc (doc.isLineStart_lineStart u) hbase huv hv, List.map_map]
    refine Eq.trans (List.map_congr_left ?_) (List.map_id (lex.flat doc.chars u v))
    intro s hs
    have hlaid := Lexicon.laid_flat lex huv (doc.length_eq ▸ hv)
    have hfull := hlaid.lt hs
    obtain ⟨hstart, hstop⟩ := hlaid.bounds hs
    show Span.mk (shift (shift s.start _) _) (shift (shift s.stop _) _) s.style = s
    rw [shift_shift (by omega), shift_shift (by omega), Int.add_left_neg, shift_zero, shift_zero]

end Highlighter
