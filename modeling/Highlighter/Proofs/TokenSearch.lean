import Highlighter.Proofs.EncodedTokens

/-! # Token search — nothing at hand is out of date

    The search for tokens keeps the next match of every pattern and searches again only
    those that the last token has overtaken.  The plain search keeps nothing: from each
    place on it seeks the first match of every pattern, takes the one that precedes all
    others and goes on behind it (`Anew`).

    Both take the same tokens (`anew_takeTokens`, `Anew.unique`).  A match at hand is the
    first from the place it was sought from (`nextToken_eq_some_iff`) and from every later
    place it still lies ahead of (`refreshTokens_nextToken`), so the best of the matches at
    hand is the one that the plain search takes (`bestToken_spec`). -/

namespace Highlighter

variable {text : Array Char} {r : Matcher} {defs : List TokenDef} {p i : Nat} {m : Extent}
  {ms : List (Option Extent)} {t t' t'' : Token} {ts ts' : List Token}

/-! ## The first match of one pattern -/

/-- A match with at least one char, and the first such of the pattern from `p` on. -/
structure FirstMatch (text : Array Char) (r : Matcher) (p : Nat) (m : Extent) : Prop where
  ahead  : p ≤ m.start
  taken  : m.start < m.stop
  inside : m.stop ≤ text.size
  here   : r.endAt? text m.start = some m.stop
  first  : ∀ q, p ≤ q → q < m.start → ∀ stop, r.endAt? text q = some stop → stop ≤ q

/-- A pattern has no length at a position when nothing with a char begins there. -/
theorem lengthAt?_eq_none_iff {q : Nat} :
    lengthAt? text r q = none ↔ ∀ stop, r.endAt? text q = some stop → stop ≤ q := by
  rw [lengthAt?]
  constructor
  · intro h stop hstop
    rw [hstop, Option.bind_some] at h
    apply Nat.le_of_not_lt
    intro hlt
    rw [if_pos hlt] at h
    exact absurd h (Option.some_ne_none _)
  · intro h
    cases hstop : r.endAt? text q with
    | none => rfl
    | some stop => rw [Option.bind_some, if_neg (Nat.not_lt.2 (h stop hstop))]

/-- A pattern has the length of the match that begins at a position. -/
theorem lengthAt?_eq_some_iff {q n : Nat} :
    lengthAt? text r q = some n ↔ 0 < n ∧ r.endAt? text q = some (q + n) := by
  constructor
  · intro h
    obtain ⟨stop, hstop, hlt, rfl⟩ := lengthAt?_eq_some h
    rw [hstop, Nat.add_sub_cancel' (Nat.le_of_lt hlt)]
    exact ⟨Nat.sub_pos_of_lt hlt, rfl⟩
  · rintro ⟨hpos, hstop⟩
    rw [lengthAt?, hstop, Option.bind_some, if_pos (Nat.lt_add_of_pos_right hpos),
      Nat.add_sub_cancel_left]

/-- The next match of a pattern is its first one with a char. -/
theorem nextToken_eq_some_iff (hr : r.Lawful) :
    nextToken text r p = some m ↔ FirstMatch text r p m := by
  rw [nextToken_eq_firstFrom hr]
  constructor
  · intro h
    obtain ⟨q, hpq, hq, hat, hbefore⟩ := firstFrom_eq_some h
    obtain ⟨n, hn, rfl⟩ := Option.map_eq_some_iff.1 hat
    obtain ⟨hpos, hstop⟩ := lengthAt?_eq_some_iff.1 hn
    -- before the first place with an answer no match has a char
    refine ⟨hpq, Nat.lt_add_of_pos_right hpos, (Matcher.endAt?_bounds hstop).2, hstop, ?_⟩
    intro q' hq' hlt
    exact lengthAt?_eq_none_iff.1 (Option.map_eq_none_iff.1 (hbefore q' hq' hlt))
  · intro h
    have hsize : m.start ≤ text.size := Nat.le_of_lt (Nat.lt_of_lt_of_le h.taken h.inside)
    have hstop : m.start + (m.stop - m.start) = m.stop := Nat.add_sub_cancel' (Nat.le_of_lt h.taken)
    have hlen : lengthAt? text r m.start = some (m.stop - m.start) := by
      rw [lengthAt?_eq_some_iff, hstop]
      exact ⟨Nat.sub_pos_of_lt h.taken, h.here⟩
    have hbefore : ∀ q, p ≤ q → q < m.start →
        (lengthAt? text r q).map (fun n => Extent.mk q (q + n)) = none := by
      intro q hq hlt
      rw [lengthAt?_eq_none_iff.2 (h.first q hq hlt), Option.map_none]
    rw [firstFrom_skip h.ahead hbefore]
    refine firstFrom_of_some hsize ?_
    rw [hlen, Option.map_some, hstop]

/-! ## Which of two tokens goes first -/

/-- One token precedes another: it starts earlier, or there and is longer, or both have the same
    extent and its pattern is not declared later. -/
def Token.Precedes (t t' : Token) : Prop :=
  t.extent.start < t'.extent.start ∨ t.extent.start = t'.extent.start ∧
    (t'.extent.stop < t.extent.stop ∨ t.extent.stop = t'.extent.stop ∧ t.pattern ≤ t'.pattern)

theorem Token.Precedes.refl (t : Token) : t.Precedes t :=
  .inr ⟨rfl, .inr ⟨rfl, Nat.le_refl _⟩⟩

/-- What precedes a token precedes what that precedes. -/
theorem Token.Precedes.trans (h : t.Precedes t') (h' : t'.Precedes t'') : t.Precedes t'' := by
  unfold Token.Precedes at *
  omega

/-- Two tokens do not precede each other. -/
theorem Token.Precedes.antisymm (h : t.Precedes t') (h' : t'.Precedes t) : t = t' := by
  obtain ⟨pattern, start, stop⟩ := t
  obtain ⟨pattern', start', stop'⟩ := t'
  simp only [Token.Precedes] at h h'
  have hpattern : pattern = pattern' := by omega
  have hstart : start = start' := by omega
  have hstop : stop = stop' := by omega
  subst hpattern hstart hstop
  rfl

/-- A match that is preferred precedes the other. -/
theorem precedes_of_preferred (h : preferred t.extent t'.extent = true) : t.Precedes t' := by
  rw [preferred, Bool.or_eq_true, Bool.and_eq_true, decide_eq_true_eq, beq_iff_eq,
    decide_eq_true_eq] at h
  rcases h with hstart | ⟨hstart, hstop⟩
  · exact .inl hstart
  · exact .inr ⟨hstart, .inl hstop⟩

/-- What is not preferred to an earlier pattern's match comes behind it. -/
theorem precedes_of_not_preferred (h : ¬preferred t'.extent t.extent = true)
    (hle : t.pattern ≤ t'.pattern) : t.Precedes t' := by
  rw [preferred, Bool.or_eq_true, Bool.and_eq_true, decide_eq_true_eq, beq_iff_eq,
    decide_eq_true_eq] at h
  unfold Token.Precedes
  omega

/-! ## The best of the matches at hand -/

/-- A token is one of the matches at hand, which are numbered from `i`. -/
def Listed (i : Nat) (ms : List (Option Extent)) (t : Token) : Prop :=
  ∃ j, t.pattern = i + j ∧ ms[j]? = some (some t.extent)

theorem not_listed_nil : ¬Listed i [] t := by
  rintro ⟨j, -, hj⟩
  exact absurd hj (by simp)

/-- A pattern without a match lists nothing. -/
theorem listed_none : Listed i (none :: ms) t ↔ Listed (i + 1) ms t := by
  constructor
  · rintro ⟨j, hpattern, hj⟩
    cases j with
    | zero => exact absurd hj (by simp)
    | succ j => exact ⟨j, by omega, by simpa using hj⟩
  · rintro ⟨j, hpattern, hj⟩
    exact ⟨j + 1, by omega, by simpa using hj⟩

/-- A pattern with a match lists it. -/
theorem listed_some : Listed i (some m :: ms) t ↔ t = ⟨i, m⟩ ∨ Listed (i + 1) ms t := by
  constructor
  · rintro ⟨j, hpattern, hj⟩
    cases j with
    | zero =>
        obtain ⟨pattern, extent⟩ := t
        obtain rfl : pattern = i := hpattern
        obtain rfl : m = extent := by simpa using hj
        exact .inl rfl
    | succ j => exact .inr ⟨j, by omega, by simpa using hj⟩
  · rintro (rfl | ⟨j, hpattern, hj⟩)
    · exact ⟨0, rfl, rfl⟩
    · exact ⟨j + 1, by omega, by simpa using hj⟩

theorem Listed.le (h : Listed i ms t) : i ≤ t.pattern := by
  obtain ⟨j, hpattern, -⟩ := h
  omega

/-- With no best match none is listed. -/
theorem not_listed_of_bestToken (h : bestToken i ms = none) : ¬Listed i ms t := by
  induction ms generalizing i with
  | nil => exact not_listed_nil
  | cons o rest ih =>
      cases o with
      | none =>
          rw [listed_none]
          exact ih h
      | some m => exact absurd h bestToken_cons_ne_none

/-- **The best of the matches at hand** is one of them and precedes them all. -/
theorem bestToken_spec (h : bestToken i ms = some t) :
    Listed i ms t ∧ ∀ t', Listed i ms t' → t.Precedes t' := by
  induction ms generalizing i t with
  | nil => exact absurd h.symm (Option.some_ne_none t)
  | cons o rest ih =>
      cases o with
      | none =>
          simp only [listed_none]
          exact ih h
      | some m =>
          simp only [listed_some]
          rcases bestToken_cons_eq_some h with ⟨hbest, hpreferred⟩ | ⟨rfl, hfirst⟩
          · obtain ⟨hlisted, hall⟩ := ih hbest
            refine ⟨.inr hlisted, ?_⟩
            rintro t' (rfl | hrest)
            · exact precedes_of_preferred hpreferred
            · exact hall t' hrest
          · refine ⟨.inl rfl, ?_⟩
            rintro t' (rfl | hrest)
            · exact .refl _
            · -- the match at the head is compared with the best of the others
              cases hbest : bestToken (i + 1) rest with
              | none => exact absurd hrest (not_listed_of_bestToken hbest)
              | some best =>
                  obtain ⟨hlisted, hall⟩ := ih hbest
                  have hnot := Bool.eq_false_iff.1 (hfirst best hbest)
                  have hprecedes : Token.Precedes ⟨i, m⟩ best :=
                    precedes_of_not_preferred hnot (Nat.le_of_succ_le hlisted.le)
                  exact hprecedes.trans (hall t' hrest)

/-! ## The plain search -/

/-- A token that the plain search may take from `p` on: the first match of its pattern. -/
def Contends (text : Array Char) (defs : List TokenDef) (p : Nat) (t : Token) : Prop :=
  ∃ d, defs[t.pattern]? = some d ∧ FirstMatch text d.regex p t.extent

/-- The token that the plain search takes from `p` on. -/
structure Wins (text : Array Char) (defs : List TokenDef) (p : Nat) (t : Token) : Prop where
  contends : Contends text defs p t
  precedes : ∀ t', Contends text defs p t' → t.Precedes t'

/-- **The plain search** from `p` on takes the winner, and then seeks anew from its end. -/
inductive Anew (text : Array Char) (defs : List TokenDef) : (p : Nat) → List Token → Prop
  | done {p : Nat} : (∀ t, ¬Contends text defs p t) → Anew text defs p []
  | take {p : Nat} {t : Token} {ts : List Token} : Wins text defs p t →
      Anew text defs t.extent.stop ts → Anew text defs p (t :: ts)

/-- The tokens that contend are the matches that a search has at hand. -/
theorem contends_iff_listed (hlawful : TokensLawful defs) :
    Contends text defs p t ↔ Listed 0 (defs.map fun d => nextToken text d.regex p) t := by
  constructor
  · rintro ⟨d, hd, hfirst⟩
    refine ⟨t.pattern, (Nat.zero_add _).symm, ?_⟩
    rw [List.getElem?_map, hd, Option.map_some,
      (nextToken_eq_some_iff (hlawful d (List.mem_of_getElem? hd))).2 hfirst]
  · rintro ⟨j, hpattern, hj⟩
    obtain rfl : t.pattern = j := hpattern.trans (Nat.zero_add j)
    rw [List.getElem?_map] at hj
    obtain ⟨d, hd, hnext⟩ := Option.map_eq_some_iff.1 hj
    exact ⟨d, hd, (nextToken_eq_some_iff (hlawful d (List.mem_of_getElem? hd))).1 hnext⟩

/-- A token that may be taken has a char and lies ahead. -/
theorem Contends.bounds (h : Contends text defs p t) :
    p ≤ t.extent.start ∧ t.extent.start < t.extent.stop ∧ t.extent.stop ≤ text.size := by
  obtain ⟨d, -, hfirst⟩ := h
  exact ⟨hfirst.ahead, hfirst.taken, hfirst.inside⟩

/-- One token wins. -/
theorem Wins.unique (h : Wins text defs p t) (h' : Wins text defs p t') : t = t' :=
  (h.precedes t' h'.contends).antisymm (h'.precedes t h.contends)

/-- One round takes the token that the plain search takes. -/
theorem wins_bestToken (hlawful : TokensLawful defs)
    (h : bestToken 0 (defs.map fun d => nextToken text d.regex p) = some t) :
    Wins text defs p t := by
  obtain ⟨hlisted, hall⟩ := bestToken_spec h
  refine ⟨(contends_iff_listed hlawful).2 hlisted, ?_⟩
  intro t' ht'
  exact hall t' ((contends_iff_listed hlawful).1 ht')

/-- The rounds together are a plain search, with room for a token per char. -/
theorem anew_takeTokens (hlawful : TokensLawful defs) {room : Nat} (hroom : text.size - p ≤ room) :
    Anew text defs p (takeTokens text defs room (defs.map fun d => nextToken text d.regex p)) := by
  induction room generalizing p with
  | zero =>
      refine .done ?_
      intro t ht
      have hbounds := ht.bounds
      omega
  | succ room ih =>
      rw [takeTokens]
      cases hbest : bestToken 0 (defs.map fun d => nextToken text d.regex p) with
      | none =>
          refine .done ?_
          intro t ht
          exact not_listed_of_bestToken hbest ((contends_iff_listed hlawful).1 ht)
      | some t =>
          -- the token that is taken has a char, so there is one less to find
          have hwins := wins_bestToken hlawful hbest
          have hbounds := hwins.contends.bounds
          have hrest : text.size - t.extent.stop ≤ room := by omega
          have hle : p ≤ t.extent.stop := by omega
          dsimp only
          rw [refreshTokens_nextToken hle hlawful]
          exact .take hwins (ih hrest)

/-- The plain search takes one list of tokens. -/
theorem Anew.unique (h : Anew text defs p ts) (h' : Anew text defs p ts') : ts = ts' := by
  induction h generalizing ts' with
  | done hnone =>
      cases h' with
      | done => rfl
      | take hwins => exact absurd hwins.contends (hnone _)
  | take hwins _ ih =>
      cases h' with
      | done hnone => exact absurd hwins.contends (hnone _)
      | take hwins' hrest =>
          obtain rfl := hwins.unique hwins'
          rw [ih hrest]

/-- Tokens of a plain search have chars and lie where it was begun. -/
theorem Anew.bounds (h : Anew text defs p ts) : ∀ t ∈ ts,
    p ≤ t.extent.start ∧ t.extent.start < t.extent.stop ∧ t.extent.stop ≤ text.size := by
  induction h with
  | done => simp
  | take hwins _ ih =>
      have hbounds := hwins.contends.bounds
      intro t' ht'
      rcases List.mem_cons.1 ht' with rfl | ht'
      · exact hbounds
      · have := ih t' ht'
        omega

/-- Each token of a plain search begins behind those before it. -/
theorem Anew.pairwise (h : Anew text defs p ts) :
    ts.Pairwise fun t t' => t.extent.start < t'.extent.start ∧ t.extent.stop ≤ t'.extent.start := by
  induction h with
  | done => exact .nil
  | take hwins hrest ih =>
      refine .cons ?_ ih
      intro t' ht'
      have hbounds := hwins.contends.bounds
      have hbounds' := hrest.bounds t' ht'
      omega

/-- **The tokens are those of the plain search**, for any lawful matchers: the search that keeps no
    match from one place to the next takes the same.  They come in order, none overlaps another,
    and each has a char.  The search by byte offsets answers these tokens and no others. -/
theorem tokens_iff_anew {defs : List TokenDef} (hlawful : TokensLawful defs) (text : Array Char)
    (p : Nat) :
    (∀ ts, Anew text defs p ts ↔ ts = tokens text defs p) ∧
      (tokens text defs p).Pairwise (fun t t' =>
        t.extent.start < t'.extent.start ∧ t.extent.stop ≤ t'.extent.start) ∧
      (∀ t ∈ tokens text defs p,
        p ≤ t.extent.start ∧ t.extent.start < t.extent.stop ∧ t.extent.stop ≤ text.size) ∧
      ∀ ts, Encoded.Tokenizes text (defs.map fun d => Encoded.findFrom text d.regex)
          (Encoded.offset text p) ts ↔
        ts = (tokens text defs p).map (Encoded.tokenInBytes text) := by
  have hanew : Anew text defs p (tokens text defs p) := anew_takeTokens hlawful (Nat.le_refl _)
  refine ⟨?_, hanew.pairwise, hanew.bounds, fun ts => Encoded.tokenizes_iff⟩
  intro ts
  constructor
  · intro h
    exact h.unique hanew
  · rintro rfl
    exact hanew

/-- Patterns for a digit, for a digit with its unit, and for an accent that may be missing. -/
def TokenDef.measures : List TokenDef :=
  [{ id := "digit", regex := Regex.char ⟨[(48, 57)]⟩, style := "digit" },
   { id := "measure", regex := Regex.pair ⟨[(48, 57)]⟩ ⟨[(97, 122)]⟩, style := "measure" },
   { id := "accent", regex := Regex.optional ⟨[(224, 255)]⟩, style := "accent" }]

theorem TokenDef.lawful_measures : TokensLawful TokenDef.measures := by
  intro d hd
  simp only [TokenDef.measures, List.mem_cons, List.not_mem_nil, or_false] at hd
  rcases hd with rfl | rfl | rfl <;> exact Regex.lawful_matcher _

/-- What the patterns match where they are asked, without what is empty. -/
theorem TokenDef.lengths_measures (hp : p ≤ text.size) :
    (TokenDef.measures.map fun d => lengthAt? text d.regex p) =
      [if text[p]?.any (CharSet.contains ⟨[(48, 57)]⟩) then some 1 else none,
       if text[p]?.any (CharSet.contains ⟨[(48, 57)]⟩) ∧
          text[p + 1]?.any (CharSet.contains ⟨[(97, 122)]⟩) then some 2 else none,
       if text[p]?.any (CharSet.contains ⟨[(224, 255)]⟩) then some 1 else none] := by
  simp only [TokenDef.measures, List.map_cons, List.map_nil, lengthAt?, Regex.endAt?_char,
    Regex.endAt?_pair, Regex.endAt?_optional _ hp]
  congr 3 <;> split <;> simp

/-- A text with an accent, a measure and a digit. -/
def TokenDef.measured : Array Char := #['é', '1', 'm', '2']

/-- The accent, the measure and the digit, by chars and by bytes. -/
theorem tokens_iff_anew_measures :
    TokensLawful TokenDef.measures ∧
      tokens TokenDef.measured TokenDef.measures 0 =
        [⟨2, ⟨0, 1⟩⟩, ⟨1, ⟨1, 3⟩⟩, ⟨0, ⟨3, 4⟩⟩] ∧
      Encoded.Tokenizes TokenDef.measured
        (TokenDef.measures.map fun d => Encoded.findFrom TokenDef.measured d.regex)
        (Encoded.offset TokenDef.measured 0)
        [⟨2, ⟨0, 2⟩⟩, ⟨1, ⟨2, 4⟩⟩, ⟨0, ⟨4, 5⟩⟩] := by
  have hlawful := TokenDef.lawful_measures
  have hwins : ∀ p ≤ TokenDef.measured.size, ∀ i n,
      longest 0 (TokenDef.measures.map fun d => lengthAt? TokenDef.measured d.regex p) =
        some (i, n) → Wins TokenDef.measured TokenDef.measures p ⟨i, ⟨p, p + n⟩⟩ := by
    intro p hp i n h
    exact wins_bestToken hlawful ((Lexicon.bestToken_nextToken hp 0 hlawful).1 _ h)
  have haccent := hwins 0 (by decide) 2 1 (by rw [TokenDef.lengths_measures] <;> decide)
  have hmeasure := hwins 1 (by decide) 1 2 (by rw [TokenDef.lengths_measures] <;> decide)
  have hdigit := hwins 3 (by decide) 0 1 (by rw [TokenDef.lengths_measures] <;> decide)
  have hnone : ∀ t, ¬Contends TokenDef.measured TokenDef.measures 4 t := by
    intro t ht
    obtain ⟨hstart, hlt, hstop⟩ := ht.bounds
    exact absurd (Nat.lt_of_le_of_lt hstart hlt) (Nat.not_lt.2 hstop)
  obtain ⟨htokens, -, -, hbytes⟩ := tokens_iff_anew hlawful TokenDef.measured 0
  have h := (htokens _).1 (.take haccent (.take hmeasure (.take hdigit (.done hnone))))
  refine ⟨hlawful, h.symm, (hbytes _).2 ?_⟩
  rw [← h]
  decide

end Highlighter
