import Highlighter.Proofs.Delimiters
import Highlighter.Proofs.Results
import Highlighter.Tokens

/-! # Definitions — which rules of a grammar are in use

    What compiles a pattern is a partial function from texts to matchers, and nothing is known
    of it here.  A rule is in use when its patterns can be read and, for a region, the opening
    one does not match the empty text.  The lexicon of a grammar defines these rules, in order and
    each as it says (`forall₂_usableRegions`, `forall₂_usableTokens`), and the others leave
    no trace: without them the lexicon is the same (`ofGrammar_usable`).

    A check of the grammar reads every pattern, by the same rules, and stops at the first
    that cannot be read: regions before tokens, and the opening pattern of a region before
    its closing one (`validate_eq_error_iff`). -/

namespace Highlighter

section Reading

variable (compile : String → Option Matcher)

/-! ## Reading a rule -/

namespace RegionRule

/-- Both patterns can be read. -/
def Reads (r : RegionRule) : Prop :=
  (compile r.start).isSome = true ∧ (compile r.stop).isSome = true

/-- Both patterns can be read, and the opening one does not match the empty text. -/
def Usable (r : RegionRule) : Prop :=
  r.Reads compile ∧ ∀ start ∈ compile r.start, start.find? #[] 0 = none

instance (r : RegionRule) : Decidable (r.Usable compile) := inferInstanceAs (Decidable ((_ ∧ _) ∧ _))

/-- The definition has what the rule says, with its patterns read. -/
structure Defines (r : RegionRule) (d : RegionDef) : Prop where
  id     : d.id = r.id
  source : d.source = r.start
  start  : compile r.start = some d.start
  stop   : compile r.stop = some d.stop
  style  : d.style = r.style

/-- What is wrong with a rule that cannot be read: the opening pattern is looked at first. -/
inductive Faulty (r : RegionRule) : Failure → Prop
  | start (hstart : compile r.start = none) : Faulty r (.pattern r.id .start)
  | stop (hstart : (compile r.start).isSome = true) (hstop : compile r.stop = none) :
      Faulty r (.pattern r.id .stop)

end RegionRule

namespace TokenRule

/-- The pattern can be read. -/
def Reads (r : TokenRule) : Prop := (compile r.pattern).isSome = true

instance (r : TokenRule) : Decidable (r.Reads compile) := inferInstanceAs (Decidable (_ = _))

/-- The definition has what the rule says, with its pattern read. -/
structure Defines (r : TokenRule) (d : TokenDef) : Prop where
  id    : d.id = r.id
  regex : compile r.pattern = some d.regex
  style : d.style = r.style

end TokenRule

variable {compile}

/-- A pattern is read to what it is compiled to. -/
theorem readPattern_eq_ok_iff {id source : String} {part : PatternPart} {r : Matcher} :
    readPattern compile id part source = .ok r ↔ compile source = some r := by
  unfold readPattern
  split <;> simp_all

/-- A pattern that does not compile is an error that names its part. -/
theorem readPattern_eq_error_iff {id source : String} {part : PatternPart} {e : Failure} :
    readPattern compile id part source = .error e ↔
      compile source = none ∧ e = .pattern id part := by
  unfold readPattern
  cases compile source <;> simp [eq_comm]

namespace RegionRule

variable {r : RegionRule} {d : RegionDef} {e : Failure}

/-- A rule is read to its definition. -/
theorem readBy_eq_ok_iff : r.readBy compile = .ok d ↔ r.Defines compile d := by
  simp only [readBy, bind_eq_ok_iff, readPattern_eq_ok_iff]
  constructor
  · rintro ⟨start, hstart, stop, hstop, heq⟩
    obtain rfl := Except.ok.inj heq
    exact ⟨rfl, rfl, hstart, hstop, rfl⟩
  · rintro ⟨hid, hsource, hstart, hstop, hstyle⟩
    refine ⟨_, hstart, _, hstop, ?_⟩
    rw [← hid, ← hsource, ← hstyle]
    rfl

/-- A rule has a definition when both its patterns compile. -/
theorem exists_defines_iff : (∃ d, r.Defines compile d) ↔ r.Reads compile := by
  constructor
  · rintro ⟨d, hd⟩
    exact ⟨Option.isSome_of_mem hd.start, Option.isSome_of_mem hd.stop⟩
  · rintro ⟨hstart, hstop⟩
    obtain ⟨start, hstart⟩ := Option.isSome_iff_exists.1 hstart
    obtain ⟨stop, hstop⟩ := Option.isSome_iff_exists.1 hstop
    exact ⟨⟨r.id, r.start, start, stop, r.style⟩, rfl, rfl, hstart, hstop, rfl⟩

/-- A rule that is not read is an error that names the first pattern at fault. -/
theorem readBy_eq_error_iff : r.readBy compile = .error e ↔ r.Faulty compile e := by
  simp only [readBy, bind_eq_error_iff, readPattern_eq_ok_iff, readPattern_eq_error_iff]
  constructor
  -- the closing pattern is read only after the opening one
  · rintro (⟨hstart, rfl⟩ | ⟨start, hstart, ⟨hstop, rfl⟩ | ⟨stop, -, heq⟩⟩)
    · exact .start hstart
    · exact .stop (Option.isSome_of_mem hstart) hstop
    · cases heq
  · rintro (hstart | ⟨hstart, hstop⟩)
    · exact .inl ⟨hstart, rfl⟩
    · obtain ⟨start, hstart⟩ := Option.isSome_iff_exists.1 hstart
      exact .inr ⟨start, hstart, .inl ⟨hstop, rfl⟩⟩

end RegionRule

namespace TokenRule

variable {r : TokenRule} {d : TokenDef} {e : Failure}

/-- A rule is read to its definition. -/
theorem readBy_eq_ok_iff : r.readBy compile = .ok d ↔ r.Defines compile d := by
  simp only [readBy, bind_eq_ok_iff, readPattern_eq_ok_iff]
  constructor
  · rintro ⟨regex, hregex, heq⟩
    obtain rfl := Except.ok.inj heq
    exact ⟨rfl, hregex, rfl⟩
  · rintro ⟨hid, hregex, hstyle⟩
    refine ⟨_, hregex, ?_⟩
    rw [← hid, ← hstyle]
    rfl

/-- A rule has a definition when its pattern compiles. -/
theorem exists_defines_iff : (∃ d, r.Defines compile d) ↔ r.Reads compile := by
  constructor
  · rintro ⟨d, hd⟩
    exact Option.isSome_of_mem hd.regex
  · intro hregex
    obtain ⟨regex, hregex⟩ := Option.isSome_iff_exists.1 hregex
    exact ⟨⟨r.id, regex, r.style⟩, rfl, hregex, rfl⟩

/-- A rule that is not read is an error that names its pattern. -/
theorem readBy_eq_error_iff : r.readBy compile = .error e ↔
    compile r.pattern = none ∧ e = .pattern r.id .token := by
  simp only [readBy, bind_eq_error_iff, readPattern_eq_error_iff]
  refine or_iff_left ?_
  rintro ⟨regex, -, heq⟩
  cases heq

end TokenRule

/-! ## The rules in use -/

section FilterMap

variable {α β : Type} {f : α → Option β} {p : α → Prop} [DecidablePred p] {l : List α}

/-- What a partial function gives for a list, item by item of its domain. -/
theorem forall₂_filterMap (hp : ∀ a, p a ↔ (f a).isSome = true) :
    List.Forall₂ (fun a b => f a = some b) (l.filter (p ·)) (l.filterMap f) := by
  induction l with
  | nil => exact .nil
  | cons a l ih =>
      by_cases ha : p a
      · obtain ⟨b, hb⟩ := Option.isSome_iff_exists.1 ((hp a).1 ha)
        rw [List.filter_cons_of_pos (by simpa using ha), List.filterMap_cons_some hb]
        exact .cons hb ih
      · have hnone : f a = none := Option.not_isSome_iff_eq_none.1 fun h => ha ((hp a).2 h)
        rw [List.filter_cons_of_neg (by simpa using ha), List.filterMap_cons_none hnone]
        exact ih

/-- Items outside the domain of a partial function do not matter to it. -/
theorem filterMap_filter (hp : ∀ a, p a ↔ (f a).isSome = true) :
    (l.filter (p ·)).filterMap f = l.filterMap f := by
  rw [List.filterMap_filter]
  congr
  funext a
  by_cases ha : p a
  · rw [if_pos (decide_eq_true ha)]
  · rw [if_neg (by simpa using ha)]
    exact (Option.not_isSome_iff_eq_none.1 fun h => ha ((hp a).2 h)).symm

end FilterMap

namespace Lexicon

/-- The definition of a region rule, if it is usable. -/
def define? (compile : String → Option Matcher) (r : RegionRule) : Option RegionDef :=
  match r.readBy compile with
  | .ok d => if opensOnNothing d then none else some d
  | .error _ => none

/-- A rule is taken up with its definition, unless that opens on nothing. -/
theorem define?_eq_some_iff {r : RegionRule} {d : RegionDef} :
    define? compile r = some d ↔ r.Defines compile d ∧ d.start.find? #[] 0 = none := by
  rw [← RegionRule.readBy_eq_ok_iff, ← Option.not_isSome_iff_eq_none]
  unfold define?
  split
  · rename_i d' hread
    rw [hread, Except.ok.injEq]
    constructor
    · intro h
      split at h
      · exact nomatch h
      · rename_i hopens
        obtain rfl := Option.some.inj h
        exact ⟨rfl, hopens⟩
    · rintro ⟨rfl, hopens⟩
      exact if_neg hopens
  · rename_i e hread
    rw [hread]
    exact iff_of_false nofun nofun

/-- The rules that are taken up are the usable ones. -/
theorem usable_iff (r : RegionRule) : r.Usable compile ↔ (define? compile r).isSome = true := by
  rw [Option.isSome_iff_exists]
  simp only [define?_eq_some_iff]
  constructor
  · rintro ⟨hreads, hopens⟩
    obtain ⟨d, hd⟩ := RegionRule.exists_defines_iff.2 hreads
    exact ⟨d, hd, hopens d.start hd.start⟩
  · rintro ⟨d, hd, hopens⟩
    refine ⟨RegionRule.exists_defines_iff.1 ⟨d, hd⟩, ?_⟩
    intro start hstart
    -- a pattern is read in one way only
    obtain rfl := Option.some.inj (hd.start.symm.trans hstart)
    exact hopens

theorem reads_iff (r : TokenRule) : r.Reads compile ↔ (r.readBy compile).toOption.isSome = true := by
  rw [← TokenRule.exists_defines_iff]
  simp only [← TokenRule.readBy_eq_ok_iff]
  cases r.readBy compile <;> simp [Except.toOption]

/-- **The usable region definitions** are those of the usable rules, in their order. -/
theorem forall₂_usableRegions (rules : List RegionRule) :
    List.Forall₂ (RegionRule.Defines compile) (rules.filter (·.Usable compile))
      (usableRegions compile rules) :=
  (forall₂_filterMap usable_iff).imp fun _ _ h => (define?_eq_some_iff.1 h).1

/-- **The usable token definitions** are those of the rules that can be read, in their order. -/
theorem forall₂_usableTokens (rules : List TokenRule) :
    List.Forall₂ (TokenRule.Defines compile) (rules.filter (·.Reads compile))
      (usableTokens compile rules) := by
  refine (forall₂_filterMap reads_iff).imp fun r d h => TokenRule.readBy_eq_ok_iff.1 ?_
  cases hread : r.readBy compile with
  | ok d' =>
      rw [hread] at h
      exact congrArg _ (Option.some.inj h)
  | error e =>
      rw [hread] at h
      exact nomatch h

/-- What lawful matchers are compiled for makes a lawful lexicon. -/
theorem lawful_ofGrammarBy (hcompile : ∀ source r, compile source = some r → r.Lawful)
    (g : Grammar) : (ofGrammarBy compile g).Lawful := by
  have hdefines : ∀ d ∈ (ofGrammarBy compile g).regions, ∃ r : RegionRule, r.Defines compile d := by
    intro d hd
    obtain ⟨r, -, hr⟩ := List.mem_filterMap.1 (List.mem_of_mem_take hd)
    exact ⟨r, (define?_eq_some_iff.1 hr).1⟩
  refine ⟨?_, ?_, ?_⟩
  · intro d hd
    obtain ⟨rule, hrule⟩ := hdefines d hd
    exact hcompile _ _ hrule.start
  · intro d hd
    obtain ⟨rule, hrule⟩ := hdefines d hd
    exact hcompile _ _ hrule.stop
  · intro r hr
    obtain ⟨-, hmerged⟩ := Option.ite_none_left_eq_some.1 hr
    exact hcompile _ _ hmerged

/-- The lexicon of a grammar of regular expressions is lawful. -/
theorem lawful_ofGrammar (g : Grammar) : (ofGrammar g).Lawful := by
  refine lawful_ofGrammarBy ?_ g
  intro source r hr
  obtain ⟨regex, -, rfl⟩ := Option.map_eq_some_iff.1 hr
  exact regex.lawful_matcher

end Lexicon

namespace Grammar

/-- The grammar with the rules that are in use, and no others. -/
def usable (compile : String → Option Matcher) (g : Grammar) : Grammar :=
  { g with
    regions := g.regions.filter (·.Usable compile)
    tokens := g.tokens.filter (·.Reads compile) }

/-- A lexicon has nothing of the rules that are not in use. -/
theorem ofGrammarBy_usable (g : Grammar) :
    Lexicon.ofGrammarBy compile (g.usable compile) = Lexicon.ofGrammarBy compile g := by
  have hregions : Lexicon.usableRegions compile (g.usable compile).regions =
      Lexicon.usableRegions compile g.regions :=
    filterMap_filter Lexicon.usable_iff
  have htokens : Lexicon.usableTokens compile (g.usable compile).tokens =
      Lexicon.usableTokens compile g.tokens :=
    filterMap_filter Lexicon.reads_iff
  simp only [Lexicon.ofGrammarBy, hregions, htokens]
  rfl

/-- As long as they are few enough, all usable rules are taken up. -/
theorem regions_ofGrammarBy {g : Grammar}
    (hfew : (g.usable compile).regions.length ≤ Lexicon.regionLimit) :
    (Lexicon.ofGrammarBy compile g).regions = Lexicon.usableRegions compile g.regions := by
  have hlength : (g.usable compile).regions.length =
      (Lexicon.usableRegions compile g.regions).length :=
    (Lexicon.forall₂_usableRegions g.regions).length_eq
  exact List.take_of_length_le (hlength ▸ hfew)

/-! ## Checking a grammar -/

/-- The first rule that cannot be read, and which of its patterns. -/
inductive FirstFault (compile : String → Option Matcher) (g : Grammar) : Failure → Prop
  | region {before after : List RegionRule} {r : RegionRule} {e : Failure}
      (hsplit : g.regions = before ++ r :: after) (hbefore : ∀ r' ∈ before, r'.Reads compile)
      (hr : r.Faulty compile e) : FirstFault compile g e
  | token {before after : List TokenRule} {r : TokenRule}
      (hregions : ∀ r' ∈ g.regions, r'.Reads compile)
      (hsplit : g.tokens = before ++ r :: after) (hbefore : ∀ r' ∈ before, r'.Reads compile)
      (hr : compile r.pattern = none) : FirstFault compile g (.pattern r.id .token)

variable {g : Grammar}

/-- To validate a grammar is to read its rules in turn. -/
theorem validateBy_eq : g.validateBy compile =
    g.regions.mapM (RegionRule.readBy compile) >>= fun _ =>
      g.tokens.mapM (TokenRule.readBy compile) >>= fun _ => pure () := by
  show (forIn g.regions PUnit.unit _ >>= fun _ => forIn g.tokens PUnit.unit _ >>= fun _ => pure ()) = _
  rw [forIn_eq_mapM, forIn_eq_mapM]
  cases g.regions.mapM (RegionRule.readBy compile) with
  | error e => rfl
  | ok ds => cases g.tokens.mapM (TokenRule.readBy compile) <;> rfl

/-- All region rules are read when each of them reads. -/
theorem exists_mapM_regions : (∃ ds, g.regions.mapM (RegionRule.readBy compile) = .ok ds) ↔
    ∀ r ∈ g.regions, r.Reads compile := by
  simp only [exists_mapM_eq_ok_iff, RegionRule.readBy_eq_ok_iff, RegionRule.exists_defines_iff]

theorem exists_mapM_tokens : (∃ ds, g.tokens.mapM (TokenRule.readBy compile) = .ok ds) ↔
    ∀ r ∈ g.tokens, r.Reads compile := by
  simp only [exists_mapM_eq_ok_iff, TokenRule.readBy_eq_ok_iff, TokenRule.exists_defines_iff]

/-- A check passes when every pattern can be read. -/
theorem validateBy_eq_ok_iff : g.validateBy compile = .ok () ↔
    (∀ r ∈ g.regions, r.Reads compile) ∧ ∀ r ∈ g.tokens, r.Reads compile := by
  rw [validateBy_eq, ← exists_mapM_regions, ← exists_mapM_tokens]
  simp only [bind_eq_ok_iff]
  constructor
  · rintro ⟨ds, hds, ds', hds', -⟩
    exact ⟨⟨ds, hds⟩, ds', hds'⟩
  · rintro ⟨⟨ds, hds⟩, ds', hds'⟩
    exact ⟨ds, hds, ds', hds', rfl⟩

/-- A check that does not pass reports the first pattern that cannot be read. -/
theorem validateBy_eq_error_iff {e : Failure} :
    g.validateBy compile = .error e ↔ g.FirstFault compile e := by
  rw [validateBy_eq]
  simp only [bind_eq_error_iff, mapM_eq_error_iff, FailsFirst, RegionRule.readBy_eq_error_iff,
    TokenRule.readBy_eq_error_iff, RegionRule.readBy_eq_ok_iff, TokenRule.readBy_eq_ok_iff,
    RegionRule.exists_defines_iff, TokenRule.exists_defines_iff]
  constructor
  · rintro (⟨before, r, after, hsplit, hbefore, hr⟩ | ⟨ds, hds, h⟩)
    · exact .region hsplit hbefore hr
    · rcases h with ⟨before, r, after, hsplit, hbefore, hr, rfl⟩ | ⟨ds', -, heq⟩
      · exact .token (exists_mapM_regions.1 ⟨ds, hds⟩) hsplit hbefore hr
      · exact nomatch heq
  · rintro (⟨hsplit, hbefore, hr⟩ | ⟨hregions, hsplit, hbefore, hr⟩)
    · exact .inl ⟨_, _, _, hsplit, hbefore, hr⟩
    · obtain ⟨ds, hds⟩ := exists_mapM_regions.2 hregions
      exact .inr ⟨ds, hds, .inl ⟨_, _, _, hsplit, hbefore, hr, rfl⟩⟩

/-- **A bad definition does not disturb the others**, whatever compiles the patterns.  As long as
    there are not too many, the lexicon of a grammar defines exactly the rules that are in use, in
    their order and as they say; it is the lexicon of the grammar without the other rules, so that
    every search comes to the same.  A check of the grammar passes exactly when every pattern can
    be read, and otherwise reports the first one that cannot. -/
theorem bad_rules_leave_no_trace (compile : String → Option Matcher) (g : Grammar)
    (hfew : (g.usable compile).regions.length ≤ Lexicon.regionLimit) :
    List.Forall₂ (RegionRule.Defines compile) (g.usable compile).regions
      (Lexicon.ofGrammarBy compile g).regions ∧
    List.Forall₂ (TokenRule.Defines compile) (g.usable compile).tokens
      (Lexicon.ofGrammarBy compile g).tokens ∧
    Lexicon.ofGrammarBy compile (g.usable compile) = Lexicon.ofGrammarBy compile g ∧
    (∀ (text : Array Char) (p : Nat),
      (Lexicon.ofGrammarBy compile (g.usable compile)).findStart text p =
        (Lexicon.ofGrammarBy compile g).findStart text p ∧
      (∀ tag, (Lexicon.ofGrammarBy compile (g.usable compile)).findStop text tag p =
        (Lexicon.ofGrammarBy compile g).findStop text tag p) ∧
      Highlighter.tokens text (Lexicon.ofGrammarBy compile (g.usable compile)).tokens p =
        Highlighter.tokens text (Lexicon.ofGrammarBy compile g).tokens p) ∧
    (g.validateBy compile = .ok () ↔
      (∀ r ∈ g.regions, r.Reads compile) ∧ ∀ r ∈ g.tokens, r.Reads compile) ∧
    ∀ e, g.validateBy compile = .error e ↔ g.FirstFault compile e := by
  have hsame : Lexicon.ofGrammarBy compile (g.usable compile) = Lexicon.ofGrammarBy compile g :=
    ofGrammarBy_usable g
  refine ⟨?_, Lexicon.forall₂_usableTokens g.tokens, hsame, ?_, validateBy_eq_ok_iff,
    fun e => validateBy_eq_error_iff⟩
  · rw [regions_ofGrammarBy hfew]
    exact Lexicon.forall₂_usableRegions g.regions
  · intro text p
    rw [hsame]
    exact ⟨rfl, fun tag => rfl, rfl⟩

/-- A rule that can be used between two that cannot: the one opens on the empty text, and the
    closing pattern of the other is not well formed, as that of one token is not. -/
def motley : Grammar :=
  { name := "motley"
    regions := [⟨"optional", "x?", "y", "comment"⟩, ⟨"list", "\\(", "\\)", "list"⟩,
      ⟨"half", "\\(", "[", "comment"⟩]
    tokens := [⟨"bad", "[", "number"⟩, ⟨"open", "\\(", "operator"⟩] }

theorem usable_motley :
    (motley.usable Regex.compile?).regions = [⟨"list", "\\(", "\\)", "list"⟩] := by
  have hoptional : ¬(RegionRule.mk "optional" "x?" "y" "comment").Usable Regex.compile? := by
    have hstart : Regex.compile? "x?" = some (Regex.optional ⟨[(120, 120)]⟩).matcher :=
      Regex.compile?_of_ofString? (by decide +kernel)
    rintro ⟨-, hopens⟩
    have hnone := (Regex.lawful_matcher _).missed (hopens _ hstart) 0 (Nat.le_refl 0)
    rw [Regex.endAt?_optional _ (Nat.zero_le _)] at hnone
    exact absurd hnone (Option.some_ne_none _)
  have hlist : (RegionRule.mk "list" "\\(" "\\)" "list").Usable Regex.compile? :=
    (Lexicon.usable_iff _).2 (Option.isSome_of_mem (Lexicon.define?_eq_some_iff.2
      ⟨RegionRule.readBy_eq_ok_iff.1 read_list, Regex.find?_nothing rfl⟩))
  have hhalf : ¬(RegionRule.mk "half" "\\(" "[" "comment").Usable Regex.compile? := by
    have hstop : Regex.compile? "[" = none := by
      rw [Regex.compile?, Option.map_eq_none_iff]
      decide +kernel
    rintro ⟨⟨-, hreads⟩, -⟩
    rw [hstop] at hreads
    cases hreads
  simp [usable, motley, hoptional, hlist, hhalf]

/-- The rule in use is the only one defined, and the first bad pattern is reported. -/
theorem bad_rules_leave_no_trace_motley :
    (motley.usable Regex.compile?).regions.length ≤ Lexicon.regionLimit ∧
    List.Forall₂ (RegionRule.Defines Regex.compile?) [⟨"list", "\\(", "\\)", "list"⟩]
      (Lexicon.ofGrammar motley).regions ∧
    Lexicon.ofGrammar (motley.usable Regex.compile?) = Lexicon.ofGrammar motley ∧
    motley.validate = .error (.pattern "half" .stop) := by
  have hfew : (motley.usable Regex.compile?).regions.length ≤ Lexicon.regionLimit := by
    rw [usable_motley]
    decide
  obtain ⟨hregions, -, hsame, -, -, hfault⟩ := bad_rules_leave_no_trace Regex.compile? motley hfew
  have hsplit : motley.regions =
      motley.regions.take 2 ++ ⟨"half", "\\(", "[", "comment"⟩ :: [] := rfl
  refine ⟨hfew, usable_motley ▸ hregions, hsame, (hfault _).2 (.region hsplit ?_ (.stop ?_ ?_))⟩
  · simp only [motley, List.take, List.forall_mem_cons, RegionRule.Reads, Regex.compile?,
      Option.isSome_map]
    decide +kernel
  · rw [Regex.compile?, Option.isSome_map]
    decide +kernel
  · rw [Regex.compile?, Option.map_eq_none_iff]
    decide +kernel

end Grammar

end Reading

end Highlighter
