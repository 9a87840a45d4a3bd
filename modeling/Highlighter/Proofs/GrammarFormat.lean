import Highlighter.Grammar.File
import Highlighter.Proofs.Results

/-! # Grammar format — which tables are grammars, and of what

    A table is written for a grammar when its keys hold what the grammar has, in order and
    in full, whatever other keys there are (`Written`).  Loading answers exactly the grammar
    that a table is written for (`ofTable_eq_ok_iff`); each part of the format has a reader,
    and one lemma says what the reader accepts.  A table is written for some grammar exactly
    when the values under its keys are of the right kinds (`wellFormed_iff`), and a table
    that is not is refused for a fault in its format, not read in part (`isFault_ofTable`). -/

namespace Highlighter
namespace Grammar

open Toml

variable {t : Table} {key context : String} {α : Type}

/-! ## The format -/

/-- The key holds a string. -/
def HoldsString (t : Table) (key s : String) : Prop := t.get? key = some (.string s)

/-- The key holds an array whose items stand for the elements of a list, one each; where the key
    is absent the list is empty. -/
inductive HoldsList (t : Table) (key : String) (Stands : Value → α → Prop) : List α → Prop
  | absent (hkey : t.get? key = none) : HoldsList t key Stands []
  | present {items : List Value} {xs : List α} (hkey : t.get? key = some (.array items))
      (hitems : List.Forall₂ Stands items xs) : HoldsList t key Stands xs

/-- The key holds the escape char as a string, an empty one when there is none; it may be absent
    then. -/
inductive HoldsEscape (t : Table) : Option Char → Prop
  | absent (hkey : t.get? "escape" = none) : HoldsEscape t none
  | present {s : String} {c : Option Char} (hkey : HoldsString t "escape" s)
      (hchars : s.toList = c.toList) : HoldsEscape t c

/-- The entries of a table say what a region rule says. -/
structure SaysRegion (entries : Table) (r : RegionRule) : Prop where
  id    : HoldsString entries "id" r.id
  start : HoldsString entries "start" r.start
  stop  : HoldsString entries "end" r.stop
  style : HoldsString entries "style" r.style

/-- The entries of a table say what a token rule says. -/
structure SaysToken (entries : Table) (r : TokenRule) : Prop where
  id      : HoldsString entries "id" r.id
  pattern : HoldsString entries "match" r.pattern
  style   : HoldsString entries "style" r.style

/-- The value is a table whose entries say it. -/
def InTable (Says : Table → α → Prop) (v : Value) (x : α) : Prop :=
  ∃ entries, v = .table entries ∧ Says entries x

/-- **The table is written for the grammar.** -/
structure Written (t : Table) (g : Grammar) : Prop where
  name       : HoldsString t "name" g.name
  extensions : HoldsList t "extensions" (fun v s => v = .string s) g.extensions
  escape     : HoldsEscape t g.escape
  regions    : HoldsList t "syntax" (InTable SaysRegion) g.regions
  tokens     : HoldsList t "pattern" (InTable SaysToken) g.tokens

/-! ## The kinds of values -/

/-- The key is absent, or holds an array of such values. -/
def ArrayOf (t : Table) (key : String) (p : Value → Prop) : Prop :=
  t.get? key = none ∨ ∃ items, t.get? key = some (.array items) ∧ ∀ item ∈ items, p item

/-- The value is a table with a string under each of the keys. -/
def TableWith (keys : List String) (v : Value) : Prop :=
  ∃ entries, v = .table entries ∧ ∀ key ∈ keys, ∃ s, HoldsString entries key s

/-- **The table has values of the right kinds** under the keys of a grammar. -/
structure WellFormed (t : Table) : Prop where
  name       : ∃ s, HoldsString t "name" s
  extensions : ArrayOf t "extensions" fun v => ∃ s, v = .string s
  escape     : t.get? "escape" = none ∨ ∃ s, HoldsString t "escape" s ∧ s.length ≤ 1
  regions    : ArrayOf t "syntax" (TableWith ["id", "start", "end", "style"])
  tokens     : ArrayOf t "pattern" (TableWith ["id", "match", "style"])

/-- A key holds a list of readable items when it holds an array of them, or is absent. -/
theorem exists_holdsList_iff {Stands : Value → α → Prop} :
    (∃ xs, HoldsList t key Stands xs) ↔ ArrayOf t key fun v => ∃ x, Stands v x := by
  constructor
  · rintro ⟨xs, hkey | ⟨hkey, hitems⟩⟩
    · exact .inl hkey
    · exact .inr ⟨_, hkey, exists_forall₂_iff.1 ⟨xs, hitems⟩⟩
  · rintro (hkey | ⟨items, hkey, hitems⟩)
    · exact ⟨[], .absent hkey⟩
    · obtain ⟨xs, hxs⟩ := exists_forall₂_iff.2 hitems
      exact ⟨xs, .present hkey hxs⟩

/-- A table holds an escape when it has none, or a text of one char at most. -/
theorem exists_holdsEscape_iff : (∃ c, HoldsEscape t c) ↔
    t.get? "escape" = none ∨ ∃ s, HoldsString t "escape" s ∧ s.length ≤ 1 := by
  constructor
  · rintro ⟨c, hkey | ⟨hkey, hchars⟩⟩
    · exact .inl hkey
    · refine .inr ⟨_, hkey, ?_⟩
      rw [← String.length_toList, hchars]
      cases c <;> simp
  · rintro (hkey | ⟨s, hkey, hlength⟩)
    · exact ⟨none, .absent hkey⟩
    · rw [← String.length_toList] at hlength
      match hchars : s.toList with
      | [] => exact ⟨none, .present hkey hchars⟩
      | [c] => exact ⟨some c, .present hkey hchars⟩
      | c :: c' :: rest =>
          rw [hchars] at hlength
          exact absurd hlength (by simp)

/-- A value says a region rule when it is a table with the four texts. -/
theorem exists_saysRegion_iff {v : Value} :
    (∃ r, InTable SaysRegion v r) ↔ TableWith ["id", "start", "end", "style"] v := by
  constructor
  · rintro ⟨r, entries, rfl, hr⟩
    refine ⟨entries, rfl, ?_⟩
    simp only [List.forall_mem_cons]
    exact ⟨⟨_, hr.id⟩, ⟨_, hr.start⟩, ⟨_, hr.stop⟩, ⟨_, hr.style⟩, nofun⟩
  · rintro ⟨entries, rfl, hkeys⟩
    simp only [List.forall_mem_cons] at hkeys
    obtain ⟨⟨id, hid⟩, ⟨start, hstart⟩, ⟨stop, hstop⟩, ⟨style, hstyle⟩, -⟩ := hkeys
    exact ⟨⟨id, start, stop, style⟩, entries, rfl, hid, hstart, hstop, hstyle⟩

/-- A value says a token rule when it is a table with the three texts. -/
theorem exists_saysToken_iff {v : Value} :
    (∃ r, InTable SaysToken v r) ↔ TableWith ["id", "match", "style"] v := by
  constructor
  · rintro ⟨r, entries, rfl, hr⟩
    refine ⟨entries, rfl, ?_⟩
    simp only [List.forall_mem_cons]
    exact ⟨⟨_, hr.id⟩, ⟨_, hr.pattern⟩, ⟨_, hr.style⟩, nofun⟩
  · rintro ⟨entries, rfl, hkeys⟩
    simp only [List.forall_mem_cons] at hkeys
    obtain ⟨⟨id, hid⟩, ⟨pattern, hpattern⟩, ⟨style, hstyle⟩, -⟩ := hkeys
    exact ⟨⟨id, pattern, style⟩, entries, rfl, hid, hpattern, hstyle⟩

/-- A table is written for some grammar exactly when its values are of the right kinds. -/
theorem wellFormed_iff : WellFormed t ↔ ∃ g, Written t g := by
  have hregions : (∃ rules, HoldsList t "syntax" (InTable SaysRegion) rules) ↔
      ArrayOf t "syntax" (TableWith ["id", "start", "end", "style"]) := by
    simp only [exists_holdsList_iff, exists_saysRegion_iff]
  have htokens : (∃ rules, HoldsList t "pattern" (InTable SaysToken) rules) ↔
      ArrayOf t "pattern" (TableWith ["id", "match", "style"]) := by
    simp only [exists_holdsList_iff, exists_saysToken_iff]
  constructor
  · intro h
    obtain ⟨name, hname⟩ := h.name
    obtain ⟨extensions, hexts⟩ := exists_holdsList_iff.2 h.extensions
    obtain ⟨escape, hescape⟩ := exists_holdsEscape_iff.2 h.escape
    obtain ⟨regions, hrules⟩ := hregions.2 h.regions
    obtain ⟨tokens, htoks⟩ := htokens.2 h.tokens
    exact ⟨⟨name, extensions, regions, tokens, escape⟩, hname, hexts, hescape, hrules, htoks⟩
  · rintro ⟨g, hg⟩
    exact ⟨⟨_, hg.name⟩, exists_holdsList_iff.1 ⟨_, hg.extensions⟩,
      exists_holdsEscape_iff.1 ⟨_, hg.escape⟩, hregions.1 ⟨_, hg.regions⟩, htokens.1 ⟨_, hg.tokens⟩⟩

/-! ## What each reader accepts -/

/-- A text that is required is read when the table holds it. -/
theorem requiredString_eq_ok_iff {s : String} :
    requiredString t key context = .ok s ↔ HoldsString t key s := by
  unfold requiredString HoldsString
  split <;> simp_all

/-- An escape is read when the table holds it. -/
theorem readEscape_eq_ok_iff {c : Option Char} : readEscape t = .ok c ↔ HoldsEscape t c := by
  unfold readEscape
  constructor
  · intro h
    split at h
    · obtain rfl := Except.ok.inj h
      exact .absent (by assumption)
    · rename_i s hkey
      split at h
      · obtain rfl := Except.ok.inj h
        exact .present hkey (by assumption)
      · obtain rfl := Except.ok.inj h
        exact .present hkey (by assumption)
      · exact nomatch h
    · exact nomatch h
  · rintro (hkey | ⟨hkey, hchars⟩)
    · rw [hkey]
    · rw [show t.get? "escape" = _ from hkey]
      cases c <;> simp [hchars]

/-- A list is read when the table holds all its items, in their order. -/
theorem readArray_eq_ok_iff {fault : GrammarFault} {item? : Value → Option α} {xs : List α} :
    readArray t key fault item? = .ok xs ↔ HoldsList t key (fun v x => item? v = some x) xs := by
  unfold readArray
  constructor
  · intro h
    split at h
    · obtain rfl := Except.ok.inj h
      exact .absent (by assumption)
    · rename_i items hkey
      refine .present hkey ((mapM_eq_ok_iff.1 h).imp ?_)
      intro v x hv
      cases hitem : item? v with
      | none =>
          rw [hitem] at hv
          cases hv
      | some y =>
          rw [hitem] at hv
          rw [Except.ok.inj hv]
    · cases h
  · rintro (hkey | ⟨hkey, hitems⟩)
    · rw [hkey]
    · rw [hkey]
      exact mapM_eq_ok_iff.2 (hitems.imp fun v x hv => by rw [hv])

theorem readExtensions_eq_ok_iff {exts : List String} :
    readExtensions t = .ok exts ↔ HoldsList t "extensions" (fun v s => v = .string s) exts := by
  have hstring : ∀ v s, Value.asString? v = some s ↔ v = .string s := by
    intro v s
    cases v <;> simp [Value.asString?]
  simp only [readExtensions, readArray_eq_ok_iff, hstring]

theorem readTables_eq_ok_iff {tables : List Table} :
    readTables t key = .ok tables ↔ HoldsList t key (fun v entries => v = .table entries) tables := by
  have htable : ∀ v entries, Value.asTable? v = some entries ↔ v = .table entries := by
    intro v entries
    cases v <;> simp [Value.asTable?]
  simp only [readTables, readArray_eq_ok_iff, htable]

/-- A region rule is read when the table says it. -/
theorem readRegion_eq_ok_iff {r : RegionRule} : readRegion t = .ok r ↔ SaysRegion t r := by
  simp only [readRegion, bind_eq_ok_iff, requiredString_eq_ok_iff]
  constructor
  · rintro ⟨id, hid, start, hstart, stop, hstop, style, hstyle, heq⟩
    obtain rfl := Except.ok.inj heq
    exact ⟨hid, hstart, hstop, hstyle⟩
  · rintro ⟨hid, hstart, hstop, hstyle⟩
    exact ⟨_, hid, _, hstart, _, hstop, _, hstyle, rfl⟩

/-- A token rule is read when the table says it. -/
theorem readToken_eq_ok_iff {r : TokenRule} : readToken t = .ok r ↔ SaysToken t r := by
  simp only [readToken, bind_eq_ok_iff, requiredString_eq_ok_iff]
  constructor
  · rintro ⟨id, hid, pattern, hpattern, style, hstyle, heq⟩
    obtain rfl := Except.ok.inj heq
    exact ⟨hid, hpattern, hstyle⟩
  · rintro ⟨hid, hpattern, hstyle⟩
    exact ⟨_, hid, _, hpattern, _, hstyle, rfl⟩

/-- Items of two kinds that follow each other one by one. -/
theorem forall₂_table_iff {Says : Table → α → Prop} {items : List Value} {xs : List α} :
    (∃ tables, List.Forall₂ (fun v entries => v = Value.table entries) items tables ∧
      List.Forall₂ Says tables xs) ↔ List.Forall₂ (InTable Says) items xs := by
  constructor
  · rintro ⟨tables, hitems, hsays⟩
    induction hitems generalizing xs with
    | nil =>
        rw [List.forall₂_nil_left_iff] at hsays
        exact hsays ▸ .nil
    | cons hitem _ ih =>
        obtain ⟨x, rest, hx, hrest, rfl⟩ := List.forall₂_cons_left_iff.1 hsays
        exact .cons ⟨_, hitem, hx⟩ (ih hrest)
  · intro hitems
    induction hitems with
    | nil => exact ⟨[], .nil, .nil⟩
    | cons hitem _ ih =>
        obtain ⟨entries, hentries, hx⟩ := hitem
        obtain ⟨tables, htables, hsays⟩ := ih
        exact ⟨entries :: tables, .cons hentries htables, .cons hx hsays⟩

/-- Tables are read first, and then what they say: as if each item were read by itself. -/
theorem readTables_mapM_iff {read : Table → Except Failure α} {Says : Table → α → Prop}
    (hread : ∀ {entries x}, read entries = .ok x ↔ Says entries x) {xs : List α} :
    (∃ tables, readTables t key = .ok tables ∧ tables.mapM read = .ok xs) ↔
      HoldsList t key (InTable Says) xs := by
  simp only [readTables_eq_ok_iff, mapM_eq_ok_iff, hread]
  constructor
  · rintro ⟨tables, hkey | ⟨hkey, hitems⟩, hsays⟩
    · rw [List.forall₂_nil_left_iff] at hsays
      exact hsays ▸ .absent hkey
    · exact .present hkey (forall₂_table_iff.1 ⟨tables, hitems, hsays⟩)
  · rintro (hkey | ⟨hkey, hitems⟩)
    · exact ⟨[], .absent hkey, .nil⟩
    · obtain ⟨tables, htables, hsays⟩ := forall₂_table_iff.2 hitems
      exact ⟨tables, .present hkey htables, hsays⟩

/-- **Loading answers the grammar that the table is written for.** -/
theorem ofTable_eq_ok_iff {g : Grammar} : ofTable t = .ok g ↔ Written t g := by
  simp only [ofTable, bind_eq_ok_iff, requiredString_eq_ok_iff, readExtensions_eq_ok_iff,
    readEscape_eq_ok_iff]
  constructor
  · rintro ⟨name, hname, exts, hexts, escape, hescape, tables, htables, rules, hrules, tables',
      htables', rules', hrules', heq⟩
    obtain rfl := Except.ok.inj heq
    exact ⟨hname, hexts, hescape, (readTables_mapM_iff readRegion_eq_ok_iff).1 ⟨tables, htables, hrules⟩,
      (readTables_mapM_iff readToken_eq_ok_iff).1 ⟨tables', htables', hrules'⟩⟩
  · rintro ⟨hname, hexts, hescape, hrules, hrules'⟩
    obtain ⟨tables, htables, hrules⟩ := (readTables_mapM_iff readRegion_eq_ok_iff).2 hrules
    obtain ⟨tables', htables', hrules'⟩ := (readTables_mapM_iff readToken_eq_ok_iff).2 hrules'
    exact ⟨_, hname, _, hexts, _, hescape, tables, htables, _, hrules, tables', htables', _, hrules',
      rfl⟩

/-! ## What is wrong with a table -/

/-- The failure is about the format of a grammar. -/
def IsFault (e : Failure) : Prop := ∃ fault, e = .grammar fault

variable {e : Failure}

/-- A text that is missing is a grammar fault. -/
theorem isFault_requiredString (h : requiredString t key context = .error e) : IsFault e := by
  unfold requiredString at h
  split at h
  · exact nomatch h
  · exact ⟨_, (Except.error.inj h).symm⟩
  · exact ⟨_, (Except.error.inj h).symm⟩

theorem isFault_readArray {fault : GrammarFault} {item? : Value → Option α}
    (h : readArray t key fault item? = .error e) : IsFault e := by
  unfold readArray at h
  split at h
  · exact nomatch h
  · obtain ⟨-, v, -, -, -, hv⟩ := mapM_eq_error_iff.1 h
    beta_reduce at hv
    split at hv
    · exact nomatch hv
    · exact ⟨fault, (Except.error.inj hv).symm⟩
  · exact ⟨fault, (Except.error.inj h).symm⟩

theorem isFault_readEscape (h : readEscape t = .error e) : IsFault e := by
  unfold readEscape at h
  split at h
  · exact nomatch h
  · split at h
    · exact nomatch h
    · exact nomatch h
    · exact ⟨_, (Except.error.inj h).symm⟩
  · exact ⟨_, (Except.error.inj h).symm⟩

theorem isFault_readRegion (h : readRegion t = .error e) : IsFault e := by
  simp only [readRegion, bind_eq_error_iff] at h
  rcases h with h | ⟨id, -, h | ⟨start, -, h | ⟨stop, -, h | ⟨style, -, h⟩⟩⟩⟩
  · exact isFault_requiredString h
  · exact isFault_requiredString h
  · exact isFault_requiredString h
  · exact isFault_requiredString h
  · exact nomatch h

theorem isFault_readToken (h : readToken t = .error e) : IsFault e := by
  simp only [readToken, bind_eq_error_iff] at h
  rcases h with h | ⟨id, -, h | ⟨pattern, -, h | ⟨style, -, h⟩⟩⟩
  · exact isFault_requiredString h
  · exact isFault_requiredString h
  · exact isFault_requiredString h
  · exact nomatch h

/-- A table that is not loaded is refused for a fault in its format. -/
theorem isFault_ofTable (h : ofTable t = .error e) : IsFault e := by
  simp only [ofTable, bind_eq_error_iff] at h
  rcases h with h | ⟨name, -, h | ⟨exts, -, h | ⟨escape, -, h | ⟨tables, -, h | ⟨rules, -, h |
    ⟨tables', -, h | ⟨rules', -, h⟩⟩⟩⟩⟩⟩⟩
  · exact isFault_requiredString h
  · exact isFault_readArray h
  · exact isFault_readEscape h
  · exact isFault_readArray h
  · obtain ⟨-, entries, -, -, -, hentries⟩ := mapM_eq_error_iff.1 h
    exact isFault_readRegion hentries
  · exact isFault_readArray h
  · obtain ⟨-, entries, -, -, -, hentries⟩ := mapM_eq_error_iff.1 h
    exact isFault_readToken hentries
  · exact nomatch h

/-! ## Writing -/

/-- The table of a region rule says it. -/
theorem saysRegion_regionTable (r : RegionRule) : SaysRegion (regionTable r) r :=
  ⟨rfl, rfl, rfl, rfl⟩

/-- The table of a token rule says it. -/
theorem saysToken_tokenTable (r : TokenRule) : SaysToken (tokenTable r) r := ⟨rfl, rfl, rfl⟩

/-- A list that is written item by item is held. -/
theorem holdsList_map {f : α → Value} {Stands : Value → α → Prop} (hstands : ∀ x, Stands (f x) x)
    {xs : List α} (hkey : t.get? key = some (.array (xs.map f))) : HoldsList t key Stands xs :=
  .present hkey (List.forall₂_map_left_iff.2 (List.forall₂_same.2 fun x _ => hstands x))

/-- The table that a grammar is written as is written for it. -/
theorem written_toTable (g : Grammar) : Written (toTable g) g where
  name := rfl
  extensions := holdsList_map (f := .string) (fun _ => rfl) rfl
  escape := .present rfl String.toList_ofList
  regions := holdsList_map (fun r => ⟨_, rfl, saysRegion_regionTable r⟩) rfl
  tokens := holdsList_map (fun r => ⟨_, rfl, saysToken_tokenTable r⟩) rfl

/-- **The loader accepts the format and loses nothing.**  A table is loaded exactly when the values
    under the keys of a grammar are of the right kinds, and what is loaded is the grammar that the
    table is written for, with all of its rules and extensions in order; any other table is refused
    for a fault in its format.  A file whose contents are a table is loaded as that table.  Every
    grammar comes back from the table it is written as, and from any other written for it. -/
theorem ofTable_iff_wellFormed (t : Table) :
    ((∃ g, ofTable t = .ok g) ↔ WellFormed t) ∧
    (∀ g, ofTable t = .ok g ↔ Written t g) ∧
    (¬WellFormed t ↔ ∃ fault, ofTable t = .error (.grammar fault)) ∧
    (∀ source, parse? source = some t → ofToml source = ofTable t) ∧
    ∀ g, Written (toTable g) g ∧ ofTable (toTable g) = .ok g := by
  have haccepts : (∃ g, ofTable t = .ok g) ↔ WellFormed t := by
    simp only [ofTable_eq_ok_iff, wellFormed_iff]
  refine ⟨haccepts, fun g => ofTable_eq_ok_iff, ?_, ?_, ?_⟩
  · rw [← haccepts]
    cases h : ofTable t with
    | ok g => simp
    | error e =>
        obtain ⟨fault, rfl⟩ := isFault_ofTable h
        simp
  · intro source hsource
    rw [ofToml, hsource]
  · intro g
    exact ⟨written_toTable g, ofTable_eq_ok_iff.2 (written_toTable g)⟩

end Grammar

end Highlighter
