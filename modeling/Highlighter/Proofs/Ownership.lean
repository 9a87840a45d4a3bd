import Highlighter.Catalog

/-! # Ownership — the language that a file extension belongs to

    A catalog is the outcome of the grammars added to it, one after the other, and an
    extension may change hands with each of them.  An addition takes what its grammar lists,
    gives up what its language had and no longer lists, and leaves the rest alone
    (`mem_owners_add`).  So the history alone tells the owner: the language of the last
    grammar that lists the extension, unless a later one of that language leaves it out
    (`BelongsTo`, `mem_owners_addAll`).

    The two lists of a catalog agree all the while: an extension has one owner, and the
    grammar now known by the owner's name lists it (`Kept`). -/

namespace Highlighter

/-- The grammar lists an extension, given in lower case. -/
def Grammar.Lists (g : Grammar) (ext : String) : Prop := ext ∈ g.extensions.map Chars.lowercase

instance (g : Grammar) (ext : String) : Decidable (g.Lists ext) :=
  inferInstanceAs (Decidable (_ ∈ _))

namespace Catalog

variable {c : Catalog} {g : Grammar} {gs : List Grammar} {ext name : String}

/-- A catalog after some more additions. -/
def addAll (c : Catalog) (gs : List Grammar) : Catalog := gs.foldl add c

theorem addAll_cons : c.addAll (g :: gs) = (c.add g).addAll gs := rfl

/-- The built-in grammars are additions like any other. -/
theorem standard_addAll (gs : List Grammar) :
    standard.addAll gs = empty.addAll (Builtin.grammars ++ gs) :=
  List.foldl_append.symm

/-- In this history of additions the extension has come to belong to the language: the last
    grammar that lists it is of this language, and no later one of the language leaves it out. -/
def BelongsTo (gs : List Grammar) (ext name : String) : Prop :=
  ∃ before g after, gs = before ++ g :: after ∧ g.Lists ext ∧ g.name = name ∧
    (∀ g' ∈ after, ¬g'.Lists ext) ∧ ¬∃ g' ∈ after, g'.name = name ∧ ¬g'.Lists ext

/-- Some additions leave an extension with the language it belongs to. -/
def Spares (gs : List Grammar) (ext name : String) : Prop :=
  ∀ g ∈ gs, ¬g.Lists ext ∧ g.name ≠ name

/-- A language is spared when the next addition spares it and so do the others. -/
theorem spares_cons :
    Spares (g :: gs) ext name ↔ (¬g.Lists ext ∧ g.name ≠ name) ∧ Spares gs ext name :=
  List.forall_mem_cons

/-- Once nothing lists the extension any more, a grammar of the language leaves it out. -/
theorem spares_iff : Spares gs ext name ↔
    (∀ g ∈ gs, ¬g.Lists ext) ∧ ¬∃ g ∈ gs, g.name = name ∧ ¬g.Lists ext := by
  constructor
  · intro h
    refine ⟨fun g hg => (h g hg).1, ?_⟩
    rintro ⟨g, hg, hname, -⟩
    exact (h g hg).2 hname
  · rintro ⟨hlists, hleft⟩ g hg
    exact ⟨hlists g hg, fun hname => hleft ⟨g, hg, hname, hlists g hg⟩⟩

theorem not_belongsTo_nil : ¬BelongsTo [] ext name := by
  rintro ⟨before, g, after, heq, -⟩
  exact List.append_ne_nil_of_right_ne_nil before (List.cons_ne_nil g after) heq.symm

/-- An addition counts when it is the last one to list the extension. -/
theorem belongsTo_cons : BelongsTo (g :: gs) ext name ↔
    BelongsTo gs ext name ∨ (g.Lists ext ∧ g.name = name) ∧ Spares gs ext name := by
  constructor
  · rintro ⟨before, g', after, heq, hlists, hname, hafter⟩
    cases before with
    | nil =>
        obtain ⟨rfl, rfl⟩ := List.cons.inj heq
        exact .inr ⟨⟨hlists, hname⟩, spares_iff.2 hafter⟩
    | cons first before =>
        obtain ⟨-, heq⟩ := List.cons.inj heq
        exact .inl ⟨before, g', after, heq, hlists, hname, hafter⟩
  · rintro (⟨before, g', after, rfl, h⟩ | ⟨⟨hlists, hname⟩, hspares⟩)
    · exact ⟨g :: before, g', after, rfl, h⟩
    · exact ⟨[], g, gs, rfl, hlists, hname, spares_iff.1 hspares⟩

/-! ## One addition -/

/-- Entries of other keys do not matter to a look-up. -/
theorem lookup_filter_ne {α : Type} {l : List (String × α)} {key key' : String} (h : key ≠ key') :
    (l.filter fun entry => entry.1 != key').lookup key = l.lookup key := by
  induction l with
  | nil => rfl
  | cons entry l ih =>
      by_cases hentry : entry.1 = key'
      · have hother : (key == entry.1) = false := beq_false_of_ne (hentry ▸ h)
        rw [List.filter_cons_of_neg (by simpa using hentry), ih, List.lookup_cons, hother]
      · rw [List.filter_cons_of_pos (by simpa using hentry), List.lookup_cons, List.lookup_cons, ih]

/-- A grant gives the extension to the language and takes it from any other. -/
theorem mem_grant {owners : List (String × String)} {new : String} :
    (ext, name) ∈ grant g.name owners new ↔
      if ext = Chars.lowercase new then name = g.name else (ext, name) ∈ owners := by
  rw [grant, List.mem_cons, Prod.mk.injEq, List.mem_filter, bne_iff_ne]
  by_cases heq : ext = Chars.lowercase new
  · simp [heq]
  · simp [heq]

/-- Grants give all extensions of a grammar to its language. -/
theorem mem_foldl_grant {owners : List (String × String)} {exts : List String} :
    (ext, name) ∈ exts.foldl (grant g.name) owners ↔
      if ext ∈ exts.map Chars.lowercase then name = g.name else (ext, name) ∈ owners := by
  induction exts generalizing owners with
  | nil => simp
  | cons new exts ih =>
      rw [List.foldl_cons, ih, mem_grant, List.map_cons]
      by_cases hrest : ext ∈ exts.map Chars.lowercase
      · simp [hrest]
      · by_cases heq : ext = Chars.lowercase new
        · simp [heq]
        · simp [hrest, heq]

/-- An addition replaces the grammar of its own language only. -/
theorem get?_add : (c.add g).get? name = if name = g.name then some g else c.get? name := by
  show List.lookup name ((g.name, g) :: c.grammars.filter fun entry => entry.1 != g.name) = _
  rw [List.lookup_cons]
  by_cases heq : name = g.name
  · simp [heq]
  · rw [if_neg heq, beq_false_of_ne heq]
    exact lookup_filter_ne heq

/-- What a catalog keeps to: an extension has one owner, and the grammar known by the owner's
    name lists it. -/
structure Kept (c : Catalog) : Prop where
  single : ∀ {ext name name'}, (ext, name) ∈ c.owners → (ext, name') ∈ c.owners → name = name'
  listed : ∀ {ext name}, (ext, name) ∈ c.owners → ∃ g, c.get? name = some g ∧ g.Lists ext

/-- A catalog that is empty has nothing to keep to. -/
theorem kept_empty : Kept empty :=
  ⟨fun h => absurd h List.not_mem_nil, fun h => absurd h List.not_mem_nil⟩

/-- Before an addition its language gives up all that it owns. -/
theorem Kept.mem_released (h : c.Kept) :
    ((ext, name) ∈ if (c.grammars.lookup g.name).isSome then
        c.owners.filter fun entry => entry.2 != g.name
      else c.owners) ↔ (ext, name) ∈ c.owners ∧ name ≠ g.name := by
  by_cases hknown : (c.grammars.lookup g.name).isSome = true
  · rw [if_pos hknown, List.mem_filter, bne_iff_ne]
  · -- a language that is not known owns nothing
    rw [if_neg hknown]
    refine ⟨fun hmem => ⟨hmem, ?_⟩, And.left⟩
    rintro rfl
    obtain ⟨g', hget, -⟩ := h.listed hmem
    exact hknown (Option.isSome_of_mem hget)

/-- **One addition** takes what its grammar lists, gives up what its language no longer lists, and
    leaves the rest alone. -/
theorem Kept.mem_owners_add (h : c.Kept) : (ext, name) ∈ (c.add g).owners ↔
    if g.Lists ext then name = g.name else (ext, name) ∈ c.owners ∧ name ≠ g.name := by
  show (ext, name) ∈ g.extensions.foldl (grant g.name)
    (if (c.grammars.lookup g.name).isSome then c.owners.filter fun entry => entry.2 != g.name
      else c.owners) ↔ _
  rw [mem_foldl_grant]
  by_cases hlists : g.Lists ext
  · rw [if_pos hlists]
    exact if_pos hlists ▸ Iff.rfl
  · rw [if_neg hlists, ← h.mem_released]
    exact if_neg hlists ▸ Iff.rfl

/-- An addition keeps a catalog in order. -/
theorem Kept.add (h : c.Kept) (g : Grammar) : (c.add g).Kept := by
  constructor
  · intro ext name name' hmem hmem'
    rw [h.mem_owners_add] at hmem hmem'
    by_cases hlists : g.Lists ext
    · rw [if_pos hlists] at hmem hmem'
      exact hmem.trans hmem'.symm
    · rw [if_neg hlists] at hmem hmem'
      exact h.single hmem.1 hmem'.1
  · intro ext name hmem
    rw [h.mem_owners_add] at hmem
    rw [get?_add]
    by_cases hlists : g.Lists ext
    · rw [if_pos hlists] at hmem
      exact ⟨g, if_pos hmem, hlists⟩
    · rw [if_neg hlists] at hmem
      rw [if_neg hmem.2]
      exact h.listed hmem.1

/-! ## Any number of additions -/

/-- Additions keep a catalog in order. -/
theorem Kept.addAll (h : c.Kept) (gs : List Grammar) : (c.addAll gs).Kept := by
  induction gs generalizing c with
  | nil => exact h
  | cons g gs ih => exact ih (h.add g)

/-- **The history tells the owner**: an extension belongs to a language by the additions, or did
    before and they spare it. -/
theorem Kept.mem_owners_addAll (h : c.Kept) : (ext, name) ∈ (c.addAll gs).owners ↔
    BelongsTo gs ext name ∨ (ext, name) ∈ c.owners ∧ Spares gs ext name := by
  induction gs generalizing c with
  | nil =>
      have hspares : Spares [] ext name := fun g hg => absurd hg List.not_mem_nil
      rw [or_iff_right not_belongsTo_nil, and_iff_left hspares]
      rfl
  | cons g gs ih =>
      rw [addAll_cons, ih (h.add g), h.mem_owners_add, belongsTo_cons, spares_cons, or_assoc]
      refine or_congr_right ?_
      by_cases hlists : g.Lists ext
      · simp [hlists, eq_comm]
      · simp [hlists, ne_comm, and_assoc]

/-! ## Detection -/

/-- A look-up finds a pair that is there, as long as there is one for the key. -/
theorem lookup_eq_some_iff_mem {l : List (String × String)}
    (hsingle : ∀ {name'}, (ext, name) ∈ l → (ext, name') ∈ l → name = name') :
    l.lookup ext = some name ↔ (ext, name) ∈ l := by
  induction l with
  | nil => simp
  | cons entry l ih =>
      obtain ⟨key, value⟩ := entry
      have ih := ih fun h h' => hsingle (List.mem_cons_of_mem _ h) (List.mem_cons_of_mem _ h')
      rw [List.lookup_cons, List.mem_cons, Prod.mk.injEq]
      by_cases heq : ext = key
      · subst heq
        simp only [beq_self_eq_true, Option.some.injEq, true_and]
        constructor
        · exact fun h => .inl h.symm
        · rintro (rfl | hmem)
          · rfl
          · exact (hsingle (List.mem_cons_of_mem _ hmem) List.mem_cons_self).symm
      · rw [beq_false_of_ne heq, or_iff_right fun h => heq h.1]
        exact ih

/-- A path is of the language that owns its extension. -/
theorem Kept.detect?_eq_some_iff (h : c.Kept) {path : String}
    (hext : Path.extension? path = some ext) :
    c.detect? path = some name ↔ (Chars.lowercase ext, name) ∈ c.owners := by
  rw [detect?, hext]
  exact lookup_eq_some_iff_mem h.single

/-- **Detection follows the grammars that were added**, the built-in ones counted first when the
    catalog began with them.  A path is of a language when its extension, in lower case, has come
    to belong to it.  A language detected is known, and its grammar lists the extension.  A further
    grammar is told by what it lists and by nothing else, whatever its language had before; from
    the other languages it takes what it lists, and nothing else. -/
theorem detect?_history (gs : List Grammar) {path ext : String}
    (hext : Path.extension? path = some ext) :
    standard.addAll gs = empty.addAll (Builtin.grammars ++ gs) ∧
    (∀ name, (empty.addAll gs).detect? path = some name ↔ BelongsTo gs (Chars.lowercase ext) name) ∧
    (∀ name, (empty.addAll gs).detect? path = some name →
      ∃ g, (empty.addAll gs).get? name = some g ∧ g.Lists (Chars.lowercase ext)) ∧
    ∀ g, (((empty.addAll gs).add g).detect? path = some g.name ↔ g.Lists (Chars.lowercase ext)) ∧
      ∀ name ≠ g.name, ((empty.addAll gs).add g).detect? path = some name ↔
        (empty.addAll gs).detect? path = some name ∧ ¬g.Lists (Chars.lowercase ext) := by
  have hkept : (empty.addAll gs).Kept := kept_empty.addAll gs
  refine ⟨standard_addAll gs, ?_, ?_, ?_⟩
  · intro name
    rw [hkept.detect?_eq_some_iff hext, kept_empty.mem_owners_addAll]
    exact or_iff_left fun h => absurd h.1 List.not_mem_nil
  · intro name hdetect
    exact hkept.listed ((hkept.detect?_eq_some_iff hext).1 hdetect)
  · intro g
    have hadd : ∀ name, ((empty.addAll gs).add g).detect? path = some name ↔
        (Chars.lowercase ext, name) ∈ ((empty.addAll gs).add g).owners :=
      fun _ => (hkept.add g).detect?_eq_some_iff hext
    refine ⟨?_, ?_⟩
    · rw [hadd, hkept.mem_owners_add]
      by_cases hlists : g.Lists (Chars.lowercase ext) <;> simp [hlists]
    · intro name hother
      rw [hadd, hkept.mem_owners_add, hkept.detect?_eq_some_iff hext]
      by_cases hlists : g.Lists (Chars.lowercase ext) <;> simp [hlists, hother]

end Catalog

/-! ## An extension that changes hands -/

namespace Grammar

/-- A grammar with no rules. -/
def plain (name : String) (extensions : List String) : Grammar := { name, extensions }

/-- A second language takes over the extension of the first, which then gives up the other one. -/
def handover : List Grammar := [plain "A" ["x", "y"], plain "B" ["X"], plain "A" ["z"]]

end Grammar

namespace Catalog

theorem detect?_history_handover : Path.extension? "lib/main.x" = some "x" ∧
    (empty.addAll Grammar.handover).detect? "lib/main.x" = some "B" ∧
    ∃ g, (empty.addAll Grammar.handover).get? "B" = some g ∧ g.Lists (Chars.lowercase "x") := by
  have hext : Path.extension? "lib/main.x" = some "x" := by decide
  obtain ⟨-, howner, hlisted, -⟩ := detect?_history Grammar.handover hext
  have hbelongs : BelongsTo Grammar.handover (Chars.lowercase "x") "B" := by
    refine ⟨[.plain "A" ["x", "y"]], .plain "B" ["X"], [.plain "A" ["z"]], rfl, ?_, rfl, ?_, ?_⟩
    · decide +kernel
    · decide +kernel
    · decide +kernel
  exact ⟨hext, (howner "B").2 hbelongs, hlisted "B" ((howner "B").2 hbelongs)⟩

end Catalog

end Highlighter
