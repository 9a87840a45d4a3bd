import Highlighter.Proofs.Display
import Mathlib.Data.List.Forall2

/-! # Line cuts — what is printed of a line that is too wide

    What a terminal is sent to print (`printedText`) is, line by line, what fits of the lines
    of the text (`splitOn_kept`).  A cut would be the longest head of the line that fits
    (`LongestHead`).  What fits of a line begins with this head (`fitLine_eq`); but a char
    that does not fit is only passed over, and any behind it that takes fewer columns is
    printed again.  So lines are cut as long as no char behind a cut still fits
    (`Resumes`). -/

namespace Highlighter

/-! ## Printed text -/

/-- The chars that a command prints. -/
def Command.text : Command → List Char
  | .print run => run
  | _ => []

/-- The chars that commands print: what they send, less the styling. -/
def printedText (commands : List Command) : List Char := commands.flatMap Command.text

/-- A terminal shows what it is told to print, whatever its pen. -/
theorem Screen.chars_run (scr : Screen) (commands : List Command) :
    (scr.run commands).shown.map Prod.fst = scr.shown.map Prod.fst ++ printedText commands := by
  induction commands generalizing scr with
  | nil => exact (List.append_nil _).symm
  | cons command rest ih =>
      have hobey : (scr.obey command).shown.map Prod.fst =
          scr.shown.map Prod.fst ++ command.text := by
        cases command with
        | print run =>
            show (scr.shown ++ run.map (·, scr.pen)).map Prod.fst = _
            rw [List.map_append, List.map_map]
            exact congrArg _ (List.map_id run)
        | _ => exact (List.append_nil _).symm
      refine (ih (scr.obey command)).trans ?_
      rw [hobey, List.append_assoc]
      rfl

/-- What is printed are the chars that are kept, whatever the spans. -/
theorem printedText_printHighlighted (columns : Char → Nat) (scheme : Scheme) (text : List Char)
    (spans : List Span) (width : Option Nat) :
    printedText (printHighlighted columns scheme text spans width) =
      (kept columns width 0 text.zipIdx).map Prod.fst := by
  have hchars := Screen.chars_run {} (printHighlighted columns scheme text spans width)
  obtain ⟨-, hread⟩ := Printer.chars_readAll columns scheme width (p := { ahead := spans }) rfl 0 text
  rw [run_printHighlighted] at hchars
  exact hchars.symm.trans hread

/-! ## Lines -/

section Lines

variable (columns : Char → Nat)

/-- What fits of a line, from a column on. -/
def fitLine (width : Option Nat) : (column : Nat) → List Char → List Char
  | _, [] => []
  | column, c :: rest =>
    if width.any fun w => w < column + columns c then fitLine width column rest
    else c :: fitLine width (column + columns c) rest

/-- What fits of lines, of the first from a column on. -/
def fitLines (width : Option Nat) (column : Nat) : List (List Char) → List (List Char)
  | [] => []
  | line :: rest => fitLine columns width column line :: rest.map (fitLine columns width 0)

theorem fitLines_zero (width : Option Nat) (lines : List (List Char)) :
    fitLines columns width 0 lines = lines.map (fitLine columns width 0) := by
  cases lines with
  | nil => rfl
  | cons line rest => rfl

/-- **The lines of what fits** are what fits of the lines. -/
theorem splitOn_kept (width : Option Nat) (column : Nat) (chars : List (Char × Nat)) :
    ((kept columns width column chars).map Prod.fst).splitOn '\n' =
      fitLines columns width column ((chars.map Prod.fst).splitOn '\n') := by
  induction chars generalizing column with
  | nil => rfl
  | cons x rest ih =>
      obtain ⟨c, o⟩ := x
      rw [kept, List.map_cons, List.splitOn_cons_eq_if_modifyHead]
      by_cases hnewline : c = '\n'
      · rw [if_pos hnewline, if_pos (beq_iff_eq.2 hnewline), List.map_cons,
          List.splitOn_cons_eq_if_modifyHead, if_pos (beq_iff_eq.2 hnewline), ih,
          fitLines_zero]
        rfl
      · -- the char stands at the head of the first line
        obtain ⟨line, lines, hlines⟩ := List.exists_cons_of_ne_nil
          (List.splitOn_ne_nil '\n' (rest.map Prod.fst))
        have hchar : ¬(c == '\n') = true := fun h => hnewline (beq_iff_eq.1 h)
        rw [if_neg hnewline, if_neg hchar, hlines, List.modifyHead_cons, fitLines, fitLine]
        by_cases hover : (width.any fun w => w < column + columns c) = true
        · rw [if_pos hover, if_pos hover, ih, hlines, fitLines]
        · rw [if_neg hover, if_neg hover, List.map_cons, List.splitOn_cons_eq_if_modifyHead,
            if_neg hchar, ih, hlines, fitLines, List.modifyHead_cons]

theorem kept_none (column : Nat) (chars : List (Char × Nat)) :
    kept columns none column chars = chars := by
  induction chars generalizing column with
  | nil => rfl
  | cons x rest ih =>
      obtain ⟨c, o⟩ := x
      rw [kept, ih, Option.any_none, if_neg Bool.false_ne_true, ih, ite_self]

end Lines

/-! ## Cuts -/

/-- The columns that chars take. -/
def taken (columns : Char → Nat) : List Char → Nat
  | [] => 0
  | c :: rest => columns c + taken columns rest

/-- A line cut at `n` columns: its longest prefix that takes no more. -/
structure LongestHead (columns : Char → Nat) (n : Nat) (line head : List Char) : Prop where
  begins  : head <+: line
  fits    : taken columns head ≤ n
  longest : ∀ other, other <+: line → taken columns other ≤ n → other.length ≤ head.length

/-- A char behind the cut still fits into the columns that the cut leaves. -/
def Resumes (columns : Char → Nat) (n : Nat) (line : List Char) : Prop :=
  ∃ head, LongestHead columns n line head ∧
    ∃ c ∈ line.drop head.length, taken columns head + columns c ≤ n

section Cuts

variable {columns : Char → Nat} {n column : Nat} {c : Char} {line head other : List Char}

/-- A line has one longest head. -/
theorem LongestHead.unique (h : LongestHead columns n line head)
    (h' : LongestHead columns n line other) : head = other := by
  have hle := h'.longest head h.begins h.fits
  have hge := h.longest other h'.begins h'.fits
  exact (List.prefix_of_prefix_length_le h.begins h'.begins hle).eq_of_length
    (Nat.le_antisymm hle hge)

/-- The chars of a line up to the first that does not fit. -/
def cut (columns : Char → Nat) : (room : Nat) → List Char → List Char
  | _, [] => []
  | room, c :: rest => if columns c ≤ room then c :: cut columns (room - columns c) rest else []

/-- Up to the first char that does not fit is the longest prefix that fits. -/
theorem longestHead_cut (columns : Char → Nat) (n : Nat) (line : List Char) :
    LongestHead columns n line (cut columns n line) := by
  induction line generalizing n with
  | nil =>
      refine ⟨List.prefix_rfl, Nat.zero_le n, ?_⟩
      intro other hother _
      rw [List.prefix_nil.1 hother]
      exact Nat.le_refl _
  | cons c rest ih =>
      rw [cut]
      by_cases hfits : columns c ≤ n
      · rw [if_pos hfits]
        obtain ⟨hbegins, hwithin, hlongest⟩ := ih (n - columns c)
        refine ⟨(List.prefix_cons_inj c).2 hbegins, ?_, ?_⟩
        · rw [taken]
          omega
        · intro other hother hn
          cases other with
          | nil => exact Nat.zero_le _
          | cons c' other' =>
              obtain ⟨rfl, hother'⟩ := List.cons_prefix_cons.1 hother
              rw [taken] at hn
              exact Nat.succ_le_succ (hlongest other' hother' (by omega))
      · rw [if_neg hfits]
        refine ⟨List.nil_prefix, Nat.zero_le n, ?_⟩
        intro other hother hn
        cases other with
        | nil => exact Nat.le_refl _
        | cons c' other' =>
            obtain ⟨rfl, -⟩ := List.cons_prefix_cons.1 hother
            rw [taken] at hn
            omega

/-! ## What fits of a line -/

/-- What fits of a line are some of its chars, in their order. -/
theorem fitLine_sublist (columns : Char → Nat) (width : Option Nat) (column : Nat)
    (line : List Char) : (fitLine columns width column line).Sublist line := by
  induction line generalizing column with
  | nil => exact .slnil
  | cons c rest ih =>
      rw [fitLine]
      split
      · exact (ih column).cons c
      · exact (ih _).cons_cons c

/-- A char that does not fit is left out, and the columns are still there for the others. -/
theorem fitLine_cons_of_lt (h : n < column + columns c) (rest : List Char) :
    fitLine columns (some n) column (c :: rest) = fitLine columns (some n) column rest := by
  rw [fitLine, Option.any_some, if_pos (decide_eq_true h)]

/-- A char that fits takes its columns. -/
theorem fitLine_cons_of_le (h : column + columns c ≤ n) (rest : List Char) :
    fitLine columns (some n) column (c :: rest) =
      c :: fitLine columns (some n) (column + columns c) rest := by
  rw [fitLine, Option.any_some, if_neg fun hlt => Nat.not_lt.2 h (of_decide_eq_true hlt)]

/-- What fits takes no more columns than there are. -/
theorem taken_fitLine_le (columns : Char → Nat) (h : column ≤ n) (line : List Char) :
    column + taken columns (fitLine columns (some n) column line) ≤ n := by
  induction line generalizing column with
  | nil => exact h
  | cons c rest ih =>
      rcases Nat.lt_or_ge n (column + columns c) with hover | hfits
      · rw [fitLine_cons_of_lt hover]
        exact ih h
      · rw [fitLine_cons_of_le hfits, taken, ← Nat.add_assoc]
        exact ih hfits

/-- Nothing fits when no char does. -/
theorem fitLine_eq_nil_iff : fitLine columns (some n) column line = [] ↔
    ∀ c ∈ line, n < column + columns c := by
  induction line with
  | nil => exact ⟨fun _ => nofun, fun _ => rfl⟩
  | cons c rest ih =>
      rw [List.forall_mem_cons]
      rcases Nat.lt_or_ge n (column + columns c) with hover | hfits
      · rw [fitLine_cons_of_lt hover, ih]
        exact ⟨fun h => ⟨hover, h⟩, fun h => h.2⟩
      · rw [fitLine_cons_of_le hfits]
        exact ⟨nofun, fun h => absurd h.1 (Nat.not_lt.2 hfits)⟩

/-- What fits of a line is its cut, and what still fits of the rest. -/
theorem fitLine_eq (columns : Char → Nat) (h : column ≤ n) (line : List Char) :
    fitLine columns (some n) column line =
      cut columns (n - column) line ++
        fitLine columns (some n) (column + taken columns (cut columns (n - column) line))
          (line.drop (cut columns (n - column) line).length) := by
  induction line generalizing column with
  | nil => rfl
  | cons c rest ih =>
      -- the two part ways at the first char that does not fit, where the cut ends
      by_cases hfits : columns c ≤ n - column
      · have hwithin : column + columns c ≤ n := by omega
        have hcut : cut columns (n - column) (c :: rest) =
            c :: cut columns (n - (column + columns c)) rest := by
          rw [cut, if_pos hfits, Nat.sub_sub]
        rw [hcut, fitLine_cons_of_le hwithin, ih hwithin, taken, Nat.add_assoc]
        rfl
      · have hcut : cut columns (n - column) (c :: rest) = [] := by
          rw [cut, if_neg hfits]
        rw [hcut]
        rfl

/-- **What fits of a line is its cut** exactly when no char behind the cut still fits. -/
theorem longestHead_fitLine_iff :
    LongestHead columns n line (fitLine columns (some n) 0 line) ↔
      ¬Resumes columns n line := by
  have hcut := longestHead_cut columns n line
  have hfit := fitLine_eq columns (Nat.zero_le n) line
  rw [Nat.sub_zero, Nat.zero_add] at hfit
  constructor
  · rintro h ⟨head, hhead, c, hc, hle⟩
    obtain rfl := hhead.unique hcut
    rw [h.unique hcut] at hfit
    have hnil := List.append_cancel_left ((List.append_nil _).trans hfit)
    exact Nat.not_lt.2 hle (fitLine_eq_nil_iff.1 hnil.symm c hc)
  · intro h
    have hnil := fitLine_eq_nil_iff.2 fun c hc =>
      Nat.not_le.1 fun hle => h ⟨_, hcut, c, hc, hle⟩
    rw [hfit, hnil, List.append_nil]
    exact hcut

end Cuts

/-! ## Whole texts -/

/-- **Without a width a text is printed as it is; with one, its lines are cut** exactly when in none
    of them a char behind the cut still fits.  In any case newlines are kept, and of each line
    is printed its cut, and of the rest such chars as leave it within the width. -/
theorem printedText_cut_iff (columns : Char → Nat) (scheme : Scheme) (text : List Char)
    (spans : List Span) :
    printedText (printHighlighted columns scheme text spans none) = text ∧
    ∀ n, List.Forall₂
        (fun line shown => shown.Sublist line ∧ taken columns shown ≤ n ∧
          ∃ head, LongestHead columns n line head ∧ head <+: shown)
        (text.splitOn '\n')
        ((printedText (printHighlighted columns scheme text spans (some n))).splitOn '\n') ∧
      (List.Forall₂ (LongestHead columns n) (text.splitOn '\n')
          ((printedText (printHighlighted columns scheme text spans (some n))).splitOn '\n') ↔
        ∀ line ∈ text.splitOn '\n', ¬Resumes columns n line) := by
  have hchars : text.zipIdx.map Prod.fst = text := List.zipIdx_map_fst 0 text
  refine ⟨?_, ?_⟩
  · rw [printedText_printHighlighted, kept_none, hchars]
  · intro n
    rw [printedText_printHighlighted, splitOn_kept, fitLines_zero, hchars,
      List.forall₂_map_right_iff, List.forall₂_map_right_iff, List.forall₂_same,
      List.forall₂_same]
    refine ⟨fun line _ => ⟨fitLine_sublist columns _ 0 line, ?_, cut columns n line,
      longestHead_cut columns n line, ?_⟩, ?_⟩
    · have hle := taken_fitLine_le columns (Nat.zero_le n) line
      rwa [Nat.zero_add] at hle
    · rw [fitLine_eq columns (Nat.zero_le n)]
      exact List.prefix_append _ _
    · exact forall₂_congr fun line _ => longestHead_fitLine_iff

/-- A wide char that does not fit is passed over, and the narrow one behind it is printed. -/
example : printedText (printHighlighted (fun c => if c = '日' then 2 else 1) .empty
    ['a', '日', 'b'] [] (some 2)) = ['a', 'b'] := by
  decide

end Highlighter
