import Highlighter.Proofs.StyleMap
import Highlighter.Terminal

/-! # Display — what a terminal shows of a text

    A terminal prints with a pen, which commands set and reset (`Screen`).  A run in a look
    puts the pen on, prints, and takes it off again (`Screen.run_runCommands`).  So what a
    printer has sent and the run it holds back, in the look of the span it is in, are all it
    has read (`Printer.shown`).  Coming to a char neither adds nor changes any of it
    (`Printer.arrive_spec`), and leaves the printer in the span around this char
    (`Printer.arrive_spans`); taking the char in shows it, in the look of that span
    (`Printer.take_spec`).

    Which chars are shown is a matter of columns alone (`kept`), and with which pen a matter
    of spans alone (`penAt`). -/

namespace Highlighter

/-! ## Pens -/

/-- How a terminal prints: in which colours, and with what switched on. -/
structure Pen where
  fg        : TermColor := .reset
  bg        : TermColor := .reset
  bold      : Bool := false
  italic    : Bool := false
  underline : Bool := false
  deriving DecidableEq, Repr

/-- The pen of a look. -/
def Style.pen (s : Style) : Pen :=
  ⟨s.fg.onTerminal, s.bg.onTerminal, s.bold, s.italic, s.underline⟩

/-- Each colour is one of its own on the terminal. -/
theorem Color.onTerminal_injective : Function.Injective Color.onTerminal := by
  intro c d h
  cases c <;> cases d <;> cases h <;> rfl

/-- Pens tell looks apart. -/
theorem Style.pen_injective : Function.Injective Style.pen := by
  rintro ⟨fg, bg, bold, italic, underline⟩ ⟨fg', bg', bold', italic', underline'⟩ h
  obtain ⟨hfg, hbg, hbold, hitalic, hunderline⟩ := Pen.mk.inj h
  rw [Style.mk.injEq]
  exact ⟨Color.onTerminal_injective hfg, Color.onTerminal_injective hbg, hbold, hitalic,
    hunderline⟩

/-! ## Terminals -/

/-- A terminal: the pen it prints with, and the chars shown so far, each with the pen that it was
    printed with. -/
structure Screen where
  pen   : Pen := {}
  shown : List (Char × Pen) := []
  deriving DecidableEq

namespace Screen

/-- A command sets the pen, resets some of it, or prints. -/
def obey (scr : Screen) : Command → Screen
  | .foreground c => { scr with pen := { scr.pen with fg := c } }
  | .background c => { scr with pen := { scr.pen with bg := c } }
  | .bold => { scr with pen := { scr.pen with bold := true } }
  | .italic => { scr with pen := { scr.pen with italic := true } }
  | .underline => { scr with pen := { scr.pen with underline := true } }
  | .print run => { scr with shown := scr.shown ++ run.map (·, scr.pen) }
  | .resetAttributes =>
    { scr with pen := { scr.pen with bold := false, italic := false, underline := false } }
  | .resetColors => { scr with pen := { scr.pen with fg := .reset, bg := .reset } }

/-- The terminal after some commands. -/
def run (scr : Screen) (commands : List Command) : Screen := commands.foldl obey scr

variable {scr : Screen}

/-- Commands are obeyed one after the other. -/
theorem run_append (scr : Screen) (commands more : List Command) :
    scr.run (commands ++ more) = (scr.run commands).run more := List.foldl_append

/-- A colour need not be set when it is the terminal's own. -/
theorem run_color (set : Pen → TermColor → Pen) (command : TermColor → Command)
    (hobey : ∀ c, scr.obey (command c) = { scr with pen := set scr.pen c })
    (hclear : set scr.pen .reset = scr.pen) (c : Color) :
    scr.run (if c = .default then [] else [command c.onTerminal]) =
      { scr with pen := set scr.pen c.onTerminal } := by
  by_cases hc : c = .default
  · rw [if_pos hc, hc, Color.onTerminal, hclear]
    rfl
  · rw [if_neg hc]
    exact hobey c.onTerminal

/-- What is off need not be switched off. -/
theorem run_attribute (set : Pen → Bool → Pen) (command : Command)
    (hobey : scr.obey command = { scr with pen := set scr.pen true })
    (hclear : set scr.pen false = scr.pen) (on : Bool) :
    scr.run (if on then [command] else []) = { scr with pen := set scr.pen on } := by
  cases on with
  | true => exact hobey
  | false =>
      rw [hclear]
      rfl

theorem run_foreground (h : scr.pen.fg = .reset) (c : Color) :
    scr.run (if c = .default then [] else [.foreground c.onTerminal]) =
      { scr with pen := { scr.pen with fg := c.onTerminal } } :=
  run_color (fun pen c => { pen with fg := c }) .foreground (fun _ => rfl) (by rw [← h]) c

theorem run_background (h : scr.pen.bg = .reset) (c : Color) :
    scr.run (if c = .default then [] else [.background c.onTerminal]) =
      { scr with pen := { scr.pen with bg := c.onTerminal } } :=
  run_color (fun pen c => { pen with bg := c }) .background (fun _ => rfl) (by rw [← h]) c

theorem run_bold (h : scr.pen.bold = false) (on : Bool) :
    scr.run (if on then [.bold] else []) = { scr with pen := { scr.pen with bold := on } } :=
  run_attribute (fun pen on => { pen with bold := on }) .bold rfl (by rw [← h]) on

theorem run_italic (h : scr.pen.italic = false) (on : Bool) :
    scr.run (if on then [.italic] else []) = { scr with pen := { scr.pen with italic := on } } :=
  run_attribute (fun pen on => { pen with italic := on }) .italic rfl (by rw [← h]) on

theorem run_underline (h : scr.pen.underline = false) (on : Bool) :
    scr.run (if on then [.underline] else []) =
      { scr with pen := { scr.pen with underline := on } } :=
  run_attribute (fun pen on => { pen with underline := on }) .underline rfl (by rw [← h]) on

/-- **A run in a look** is shown with the pen of the look, and the pen is as clear as before. -/
theorem run_runCommands (h : scr.pen = {}) (run : List Char) (look : Option Style) :
    scr.run (runCommands run look) =
      { scr with shown := scr.shown ++ run.map (·, (look.map Style.pen).getD {}) } := by
  obtain ⟨pen, shown⟩ := scr
  obtain rfl : pen = {} := h
  unfold runCommands
  by_cases hempty : run.isEmpty = true
  · rw [if_pos hempty, List.isEmpty_iff.1 hempty, List.map_nil, List.append_nil]
    rfl
  · rw [if_neg hempty]
    cases look with
    | none => rfl
    | some s =>
        dsimp only
        by_cases hplain : s.isPlain = true
        · obtain rfl : s = .plain := of_decide_eq_true hplain
          rfl
        · rw [if_neg hplain, run_append, run_append, run_append, run_append, run_append,
            run_foreground rfl, run_background rfl, run_bold rfl, run_italic rfl,
            run_underline rfl]
          rfl

end Screen

/-! ## Columns -/

/-- The chars, with their offsets, that fit when `column` columns are taken: a newline always does,
    and opens a line; another char is left out if it would take more columns than there are. -/
def kept (columns : Char → Nat) (width : Option Nat) :
    (column : Nat) → List (Char × Nat) → List (Char × Nat)
  | _, [] => []
  | column, (c, o) :: rest =>
    if c = '\n' then (c, o) :: kept columns width 0 rest
    else if width.any fun w => w < column + columns c then kept columns width column rest
    else (c, o) :: kept columns width (column + columns c) rest

/-- What is kept are some of the chars, in their order. -/
theorem kept_sublist (columns : Char → Nat) (width : Option Nat) (column : Nat)
    (chars : List (Char × Nat)) : (kept columns width column chars).Sublist chars := by
  induction chars generalizing column with
  | nil => exact .slnil
  | cons x rest ih =>
      obtain ⟨c, o⟩ := x
      rw [kept]
      split
      · exact (ih 0).cons_cons _
      · split
        · exact (ih column).cons _
        · exact (ih _).cons_cons _

/-! ## The printer -/

/-- The pen of the chars inside a span, or inside none. -/
def spanPen (scheme : Scheme) (span : Option Span) : Pen :=
  (span.map fun s => (scheme.resolve s.style).pen).getD {}

/-- The pen that spans give a char. -/
def penAt (scheme : Scheme) (spans : List Span) (o : Nat) : Pen :=
  spanPen scheme (spans.find? (·.contains o))

namespace Printer

variable (columns : Char → Nat) (scheme : Scheme) (width : Option Nat) {p : Printer}

/-- A terminal that has obeyed what the printer has sent. -/
def screen (p : Printer) : Screen := Screen.run {} p.sent.toList

/-- What has been read is shown: what is sent, and the run held back in the look of its span. -/
def shown (scheme : Scheme) (p : Printer) : List (Char × Pen) :=
  p.screen.shown ++ p.run.reverse.map (·, spanPen scheme p.current)

/-- The spans that are not left behind. -/
def spans (p : Printer) : List Span := p.current.toList ++ p.ahead

/-- To flush is to show the run in the look of a span. -/
theorem screen_flush (h : p.screen.pen = {}) (span : Option Span) :
    (p.flush scheme span).screen =
      { p.screen with
        shown := p.screen.shown ++ p.run.reverse.map (·, spanPen scheme span) } := by
  rw [flush, screen, Array.toList_append, Screen.run_append]
  refine (Screen.run_runCommands h _ _).trans ?_
  rw [Option.map_map]
  rfl

/-- Leaving the span that ends. -/
def leave (scheme : Scheme) (p : Printer) (pos : Nat) : Printer :=
  if p.current.any fun s => s.stop ≤ pos then { p.flush scheme p.current with current := none }
  else p

/-- Entering the span that has begun, past those that have ended. -/
def enter (scheme : Scheme) (p : Printer) (pos : Nat) : Printer :=
  match p.current, p.ahead.dropWhile fun s => s.stop ≤ pos with
  | none, s :: rest =>
    if s.start ≤ pos then { p.flush scheme none with current := some s, ahead := rest }
    else { p with ahead := s :: rest }
  | _, ahead => { p with ahead }

/-- To come to a char is to leave the span that ends, and then to enter the one that begins. -/
theorem arrive_eq (p : Printer) (pos : Nat) :
    p.arrive scheme pos = (p.leave scheme pos).enter scheme pos := by
  unfold arrive enter leave
  dsimp only
  generalize (if p.current.any (fun s => s.stop ≤ pos) = true then
    { p.flush scheme p.current with current := none } else p) = q
  -- both look at the span that is left, if there is one
  cases q.current with
  | none =>
      cases q.ahead.dropWhile fun s => s.stop ≤ pos with
      | nil => rfl
      | cons s rest => rfl
  | some s => rfl

/-- To leave a span is to send its run in its look, so it changes nothing of what is shown. -/
theorem leave_spec (h : p.screen.pen = {}) (pos : Nat) :
    (p.leave scheme pos).screen.pen = {} ∧ (p.leave scheme pos).shown scheme = p.shown scheme ∧
      (p.leave scheme pos).column = p.column := by
  have hflush := screen_flush scheme h p.current
  rw [leave]
  split
  · refine ⟨?_, ?_, rfl⟩
    · show (p.flush scheme p.current).screen.pen = {}
      rw [hflush]
      exact h
    · show (p.flush scheme p.current).screen.shown ++ [] = _
      rw [hflush, List.append_nil]
      rfl
  · exact ⟨h, rfl, rfl⟩

/-- To enter a span is to send the run before it, which is in none. -/
theorem enter_spec (h : p.screen.pen = {}) (pos : Nat) :
    (p.enter scheme pos).screen.pen = {} ∧ (p.enter scheme pos).shown scheme = p.shown scheme ∧
      (p.enter scheme pos).column = p.column := by
  have hflush := screen_flush scheme h none
  unfold enter
  split
  · rename_i hcurrent _
    split
    · refine ⟨?_, ?_, rfl⟩
      · show (p.flush scheme none).screen.pen = {}
        rw [hflush]
        exact h
      · show (p.flush scheme none).screen.shown ++ [] = _
        rw [hflush, List.append_nil, shown, hcurrent]
    · exact ⟨h, rfl, rfl⟩
  · exact ⟨h, rfl, rfl⟩

/-- **To come to a char** changes nothing of what is shown. -/
theorem arrive_spec (h : p.screen.pen = {}) (pos : Nat) :
    (p.arrive scheme pos).screen.pen = {} ∧ (p.arrive scheme pos).shown scheme = p.shown scheme ∧
      (p.arrive scheme pos).column = p.column := by
  obtain ⟨hleft, hshown, hcolumn⟩ := leave_spec scheme h pos
  obtain ⟨hentered, hshown', hcolumn'⟩ := enter_spec scheme hleft pos
  rw [arrive_eq]
  exact ⟨hentered, hshown'.trans hshown, hcolumn'.trans hcolumn⟩

/-- A char put to the run is shown, with the pen of the current span. -/
theorem shown_push (p : Printer) (c : Char) (column : Nat) :
    ({ p with run := c :: p.run, column } : Printer).shown scheme =
      p.shown scheme ++ [(c, spanPen scheme p.current)] := by
  show p.screen.shown ++ (c :: p.run).reverse.map (·, spanPen scheme p.current) = _
  rw [List.reverse_cons, List.map_append, ← List.append_assoc]
  rfl

/-- **To take a char in** is to show it in the look of the span around it, if it fits. -/
theorem take_spec (p : Printer) (c : Char) (o : Nat) :
    ∃ here : List (Char × Nat), here.Sublist [(c, o)] ∧
      (∀ rest, kept columns width p.column ((c, o) :: rest) =
        here ++ kept columns width (p.take columns width c).column rest) ∧
      (p.take columns width c).shown scheme =
        p.shown scheme ++ here.map fun x => (x.1, spanPen scheme p.current) := by
  rw [take]
  by_cases hnewline : c = '\n'
  · refine ⟨[(c, o)], .refl _, ?_, ?_⟩
    · intro rest
      rw [kept, if_pos hnewline, if_pos hnewline]
      rfl
    · rw [if_pos hnewline]
      exact shown_push scheme p c 0
  · by_cases hover : (width.any fun w => w < p.column + columns c) = true
    · refine ⟨[], List.nil_sublist _, ?_, ?_⟩
      · intro rest
        rw [kept, if_neg hnewline, if_neg hnewline, if_pos hover]
        dsimp only
        rw [if_pos hover]
        rfl
      · rw [if_neg hnewline]
        dsimp only
        rw [if_pos hover, List.map_nil, List.append_nil]
    · refine ⟨[(c, o)], .refl _, ?_, ?_⟩
      · intro rest
        rw [kept, if_neg hnewline, if_neg hnewline, if_neg hover]
        dsimp only
        rw [if_neg hover]
        rfl
      · rw [if_neg hnewline]
        dsimp only
        rw [if_neg hover]
        exact shown_push scheme p c _

/-- Taking a char in sends nothing and leaves the spans as they are. -/
theorem take_frame (p : Printer) (c : Char) :
    (p.take columns width c).screen = p.screen ∧ (p.take columns width c).current = p.current ∧
      (p.take columns width c).ahead = p.ahead := by
  rw [take]
  split
  · exact ⟨rfl, rfl, rfl⟩
  · dsimp only
    split
    · exact ⟨rfl, rfl, rfl⟩
    · exact ⟨rfl, rfl, rfl⟩

/-- Whatever the spans are, the chars that are shown are those that fit. -/
theorem chars_readAll (h : p.screen.pen = {}) (pos : Nat) (cs : List Char) :
    (readAll scheme columns width p pos cs).screen.pen = {} ∧
      ((readAll scheme columns width p pos cs).shown scheme).map Prod.fst =
        (p.shown scheme).map Prod.fst ++
          (kept columns width p.column (cs.zipIdx pos)).map Prod.fst := by
  induction cs generalizing p pos with
  | nil =>
      refine ⟨h, ?_⟩
      rw [List.zipIdx_nil, kept, List.map_nil, List.append_nil]
      rfl
  | cons c cs ih =>
      obtain ⟨hclear, hshown, hcolumn⟩ := arrive_spec scheme h pos
      obtain ⟨hframe, -, -⟩ := take_frame columns width (p.arrive scheme pos) c
      obtain ⟨here, -, hkept, htaken⟩ := take_spec columns scheme width
        (p.arrive scheme pos) c pos
      -- the char is come to, taken in, and then the rest is read
      obtain ⟨hclear', hrest⟩ := ih (hframe ▸ hclear) (pos + 1)
      refine ⟨hclear', hrest.trans ?_⟩
      rw [htaken, hshown, List.zipIdx_cons, ← hcolumn, hkept, List.map_append, List.map_append,
        List.map_map, List.append_assoc]
      rfl

end Printer

/-! ## The span around a char -/

section Spans

variable {l : List Span} {s : Span} {pos o : Nat}

theorem dropWhile_ended_of_le (h : s.stop ≤ pos) (l : List Span) :
    ((s :: l).dropWhile fun s => s.stop ≤ pos) = l.dropWhile fun s => s.stop ≤ pos := by
  rw [List.dropWhile_cons, if_pos (decide_eq_true h)]

/-- A span that has not ended stays, and so do those behind it. -/
theorem dropWhile_ended_of_lt (h : pos < s.stop) (l : List Span) :
    ((s :: l).dropWhile fun s => s.stop ≤ pos) = s :: l := by
  rw [List.dropWhile_cons, if_neg fun hle => Nat.not_le.2 h (of_decide_eq_true hle)]

/-- Spans that have ended are around no char from there on. -/
theorem find?_dropWhile_ended (h : pos ≤ o) (l : List Span) :
    (l.dropWhile fun s => s.stop ≤ pos).find? (·.contains o) = l.find? (·.contains o) := by
  induction l with
  | nil => rfl
  | cons s rest ih =>
      rcases Nat.lt_or_ge pos s.stop with hstays | hended
      · rw [dropWhile_ended_of_lt hstays]
      -- a span that has ended is not around the char
      · have hout : ¬s.contains o = true := by
          intro hin
          have : o < s.stop := (Span.contains_iff.1 hin).2
          omega
        rw [dropWhile_ended_of_le hended, List.find?_cons, Bool.eq_false_iff.2 hout]
        exact ih

/-- In spans in order, the first that has not ended is around a char or begins behind it. -/
theorem find?_eq_none_of_lt (h : Paint.Canonical ⟨s :: l⟩) (hlt : pos < s.start) :
    (s :: l).find? (·.contains pos) = none := by
  obtain ⟨hfirst, -⟩ := List.pairwise_cons.1 h.order
  rw [List.find?_eq_none]
  intro s' hs' hin
  have hstart : s'.start ≤ pos := (Span.contains_iff.1 hin).1
  rcases List.mem_cons.1 hs' with rfl | hs'
  · omega
  · have := hfirst s' hs'
    have : s.start < s.stop := h.full s List.mem_cons_self
    omega

theorem Paint.Canonical.tail (h : Paint.Canonical ⟨s :: l⟩) : Paint.Canonical ⟨l⟩ :=
  ⟨fun s' hs' => h.full s' (List.mem_cons_of_mem s hs'), (List.pairwise_cons.1 h.order).2⟩

/-- Without those that have ended spans are still in order. -/
theorem Paint.Canonical.dropWhile_ended (h : Paint.Canonical ⟨l⟩) (pos : Nat) :
    Paint.Canonical ⟨l.dropWhile fun s => s.stop ≤ pos⟩ :=
  ⟨fun s hs => h.full s ((List.dropWhile_sublist _).subset hs),
    h.order.sublist (List.dropWhile_sublist _)⟩

/-- Spans behind one that has not ended have not ended either. -/
theorem Paint.Canonical.dropWhile_tail (h : Paint.Canonical ⟨s :: l⟩) (hlt : pos < s.stop) :
    (l.dropWhile fun s => s.stop ≤ pos) = l := by
  obtain ⟨hfirst, -⟩ := List.pairwise_cons.1 h.order
  cases l with
  | nil => rfl
  | cons s' rest =>
      have h1 := hfirst s' List.mem_cons_self
      have h2 : s'.start < s'.stop := h.tail.full s' List.mem_cons_self
      exact dropWhile_ended_of_lt (by omega) rest

/-- Spans in order give a char to one of them at most. -/
theorem Paint.Canonical.find?_eq (h : Paint.Canonical ⟨l⟩) (hs : s ∈ l)
    (hin : s.contains o = true) : l.find? (·.contains o) = some s := by
  induction l with
  | nil => exact absurd hs List.not_mem_nil
  | cons s' rest ih =>
      obtain ⟨hfirst, -⟩ := List.pairwise_cons.1 h.order
      rcases List.mem_cons.1 hs with rfl | hs
      · rw [List.find?_cons, hin]
      · have hout : ¬s'.contains o = true := by
          intro hin'
          have h1 : o < s'.stop := (Span.contains_iff.1 hin').2
          have h2 : s.start ≤ o := (Span.contains_iff.1 hin).1
          have := hfirst s hs
          omega
        rw [List.find?_cons, Bool.eq_false_iff.2 hout]
        exact ih h.tail hs

end Spans

namespace Printer

variable (columns : Char → Nat) (scheme : Scheme) (width : Option Nat) {p : Printer} {pos : Nat}

/-- To enter drops the spans that have ended, and the span around the char is the current one. -/
theorem enter_spans (hcurrent : p.current = none) (h : Paint.Canonical ⟨p.ahead⟩) (pos : Nat) :
    (p.enter scheme pos).spans = (p.ahead.dropWhile fun s => s.stop ≤ pos) ∧
      (p.enter scheme pos).current = p.ahead.find? (·.contains pos) := by
  have hfind := find?_dropWhile_ended (Nat.le_refl pos) p.ahead
  have hkept := h.dropWhile_ended pos
  have hhead := List.head?_dropWhile_not (fun s : Span => decide (s.stop ≤ pos)) p.ahead
  unfold enter
  rw [hcurrent, ← hfind]
  cases hahead : p.ahead.dropWhile fun s => s.stop ≤ pos with
  | nil => exact ⟨rfl, rfl⟩
  | cons s rest =>
      rw [hahead] at hkept hhead
      have hstop : pos < s.stop := by simpa using hhead
      dsimp only
      by_cases hbegun : s.start ≤ pos
      · have hin : s.contains pos = true := Span.contains_iff.2 ⟨hbegun, hstop⟩
        rw [if_pos hbegun, List.find?_cons, hin]
        exact ⟨rfl, rfl⟩
      · rw [if_neg hbegun, find?_eq_none_of_lt hkept (Nat.not_le.1 hbegun)]
        exact ⟨rfl, rfl⟩

/-- **To come to a char** is to come into the span around it. -/
theorem arrive_spans (h : Paint.Canonical ⟨p.spans⟩)
    (hbegun : ∀ s, p.current = some s → s.start ≤ pos) :
    (p.arrive scheme pos).spans = (p.spans.dropWhile fun s => s.stop ≤ pos) ∧
      (p.arrive scheme pos).current = p.spans.find? (·.contains pos) := by
  rw [arrive_eq]
  cases hcurrent : p.current with
  | none =>
      have hspans : p.spans = p.ahead := by
        rw [spans, hcurrent]
        rfl
      have hleave : p.leave scheme pos = p := by
        rw [leave, hcurrent]
        rfl
      rw [hspans] at h ⊢
      rw [hleave]
      exact enter_spans scheme hcurrent h pos
  | some s =>
      have hspans : p.spans = s :: p.ahead := by
        rw [spans, hcurrent]
        rfl
      rw [hspans] at h ⊢
      have hstart := hbegun s hcurrent
      rw [List.find?_cons]
      rcases Nat.lt_or_ge pos s.stop with hstays | hended
      · have hin : s.contains pos = true := Span.contains_iff.2 ⟨hstart, hstays⟩
        have hleave : p.leave scheme pos = p := by
          rw [leave, hcurrent, Option.any_some,
            if_neg fun hle => Nat.not_le.2 hstays (of_decide_eq_true hle)]
        rw [dropWhile_ended_of_lt hstays, hin, hleave, enter, hcurrent,
          h.dropWhile_tail hstays]
        exact ⟨rfl, rfl⟩
      · have hout : s.contains pos = false := by
          refine Bool.eq_false_iff.2 ?_
          intro hin
          exact Nat.not_lt.2 hended (Span.contains_iff.1 hin).2
        have hleave : p.leave scheme pos =
            { p.flush scheme p.current with current := none } := by
          rw [leave, hcurrent, Option.any_some, if_pos (decide_eq_true hended)]
        rw [dropWhile_ended_of_le hended, hout, hleave]
        exact enter_spans scheme (p := { p.flush scheme p.current with current := none }) rfl
          h.tail pos

/-- **What is read is shown**, as far as it fits, each char with the pen that the spans give it. -/
theorem shown_readAll (hclear : p.screen.pen = {}) (h : Paint.Canonical ⟨p.spans⟩) (pos : Nat)
    (hbegun : ∀ s, p.current = some s → s.start ≤ pos) (cs : List Char) :
    (readAll scheme columns width p pos cs).shown scheme =
      p.shown scheme ++ (kept columns width p.column (cs.zipIdx pos)).map fun x =>
        (x.1, penAt scheme p.spans x.2) := by
  induction cs generalizing p pos with
  | nil =>
      rw [List.zipIdx_nil, kept, List.map_nil, List.append_nil]
      rfl
  | cons c cs ih =>
      -- the spans left behind are gone, so the rest is read with those that have not ended
      obtain ⟨hclear', hshown, hcolumn⟩ := arrive_spec scheme hclear pos
      obtain ⟨hspans, hcurrent⟩ := arrive_spans scheme h hbegun
      obtain ⟨hframe, hcurrent', hahead'⟩ := take_frame columns width (p.arrive scheme pos) c
      obtain ⟨here, hhere, hkept, htaken⟩ := take_spec columns scheme width
        (p.arrive scheme pos) c pos
      have hspans' : ((p.arrive scheme pos).take columns width c).spans =
          p.spans.dropWhile fun s => s.stop ≤ pos := by
        rw [← hspans, spans, hcurrent', hahead']
        rfl
      have hcanonical : Paint.Canonical ⟨((p.arrive scheme pos).take columns width c).spans⟩ := by
        rw [hspans']
        exact h.dropWhile_ended pos
      have hbegun' : ∀ s, ((p.arrive scheme pos).take columns width c).current = some s →
          s.start ≤ pos + 1 := by
        intro s hs
        rw [hcurrent', hcurrent] at hs
        have hin : s.contains pos = true :=
          List.find?_some (p := fun s : Span => s.contains pos) hs
        have : s.start ≤ pos := (Span.contains_iff.1 hin).1
        omega
      refine (ih (hframe ▸ hclear') hcanonical (pos + 1) hbegun').trans ?_
      rw [htaken, hshown, List.zipIdx_cons, ← hcolumn, hkept, List.map_append, List.append_assoc]
      congr 2
      · -- the char itself
        refine List.map_congr_left ?_
        intro x hx
        obtain rfl := List.mem_singleton.1 (hhere.subset hx)
        rw [hcurrent]
        rfl
      · -- behind it the spans that have ended do not matter
        refine List.map_congr_left ?_
        intro x hx
        have hlt := List.le_snd_of_mem_zipIdx ((kept_sublist columns width _ _).subset hx)
        rw [penAt, penAt, hspans', find?_dropWhile_ended (by omega)]

end Printer

/-! ## Whole texts -/

section Texts

variable {columns : Char → Nat} {scheme : Scheme} {spans : List Span} {width : Option Nat}

/-- At the end the run held back is sent too, so the terminal shows all that the printer has
    read. -/
theorem run_printHighlighted (columns : Char → Nat) (scheme : Scheme) (text : List Char)
    (spans : List Span) (width : Option Nat) :
    Screen.run {} (printHighlighted columns scheme text spans width) =
      ⟨{}, (Printer.readAll scheme columns width { ahead := spans } 0 text).shown scheme⟩ := by
  have hclear : (Printer.screen { ahead := spans }).pen = {} := rfl
  obtain ⟨hclear', -⟩ := Printer.chars_readAll columns scheme width hclear 0 text
  refine (Printer.screen_flush scheme hclear' _).trans ?_
  dsimp only
  rw [hclear']
  rfl

/-- Inside a span the pen is that of the look of its style. -/
theorem Paint.Canonical.penAt_eq (h : Paint.Canonical ⟨spans⟩) (scheme : Scheme) {s : Span}
    {o : Nat} (hs : s ∈ spans) (hin : s.contains o = true) :
    penAt scheme spans o = (scheme.resolve s.style).pen := by
  rw [penAt, h.find?_eq hs hin]
  rfl

/-- Outside of all spans the pen is that of the plain look. -/
theorem penAt_of_not_contains {o : Nat} (h : ∀ s ∈ spans, s.contains o = false) :
    penAt scheme spans o = Style.plain.pen := by
  have hnone : spans.find? (·.contains o) = none :=
    List.find?_eq_none.2 fun s hs => Bool.eq_false_iff.1 (h s hs)
  rw [penAt, hnone]
  rfl

/-- **A terminal shows a text in its styles.**  With spans in order it shows the chars that fit, in
    the order of the text, each with the pen that its offset has (`penAt`), and the pen is clear
    in the end.  Inside a span this is the pen of the look of its style and of no other look, and
    outside of all spans that of the plain look. -/
theorem printHighlighted_shows (h : Paint.Canonical ⟨spans⟩) (columns : Char → Nat)
    (scheme : Scheme) (text : List Char) (width : Option Nat) :
    Screen.run {} (printHighlighted columns scheme text spans width) =
      ⟨{}, (kept columns width 0 text.zipIdx).map fun x => (x.1, penAt scheme spans x.2)⟩ ∧
    (kept columns width 0 text.zipIdx).Sublist text.zipIdx ∧
    ∀ o, (∀ s ∈ spans, s.contains o = true →
        ∀ look : Style, penAt scheme spans o = look.pen ↔ look = scheme.resolve s.style) ∧
      ((∀ s ∈ spans, s.contains o = false) →
        ∀ look : Style, penAt scheme spans o = look.pen ↔ look = .plain) := by
  refine ⟨?_, kept_sublist columns width 0 _, fun o => ⟨?_, ?_⟩⟩
  · have hshown := Printer.shown_readAll columns scheme width (p := { ahead := spans })
      rfl h 0 nofun text
    rw [run_printHighlighted, hshown]
    rfl
  · intro s hs hin look
    rw [h.penAt_eq scheme hs hin, Style.pen_injective.eq_iff]
    exact eq_comm
  · intro hout look
    rw [penAt_of_not_contains hout, Style.pen_injective.eq_iff]
    exact eq_comm

/-- In two columns: spans side by side, one cut away as a whole, one over a newline, and one in a
    style that the scheme does not know, ending past the text. -/
theorem printHighlighted_shows_ab :
    Paint.Canonical ⟨[⟨0, 1, "k"⟩, ⟨1, 2, "s"⟩, ⟨2, 3, "k"⟩, ⟨3, 5, "s"⟩, ⟨5, 9, "x"⟩]⟩ ∧
    Screen.run {} (printHighlighted (fun c => if c = 'w' then 2 else 1)
        ⟨[("k", { fg := .magenta, bold := true }), ("s", { bg := .green })]⟩
        ['a', 'b', 'w', '\n', 'c', 'd']
        [⟨0, 1, "k"⟩, ⟨1, 2, "s"⟩, ⟨2, 3, "k"⟩, ⟨3, 5, "s"⟩, ⟨5, 9, "x"⟩] (some 2)) =
      ⟨{}, [('a', { fg := .darkMagenta, bold := true }), ('b', { bg := .darkGreen }),
        ('\n', { bg := .darkGreen }), ('c', { bg := .darkGreen }), ('d', {})]⟩ := by
  have h : Paint.Canonical
      ⟨[⟨0, 1, "k"⟩, ⟨1, 2, "s"⟩, ⟨2, 3, "k"⟩, ⟨3, 5, "s"⟩, ⟨5, 9, "x"⟩]⟩ :=
    ⟨by decide, by decide⟩
  refine ⟨h, ?_⟩
  rw [(printHighlighted_shows h _ _ _ _).1]
  decide

end Texts

end Highlighter
