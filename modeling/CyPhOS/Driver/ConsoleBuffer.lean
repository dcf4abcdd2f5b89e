import CyPhOS.Lib.RingSearch
import CyPhOS.Lib.Run
import CyPhOS.Lib.TerminatedText

/-! # The lines of the console buffer

A line is reserved by `enterLine`, which fills it at once, or by `startLine`, after which `putc` and
`endLine` write to it through the shared write position. The printer reads a line and frees it. A
`State` notes what the callers know of the lines, and `Faithful` says that the buffer agrees: it is
kept by every step that is `Proper`, where a line is reserved only while one is free and what is
written to an open line still finds the write position there.
-/

namespace CyPhOS

open RingSearch TerminatedText Transition

/-- `cLineCount` lines of `cLineLength` characters. -/
structure ConsoleBuffer where
  mWritePosition : Fin 20
  mWriteLinePos : Nat
  mBuffer : Fin 20 → Nat → Char
  mLineUsed : Fin 20 → Bool

namespace ConsoleBuffer

def nul : Char := Char.ofNat 0

def cLineLength : Nat := 1024

/-- In zeroed storage. -/
def new : ConsoleBuffer := ⟨0, 0, fun _ _ => nul, fun _ => false⟩

/-- The search for a line. It never runs out of rounds. -/
def reserve (b : ConsoleBuffer) : Option (Fin 20) :=
  search b.mLineUsed b.mWritePosition 21 (b.mWritePosition + 1)

/-- The loop that copies the string, from `linePos` on, and the termination behind it. -/
def copyString : List Char → Nat → (Nat → Char) → Nat → Char
  | [], linePos, line => Function.update line linePos nul
  | c :: string, linePos, line =>
    if c ≠ nul ∧ linePos < cLineLength - 1 then
      copyString string (linePos + 1) (Function.update line linePos c)
    else Function.update line linePos nul

def enterLine (b : ConsoleBuffer) (string : List Char) : Option (Fin 20 × ConsoleBuffer) := do
  let lineNum ← b.reserve
  pure (lineNum, { b with
    mLineUsed := Function.update b.mLineUsed lineNum true
    mBuffer := Function.update b.mBuffer lineNum (copyString string 0 (b.mBuffer lineNum))
    mWritePosition := lineNum })

def wrongLine (i : Nat) : Char := ("WRONG LINE".toList[i]?).getD nul

/-- The memory that the pointer returned shows to. -/
def readLine (b : ConsoleBuffer) (lineNum : Fin 20) : Nat → Char :=
  if b.mLineUsed lineNum then b.mBuffer lineNum else wrongLine

def freeLine (b : ConsoleBuffer) (lineNum : Fin 20) : ConsoleBuffer :=
  { b with mLineUsed := Function.update b.mLineUsed lineNum false }

def startLine (b : ConsoleBuffer) : Option ConsoleBuffer := do
  let lineNum ← b.reserve
  pure { b with
    mLineUsed := Function.update b.mLineUsed lineNum true
    mWriteLinePos := 0
    mWritePosition := lineNum }

def writeChar (b : ConsoleBuffer) (c : Char) : Fin 20 → Nat → Char :=
  Function.update b.mBuffer b.mWritePosition
    (Function.update (b.mBuffer b.mWritePosition) b.mWriteLinePos c)

def endLine (b : ConsoleBuffer) : ConsoleBuffer := { b with mBuffer := b.writeChar nul }

def putc (b : ConsoleBuffer) (c : Char) : ConsoleBuffer :=
  if b.mWriteLinePos < cLineLength - 1 then
    { b with mBuffer := b.writeChar c, mWriteLinePos := b.mWriteLinePos + 1 }
  else b

/-- What is printed, and the buffer afterwards. -/
def triggerFunc_printLine (exceptionActive : Bool) (b : ConsoleBuffer) (lineNum : Fin 20) :
    Option (List Char × ConsoleBuffer) :=
  if exceptionActive then some ([], b)
  else do
    let printed ← readText nul (b.readLine lineNum) cLineLength 0
    pure (printed, b.freeLine lineNum)

/-! ## Runs -/

/-- What the callers know of a line. -/
inductive LineState
  | free
  /-- Started and not ended, with what has been put into it. -/
  | opened (text : List Char)
  | finished (text : List Char)

def LineState.put (c : Char) : LineState → LineState
  | opened text => opened (text ++ [c])
  | s => s

def LineState.finish : LineState → LineState
  | opened text => finished text
  | s => s

structure State where
  buffer : ConsoleBuffer
  lines : Fin 20 → LineState

def State.initial : State := ⟨new, fun _ => .free⟩

/-- A call. Where it returns a line or works on one, the line is the one that its caller has. -/
inductive Call
  | enterLine (string : List Char) (lineNum : Fin 20)
  | startLine (lineNum : Fin 20)
  | putc (lineNum : Fin 20) (c : Char)
  | endLine (lineNum : Fin 20)
  | freeLine (lineNum : Fin 20)

def Call.line : Call → Fin 20
  | enterLine _ n | startLine n | putc n _ | endLine n | freeLine n => n

/-- What is known of the line after the call. A string ends at its terminator. -/
def Call.after : Call → LineState → LineState
  | enterLine string _, _ => .finished (string.takeWhile (· ≠ nul))
  | startLine _, _ => .opened []
  | putc _ c, s => s.put c
  | endLine _, s => s.finish
  | freeLine _, _ => .free

/-- The calls do not tell the buffer which line they are about. -/
inductive Call.Returns : Call → ConsoleBuffer → ConsoleBuffer → Prop
  | enterLine {string lineNum b b'} : b.enterLine string = some (lineNum, b') →
    Returns (enterLine string lineNum) b b'
  | startLine {lineNum b b'} : b.startLine = some b' → lineNum = b'.mWritePosition →
    Returns (startLine lineNum) b b'
  | putc {lineNum c b} : Returns (putc lineNum c) b (b.putc c)
  | endLine {lineNum b} : Returns (endLine lineNum) b b.endLine
  | freeLine {lineNum b} : Returns (freeLine lineNum) b (b.freeLine lineNum)

inductive Step : State → Call → State → Prop
  | call {s call b'} : call.Returns s.buffer b' →
    Step s call ⟨b', Function.update s.lines call.line (call.after (s.lines call.line))⟩

/-- A line is reserved while one is free. What is written to a line comes before its end, and no
other line has been reserved since its start. -/
def Call.Proper (s : State) : Call → Prop
  | enterLine _ _ | startLine _ => ∃ n, s.buffer.mLineUsed n = false
  | putc n _ | endLine n => n = s.buffer.mWritePosition ∧ ∀ text, s.lines n ≠ .finished text
  | freeLine _ => True

def ProperStep (s : State) (call : Call) (s' : State) : Prop := Step s call s' ∧ call.Proper s

/-! ## What the buffer keeps to -/

/-- The text as far as it fits. -/
def cut (text : List Char) : List Char := text.take (cLineLength - 1)

/-- The memory of the lines. An open line is being written as long as the write position is there. -/
structure Faithful (s : State) : Prop where
  used (n) : s.buffer.mLineUsed n = true ↔ s.lines n ≠ .free
  finished {n text} : s.lines n = .finished text → Shows nul (s.buffer.mBuffer n) (cut text)
  opened {text} : s.lines s.buffer.mWritePosition = .opened text →
    Begins (s.buffer.mBuffer s.buffer.mWritePosition) (cut text) ∧
      s.buffer.mWriteLinePos = (cut text).length

/-! ## Reserving a line -/

variable {b b' : ConsoleBuffer} {n : Fin 20} {string text : List Char} {s s' : State} {call : Call}

theorem reserve_isSome (b : ConsoleBuffer) : ∃ n, b.reserve = some n :=
  search_isSome (by decide)

theorem reserve_free_iff (h : b.reserve = some n) :
    b.mLineUsed n = false ↔ ∃ i, b.mLineUsed i = false :=
  search_free_iff (by decide) h

theorem enterLine_eq (h : b.reserve = some n) (string : List Char) :
    b.enterLine string = some (n, { b with
      mLineUsed := Function.update b.mLineUsed n true
      mBuffer := Function.update b.mBuffer n (copyString string 0 (b.mBuffer n))
      mWritePosition := n }) := by
  rw [enterLine, h]
  rfl

theorem startLine_eq (h : b.reserve = some n) :
    b.startLine = some { b with
      mLineUsed := Function.update b.mLineUsed n true
      mWriteLinePos := 0
      mWritePosition := n } := by
  rw [startLine, h]
  rfl

/-! ## Writing a line -/

theorem cut_length_lt (text : List Char) : (cut text).length < cLineLength := by
  rw [cut, List.length_take]
  exact Nat.lt_of_le_of_lt (Nat.min_le_left ..) (by decide)

theorem copyString_shows {line : Nat → Char} {linePos : Nat} (h : Begins line (cut text))
    (hpos : linePos = (cut text).length) :
    Shows nul (copyString string linePos line) (cut (text ++ string.takeWhile (· ≠ nul))) := by
  induction string generalizing text line linePos with
  | nil =>
    subst hpos
    rw [copyString, List.takeWhile_nil, List.append_nil]
    exact h.terminate nul
  | cons c string ih =>
    subst hpos
    rw [copyString]
    by_cases hc : c = nul
    · rw [if_neg (fun h => h.1 hc), List.takeWhile_cons_of_neg (by simpa using hc),
        List.append_nil]
      exact h.terminate nul
    · rw [List.takeWhile_cons_of_pos (by simpa using hc)]
      by_cases hlt : (cut text).length < cLineLength - 1
      · obtain ⟨hwrite, hlength⟩ := h.write_take hlt c
        rw [if_pos ⟨hc, hlt⟩, List.append_cons]
        exact ih hwrite hlength.symm
      · -- the rest of the string is cut off
        have hcut : cut (text ++ c :: string.takeWhile (· ≠ nul)) = cut text :=
          take_append_of_full (Nat.not_lt.mp hlt) _
        rw [if_neg (fun h => hlt h.2), hcut]
        exact h.terminate nul

theorem writeChar_self (b : ConsoleBuffer) (c : Char) : b.writeChar c b.mWritePosition =
    Function.update (b.mBuffer b.mWritePosition) b.mWriteLinePos c :=
  Function.update_self ..

theorem writeChar_of_ne (h : n ≠ b.mWritePosition) (c : Char) : b.writeChar c n = b.mBuffer n :=
  Function.update_of_ne h ..

theorem Faithful.initial : Faithful .initial where
  used _ := by simp [State.initial, new]
  finished h := by cases h
  opened h := by cases h

/-- A call changes one line. -/
theorem Faithful.update {l : LineState} (h : Faithful s)
    (hframe : ∀ i, i ≠ n → b'.mLineUsed i = s.buffer.mLineUsed i ∧
      b'.mBuffer i = s.buffer.mBuffer i)
    (hused : b'.mLineUsed n = true ↔ l ≠ .free)
    (hfinished : ∀ text, l = .finished text → Shows nul (b'.mBuffer n) (cut text))
    (hopened : ∀ text, Function.update s.lines n l b'.mWritePosition = .opened text →
      Begins (b'.mBuffer b'.mWritePosition) (cut text) ∧ b'.mWriteLinePos = (cut text).length) :
    Faithful ⟨b', Function.update s.lines n l⟩ where
  used i := by
    by_cases hin : i = n
    · subst hin
      simpa using hused
    · simpa [hin, (hframe i hin).1] using h.used i
  finished {i text} hi := by
    by_cases hin : i = n
    · subst hin
      exact hfinished text (by simpa using hi)
    · simp only [Function.update_of_ne hin] at hi
      simpa only [(hframe i hin).2] using h.finished hi
  opened hi := hopened _ hi

theorem Faithful.enterLine (h : Faithful s) (hreserve : s.buffer.enterLine string = some (n, b')) :
    Faithful ⟨b', Function.update s.lines n (.finished (string.takeWhile (· ≠ nul)))⟩ := by
  obtain ⟨m, hm⟩ := s.buffer.reserve_isSome
  rw [enterLine_eq hm] at hreserve
  cases hreserve
  refine h.update (fun i hi => ?_) ?_ ?_ ?_
  · simp [hi]
  · simp
  · rintro text ⟨⟩
    simp only [Function.update_self]
    exact copyString_shows (show Begins _ (cut []) by exact begins_nil) rfl
  · simp

theorem Faithful.startLine (h : Faithful s) (hreserve : s.buffer.startLine = some b') :
    Faithful ⟨b', Function.update s.lines b'.mWritePosition (.opened [])⟩ := by
  obtain ⟨m, hm⟩ := s.buffer.reserve_isSome
  rw [startLine_eq hm] at hreserve
  cases hreserve
  refine h.update (fun i hi => ?_) ?_ nofun ?_
  · simp [hi]
  · simp
  · rw [Function.update_self]
    rintro text ⟨⟩
    exact ⟨begins_nil, rfl⟩

/-- A character goes to the line if that is open, or to a free one. -/
theorem Faithful.putc (h : Faithful s) (hn : n = s.buffer.mWritePosition)
    (hline : ∀ text, s.lines n ≠ .finished text) (c : Char) :
    Faithful ⟨s.buffer.putc c, Function.update s.lines n ((s.lines n).put c)⟩ := by
  subst hn
  have hfields : (s.buffer.putc c).mWritePosition = s.buffer.mWritePosition ∧
      (s.buffer.putc c).mLineUsed = s.buffer.mLineUsed := by
    rw [ConsoleBuffer.putc]
    split <;> exact ⟨rfl, rfl⟩
  refine h.update (fun i hi => ⟨by rw [hfields.2], ?_⟩) ?_ ?_ ?_
  · rw [ConsoleBuffer.putc]
    split
    · exact writeChar_of_ne hi c
    · rfl
  · rw [hfields.2, h.used]
    cases s.lines s.buffer.mWritePosition <;> simp [LineState.put]
  · intro text htext
    cases hl : s.lines s.buffer.mWritePosition with
    | finished text' => exact absurd hl (hline text')
    | _ => simp [hl, LineState.put] at htext
  · rw [hfields.1, Function.update_self]
    intro text htext
    cases hl : s.lines s.buffer.mWritePosition with
    | opened text' =>
      simp only [hl, LineState.put, LineState.opened.injEq] at htext
      subst htext
      obtain ⟨hbegins, hpos⟩ := h.opened hl
      rw [ConsoleBuffer.putc]
      split
      · next hlt =>
        rw [hpos] at hlt
        obtain ⟨hwrite, hlength⟩ := hbegins.write_take hlt c
        simp only [writeChar_self, hpos]
        exact ⟨hwrite, hlength.symm⟩
      · next hge =>
        rw [hpos] at hge
        have hcut : cut (text' ++ [c]) = cut text' := take_append_of_full (Nat.not_lt.mp hge) _
        rw [hcut]
        exact ⟨hbegins, hpos⟩
    | _ => simp [hl, LineState.put] at htext

theorem Faithful.endLine (h : Faithful s) (hn : n = s.buffer.mWritePosition)
    (hline : ∀ text, s.lines n ≠ .finished text) :
    Faithful ⟨s.buffer.endLine, Function.update s.lines n (s.lines n).finish⟩ := by
  subst hn
  refine h.update (fun i hi => ⟨rfl, writeChar_of_ne hi nul⟩) ?_ ?_ ?_
  · rw [show s.buffer.endLine.mLineUsed = s.buffer.mLineUsed from rfl, h.used]
    cases s.lines s.buffer.mWritePosition <;> simp [LineState.finish]
  · intro text htext
    cases hl : s.lines s.buffer.mWritePosition with
    | opened text' =>
      simp only [hl, LineState.finish, LineState.finished.injEq] at htext
      subst htext
      obtain ⟨hbegins, hpos⟩ := h.opened hl
      rw [show s.buffer.endLine.mBuffer = s.buffer.writeChar nul from rfl, writeChar_self, hpos]
      exact hbegins.terminate nul
    | finished text' => exact absurd hl (hline text')
    | free => simp [hl, LineState.finish] at htext
  · rw [show s.buffer.endLine.mWritePosition = s.buffer.mWritePosition from rfl,
      Function.update_self]
    intro text htext
    cases hl : s.lines s.buffer.mWritePosition <;> simp [hl, LineState.finish] at htext

theorem Faithful.freeLine (h : Faithful s) (n : Fin 20) :
    Faithful ⟨s.buffer.freeLine n, Function.update s.lines n .free⟩ := by
  refine h.update (fun i hi => ⟨Function.update_of_ne hi .., rfl⟩) ?_ nofun ?_
  · simp [ConsoleBuffer.freeLine]
  · intro text htext
    by_cases hn : s.buffer.mWritePosition = n
    · rw [show (s.buffer.freeLine n).mWritePosition = n from hn, Function.update_self] at htext
      cases htext
    · exact h.opened ((Function.update_of_ne hn ..).symm.trans htext)

theorem Faithful.step (h : Faithful s) (hstep : Step s call s') (hproper : call.Proper s) :
    Faithful s' := by
  obtain ⟨hcall⟩ := hstep
  cases hcall with
  | enterLine hreserve => exact h.enterLine hreserve
  | startLine hreserve hline =>
    subst hline
    exact h.startLine hreserve
  | putc => exact h.putc hproper.1 hproper.2 _
  | endLine => exact h.endLine hproper.1 hproper.2
  | freeLine => exact h.freeLine _

theorem Faithful.run {calls : List Call} (h : Run ProperStep .initial calls s) : Faithful s :=
  h.invariant (motive := Faithful) .initial fun h hstep => h.step hstep.1 hstep.2

/-! ## Reading and reserving -/

theorem Faithful.free_iff (h : Faithful s) (n : Fin 20) :
    s.lines n = .free ↔ s.buffer.mLineUsed n = false := by
  rw [← Bool.not_eq_true, h.used, not_not]

theorem Faithful.readLine (h : Faithful s) (hline : s.lines n = .finished text) :
    Shows nul (s.buffer.readLine n) (cut text) := by
  have hused : s.buffer.mLineUsed n = true := (h.used n).mpr (by simp [hline])
  rw [ConsoleBuffer.readLine, if_pos hused]
  exact h.finished hline

/-- The printer prints a line that has no terminator within. -/
theorem Faithful.triggerFunc_printLine (h : Faithful s) (hline : s.lines n = .finished text)
    (hnul : nul ∉ text) :
    s.buffer.triggerFunc_printLine false n = some (cut text, s.buffer.freeLine n) := by
  have hread : readText nul (s.buffer.readLine n) cLineLength 0 = some (cut text) :=
    readText_eq (h.readLine hline) (fun hmem => hnul (List.mem_of_mem_take hmem))
      (cut_length_lt text)
  simp [ConsoleBuffer.triggerFunc_printLine, hread]

/-- The line that is reserved is a free one if there is one. -/
theorem Faithful.reserve_free_iff (h : Faithful s) (hreserve : s.buffer.reserve = some n) :
    s.lines n = .free ↔ ∃ i, s.lines i = .free := by
  rw [h.free_iff, ConsoleBuffer.reserve_free_iff hreserve]
  exact exists_congr fun i => (h.free_iff i).symm

/-- In every run of proper calls the lines show what has been written to them, and the line that
comes next is a free one if and only if there is one. -/
theorem console_lines_faithful {calls : List Call}
    (h : Run ProperStep .initial calls s) :
    (∀ n text, s.lines n = .finished text → Shows nul (s.buffer.readLine n) (cut text)) ∧
    (∀ string, ∃ n b', s.buffer.enterLine string = some (n, b') ∧
      (s.lines n = .free ↔ ∃ i, s.lines i = .free)) ∧
    ∃ b', s.buffer.startLine = some b' ∧
      (s.lines b'.mWritePosition = .free ↔ ∃ i, s.lines i = .free) := by
  have hfaithful := Faithful.run h
  obtain ⟨n, hreserve⟩ := s.buffer.reserve_isSome
  have hfree := hfaithful.reserve_free_iff hreserve
  exact ⟨fun n text => hfaithful.readLine,
    fun string => ⟨n, _, enterLine_eq hreserve string, hfree⟩,
    _, startLine_eq hreserve, hfree⟩

/-- A line is started, written and ended, another one is entered, and the first is printed and freed:
the other shows its text. -/
theorem console_lines_faithful_twoLines : ∃ calls s,
    Run ProperStep .initial calls s ∧ s.lines 1 = .free ∧ s.lines 2 = .finished ['b'] ∧
    Shows nul (s.buffer.readLine 2) ['b'] ∧
    ∃ n b', s.buffer.enterLine ['c'] = some (n, b') ∧ (s.lines n = .free ↔ ∃ i, s.lines i = .free) := by
  have h : Run ProperStep .initial [.startLine 1] _ :=
    .single ⟨.call (.startLine rfl rfl), 0, rfl⟩
  have h : Run ProperStep .initial [.startLine 1, .putc 1 'a'] _ :=
    h.snoc ⟨.call .putc, rfl, nofun⟩
  have h : Run ProperStep .initial [.startLine 1, .putc 1 'a', .endLine 1] _ :=
    h.snoc ⟨.call .endLine, rfl, nofun⟩
  have h : Run ProperStep .initial
      [.startLine 1, .putc 1 'a', .endLine 1, .enterLine ['b'] 2] _ :=
    h.snoc ⟨.call (.enterLine rfl), 0, rfl⟩
  have h : Run ProperStep .initial
      [.startLine 1, .putc 1 'a', .endLine 1, .enterLine ['b'] 2, .freeLine 1] _ :=
    h.snoc ⟨.call .freeLine, trivial⟩
  obtain ⟨hread, henter, -⟩ := console_lines_faithful h
  exact ⟨_, _, h, rfl, rfl, hread 2 ['b'] rfl, henter ['c']⟩

theorem run_enterLine {calls : List Call} (h : Run Step .initial calls s) (string : List Char)
    (hreserve : s.buffer.enterLine string = some (n, b')) :
    Run Step .initial (calls ++ [.enterLine string n])
      ⟨b', Function.update s.lines n (.finished (string.takeWhile (· ≠ nul)))⟩ :=
  h.snoc (.call (.enterLine hreserve))

/-- When twenty lines wait to be printed the next one takes the line of the last. -/
theorem enterLine_takesUsedLine : ∃ calls s b', Run Step .initial calls s ∧
    s.lines 0 = .finished ['a'] ∧ s.buffer.enterLine ['b'] = some (0, b') ∧
    ¬Shows nul (b'.readLine 0) (cut ['a']) := by
  have h := run_enterLine (run_enterLine .nil ['a'] rfl) ['a'] rfl
  have h := run_enterLine (run_enterLine (run_enterLine h ['a'] rfl) ['a'] rfl) ['a'] rfl
  have h := run_enterLine (run_enterLine (run_enterLine h ['a'] rfl) ['a'] rfl) ['a'] rfl
  have h := run_enterLine (run_enterLine (run_enterLine h ['a'] rfl) ['a'] rfl) ['a'] rfl
  have h := run_enterLine (run_enterLine (run_enterLine h ['a'] rfl) ['a'] rfl) ['a'] rfl
  have h := run_enterLine (run_enterLine (run_enterLine h ['a'] rfl) ['a'] rfl) ['a'] rfl
  have h := run_enterLine (run_enterLine (run_enterLine h ['a'] rfl) ['a'] rfl) ['a'] rfl
  refine ⟨_, _, _, h, rfl, rfl, fun hshows => ?_⟩
  have hfirst := hshows.begins 0 (by decide)
  exact absurd hfirst (by decide)

end ConsoleBuffer

end CyPhOS
