import Mathlib.Data.BitVec

/-! # The line editor of the console

The keys change a buffer of characters, which Return compares to the names of the table. What is
being edited is a list of characters (`edit`), and the buffer holds it with nothing but zeros behind
it (`Edits`), so that a name is called if and only if it is the line (`console_calls_typed`).
-/

namespace CyPhOS

/-- The triggers of the table. -/
inductive ApplicationTrigger
  | printPMUStats | multiCore | showTLBInfo | verifyCritical | crashTest | verifyCache
  | printEventDispatcherStats | printUptime | floatTest | printVersion | printCacheManagementStats
  | startPeriodic | oneshotTest | stopPeriodic | endlessTest | reboot | startStressTest
  | startAutolab | startLights | stopLights | startPedals | stopPedals | startSteeringColumn
  | stopSteeringColumn | startGearSelector | stopGearSelector | startMCP2515SPI | printRx | printTx
  | startCANSimpleTalker | startCANSimpleReceiver | dumpTemps | printResultContainer
  | startBenchmarks
  deriving DecidableEq

/-- The options that entries of the table depend on. -/
structure ConsoleConfig where
  ARMV7 : Bool
  STRESSTEST_COMPONENTS : Bool
  CAN : Bool
  AUTOLAB : Bool
  IMX6_TEMPMONITOR : Bool
  PROFILING : Bool
  TACLEBENCH : Bool

namespace UARTConsole

def chars (text : String) : List (BitVec 8) := text.toList.map fun c => BitVec.ofNat 8 c.toNat

/-- A pointer is the memory from the place on that it points to. -/
abbrev Pointer := List (BitVec 8)

/-- A string literal. -/
def literal (text : String) : Pointer := chars text ++ [0]

end UARTConsole

structure ConsoleApplicationEntry where
  trigger : Option ApplicationTrigger
  mCommandName : Option UARTConsole.Pointer

abbrev UART_CONSOLE_BUFFER_SIZE : Nat := 160

structure UARTConsole where
  mInputBufferPointer : BitVec 32
  mInputBuffer : Vector (BitVec 8) UART_CONSOLE_BUFFER_SIZE

namespace UARTConsole

/-- What the console does to other components. -/
inductive Effect
  | startLine
  | output (text : List (BitVec 8))
  /-- The line is ended and handed to `trigger_printLine`. -/
  | printLine
  | subscribeEvent
  | unsubscribeEvent
  | callOSCTrigger (trigger : ApplicationTrigger) (arg : BitVec 32)

/-- Entries that are there if an option is set. -/
def optional (option : Bool) (block : List (ApplicationTrigger × String)) :
    List (ApplicationTrigger × String) := if option then block else []

/-- The commands and their triggers. -/
def commands (config : ConsoleConfig) : List (ApplicationTrigger × String) :=
  optional config.ARMV7
    [(.printPMUStats, "pmustats"), (.multiCore, "mc"), (.showTLBInfo, "tlbinfo")] ++
  optional true
    [(.verifyCritical, "verify"), (.crashTest, "crashtest"), (.verifyCache, "misstest"),
      (.printEventDispatcherStats, "eventstats"), (.printUptime, "uptime"), (.floatTest, "float"),
      (.printVersion, "version"), (.printCacheManagementStats, "cachestats"),
      (.startPeriodic, "startperiodic"), (.oneshotTest, "oneshot"),
      (.stopPeriodic, "stopperiodic"), (.endlessTest, "endless"), (.reboot, "reboot")] ++
  optional config.STRESSTEST_COMPONENTS [(.startStressTest, "stress")] ++
  optional (config.CAN && config.AUTOLAB)
    [(.startAutolab, "autolab"), (.startLights, "lights"), (.stopLights, "stoplights"),
      (.startPedals, "pedals"), (.stopPedals, "stoppedals"), (.startSteeringColumn, "steering"),
      (.stopSteeringColumn, "stopsteering"), (.startGearSelector, "gear"),
      (.stopGearSelector, "stopgear"), (.startMCP2515SPI, "startcan"), (.printRx, "printrx"),
      (.printTx, "printtx"), (.startCANSimpleTalker, "canstalker"),
      (.startCANSimpleReceiver, "cansr")] ++
  optional config.IMX6_TEMPMONITOR [(.dumpTemps, "temps")] ++
  optional config.PROFILING [(.printResultContainer, "benchmark")] ++
  optional config.TACLEBENCH [(.startBenchmarks, "tacle")]

/-- An entry without a trigger ends the table. -/
def entries (table : List (ApplicationTrigger × String)) : List ConsoleApplicationEntry :=
  table.map (fun command => ⟨some command.1, some (literal command.2)⟩) ++
    [⟨none, some (literal "END")⟩]

def mApplications (config : ConsoleConfig) : List ConsoleApplicationEntry :=
  entries (commands config)

/-- In zeroed storage. -/
def new : UARTConsole := ⟨0, Vector.replicate UART_CONSOLE_BUFFER_SIZE 0⟩

/-! ## The code

What reads or writes behind the end of an array has no result. -/

/-- The loop of `compareCommand` and what comes behind it. -/
def compareLoop : Pointer → Pointer → Option Bool
  | c1 :: cmd1, c2 :: cmd2 =>
    if c1 ≠ 0 ∧ c2 ≠ 0 then
      if c1 ≠ c2 then some false else compareLoop cmd1 cmd2
    else some (decide (c1 = 0 ∧ c2 = 0))
  | _, _ => none

def compareCommand : Option Pointer → Option Pointer → Option Bool
  | some cmd1, some cmd2 => compareLoop cmd1 cmd2
  | _, _ => some false

/-- The characters that the output takes from a string. -/
def readString : Pointer → Option (List (BitVec 8))
  | [] => none
  | c :: str => if c = 0 then some [] else (readString str).map (c :: ·)

def endl : List (BitVec 8) := chars "\n"

def clearLoop (buffer : Vector (BitVec 8) UART_CONSOLE_BUFFER_SIZE) (pos : Nat) :
    Vector (BitVec 8) UART_CONSOLE_BUFFER_SIZE :=
  if h : pos < UART_CONSOLE_BUFFER_SIZE then clearLoop (buffer.set pos 0) (pos + 1) else buffer

def clearBuffer (s : UARTConsole) : UARTConsole × List Effect :=
  (⟨0, clearLoop s.mInputBuffer 0⟩, [.output (chars "\n\rCyPhOS > ")])

def helpLoop : List ConsoleApplicationEntry → Option (List Effect)
  | [] => none
  | entry :: entries =>
    match entry.trigger with
    | none => some []
    | some _ => do
      let name ← entry.mCommandName
      let text ← readString name
      let effects ← helpLoop entries
      some (.output (text ++ endl) :: effects)

def printHelp (config : ConsoleConfig) : Option (List Effect) := do
  let effects ← helpLoop (mApplications config)
  some (.output (endl ++ chars "Available commands: " ++ endl) :: effects)

/-- The loop over the table and what comes behind it. -/
def searchLoop (mInputBuffer : Pointer) : List ConsoleApplicationEntry → Option (List Effect)
  | [] => none
  | entry :: entries =>
    match entry.trigger with
    | none => do
      let text ← readString mInputBuffer
      some [.output (endl ++ chars "Unknown command: " ++ text ++ endl)]
    | some trigger => do
      if ← compareCommand (some mInputBuffer) entry.mCommandName then
        some [.callOSCTrigger trigger 0]
      else searchLoop mInputBuffer entries

def parseCommand (config : ConsoleConfig) (s : UARTConsole) : Option (List Effect) := do
  let mInputBuffer := s.mInputBuffer.toList
  if ← compareCommand (some mInputBuffer) (some (literal "help")) then
    printHelp config
  else if ← compareCommand (some mInputBuffer) (some (literal "unsub")) then
    let effects ← searchLoop mInputBuffer (mApplications config)
    some (.subscribeEvent :: .unsubscribeEvent :: effects)
  else searchLoop mInputBuffer (mApplications config)

/-- A character is written to the buffer. -/
def write (s : UARTConsole) (pos : BitVec 32) (c : BitVec 8) :
    Option (Vector (BitVec 8) UART_CONSOLE_BUFFER_SIZE) :=
  if h : pos.toNat < UART_CONSOLE_BUFFER_SIZE then some (s.mInputBuffer.set pos.toNat c) else none

def triggerFunc_handleKey (config : ConsoleConfig) (s : UARTConsole) (key : BitVec 32) :
    Option (UARTConsole × List Effect) :=
  let c := key.setWidth 8
  if c = 0xd ∨ c = 0xa then do
    let parsed ← s.parseCommand config
    let (s, cleared) := s.clearBuffer
    some (s, [.startLine, .output []] ++ parsed ++ cleared ++ [.printLine])
  else if 0x20 ≤ key then
    if s.mInputBufferPointer + 1 < BitVec.ofNat 32 UART_CONSOLE_BUFFER_SIZE then do
      let mInputBuffer ← s.write s.mInputBufferPointer c
      some (⟨s.mInputBufferPointer + 1, mInputBuffer⟩, [.startLine, .output [c], .printLine])
    else some s.clearBuffer
  else if key = 0x8 then
    if 0 < s.mInputBufferPointer then do
      let mInputBuffer ← s.write (s.mInputBufferPointer - 1) 0
      some (⟨s.mInputBufferPointer - 1, mInputBuffer⟩,
        [.startLine, .output (chars "\x08 \x08"), .printLine])
    else some (s, [])
  else some (s, [])

/-! ## The line -/

/-- A character that has been received, as the key that it is converted to. -/
inductive Received
  | zeroExtended (c : BitVec 8)
  | signExtended (c : BitVec 8)

def Received.char : Received → BitVec 8
  | zeroExtended c | signExtended c => c

def Received.key : Received → BitVec 32
  | zeroExtended c => c.setWidth 32
  | signExtended c => c.signExtend 32

def handleKeys (config : ConsoleConfig) (s : UARTConsole) :
    List Received → Option (UARTConsole × List Effect)
  | [] => some (s, [])
  | r :: received => do
    let (s, effects) ← s.triggerFunc_handleKey config r.key
    let (s, more) ← handleKeys config s received
    some (s, effects ++ more)

abbrev IsReturn (c : BitVec 8) : Prop := c = 0xd ∨ c = 0xa

/-- What a character does to the line. -/
def edit (line : List (BitVec 8)) (c : BitVec 8) : List (BitVec 8) :=
  if IsReturn c then []
  else if 0x20 ≤ c then
    if line.length + 1 < UART_CONSOLE_BUFFER_SIZE then line ++ [c] else []
  else if c = 0x8 then line.dropLast
  else line

/-- The line that is being edited. -/
def editedLine (received : List Received) : List (BitVec 8) :=
  (received.map Received.char).foldl edit []

/-- The trigger of the first command of this name. -/
def typedCommand (config : ConsoleConfig) (line : List (BitVec 8)) : Option ApplicationTrigger :=
  ((commands config).find? fun command => chars command.2 = line).map Prod.fst

def Effect.call : Effect → Option (ApplicationTrigger × BitVec 32)
  | callOSCTrigger trigger arg => some (trigger, arg)
  | _ => none

def calls (effects : List Effect) : List (ApplicationTrigger × BitVec 32) :=
  effects.filterMap Effect.call

/-- The memory begins with the text and a terminator. -/
structure IsString (str : Pointer) (text : List (BitVec 8)) : Prop where
  nonzero : 0 ∉ text
  memory : ∃ more, str = text ++ 0 :: more

/-- The buffer holds the line, and nothing but zeros behind it. -/
structure Edits (s : UARTConsole) (line : List (BitVec 8)) : Prop where
  buffer : s.mInputBuffer.toList =
    line ++ List.replicate (UART_CONSOLE_BUFFER_SIZE - line.length) 0
  pointer : s.mInputBufferPointer.toNat = line.length
  room : line.length < UART_CONSOLE_BUFFER_SIZE
  nonzero : 0 ∉ line

variable {s : UARTConsole} {str cmd1 cmd2 : Pointer}
  {line text text1 text2 : List (BitVec 8)} {c : BitVec 8}

/-! ### Strings -/

theorem literal_isString {t : String} (h : 0 ∉ chars t) : IsString (literal t) (chars t) :=
  ⟨h, [], rfl⟩

/-- There is room for the terminator. -/
theorem Edits.terminated (h : s.Edits line) : s.mInputBuffer.toList =
    line ++ 0 :: List.replicate (UART_CONSOLE_BUFFER_SIZE - (line.length + 1)) 0 := by
  rw [h.buffer, ← List.replicate_succ, Nat.sub_add_eq, Nat.sub_add_cancel]
  exact Nat.sub_pos_of_lt h.room

theorem Edits.isString (h : s.Edits line) : IsString s.mInputBuffer.toList line :=
  ⟨h.nonzero, _, h.terminated⟩

theorem IsString.tail (h : IsString str (c :: text)) :
    c ≠ 0 ∧ ∃ str', str = c :: str' ∧ IsString str' text := by
  obtain ⟨htext, more, rfl⟩ := h
  exact ⟨fun hc => htext (hc ▸ List.mem_cons_self), _, rfl,
    List.not_mem_of_not_mem_cons htext, more, rfl⟩

theorem IsString.nil (h : IsString str []) : ∃ more, str = 0 :: more := h.memory

/-- The comparison is exact, also if one string begins with the other one. -/
theorem compareLoop_eq (h1 : IsString cmd1 text1) (h2 : IsString cmd2 text2) :
    compareLoop cmd1 cmd2 = some (decide (text1 = text2)) := by
  induction text1 generalizing cmd1 cmd2 text2 with
  | nil =>
    obtain ⟨more, rfl⟩ := h1.nil
    cases text2 with
    | nil =>
      obtain ⟨rest, rfl⟩ := h2.nil
      rfl
    | cons d text2 =>
      obtain ⟨hd, cmd2, rfl, -⟩ := h2.tail
      rw [compareLoop, if_neg (fun h => h.1 rfl), decide_eq_false fun h => hd h.2]
      rfl
  | cons c text1 ih =>
    obtain ⟨hc, cmd1, rfl, htail1⟩ := h1.tail
    cases text2 with
    | nil =>
      obtain ⟨rest, rfl⟩ := h2.nil
      rw [compareLoop, if_neg (fun h => h.2 rfl), decide_eq_false fun h => hc h.1]
      rfl
    | cons d text2 =>
      obtain ⟨hd, cmd2, rfl, htail2⟩ := h2.tail
      rw [compareLoop, if_pos ⟨hc, hd⟩, ih htail1 htail2]
      by_cases heq : c = d
      · simp [heq]
      · simp [heq]

theorem compareCommand_eq (h1 : IsString cmd1 text1) (h2 : IsString cmd2 text2) :
    compareCommand (some cmd1) (some cmd2) = some (decide (text1 = text2)) :=
  compareLoop_eq h1 h2

theorem readString_eq (h : IsString str text) : readString str = some text := by
  induction text generalizing str with
  | nil =>
    obtain ⟨more, rfl⟩ := h.nil
    exact if_pos rfl
  | cons c text ih =>
    obtain ⟨hc, str, rfl, htail⟩ := h.tail
    rw [readString, if_neg hc, ih htail]
    rfl

/-! ### The table -/

theorem forall_mem_optional {option : Bool} {block : List (ApplicationTrigger × String)}
    {P : ApplicationTrigger × String → Prop} (h : ∀ command ∈ block, P command) :
    ∀ command ∈ optional option block, P command := by
  cases option with
  | true => exact h
  | false => exact fun _ hmem => absurd hmem List.not_mem_nil

/-- The names have no terminator within, and none is `help`, which is not looked up. -/
theorem commands_name (config : ConsoleConfig) : ∀ command ∈ commands config,
    0 ∉ chars command.2 ∧ chars command.2 ≠ chars "help" := by
  simp only [commands, List.forall_mem_append]
  refine ⟨⟨⟨⟨⟨⟨?_, ?_⟩, ?_⟩, ?_⟩, ?_⟩, ?_⟩, ?_⟩
  all_goals exact forall_mem_optional (by decide)

theorem entries_nil : entries [] = [⟨none, some (literal "END")⟩] := rfl

theorem entries_cons {command : ApplicationTrigger × String}
    {table : List (ApplicationTrigger × String)} : entries (command :: table) =
      ⟨some command.1, some (literal command.2)⟩ :: entries table := rfl

theorem helpLoop_returns {table : List (ApplicationTrigger × String)}
    (h : ∀ command ∈ table, 0 ∉ chars command.2) :
    ∃ effects, helpLoop (entries table) = some effects ∧ calls effects = [] := by
  induction table with
  | nil => exact ⟨[], rfl, rfl⟩
  | cons command table ih =>
    obtain ⟨effects, heffects, hcalls⟩ := ih fun other hother => h other (.tail _ hother)
    have hread := readString_eq (literal_isString (h command (.head _)))
    refine ⟨.output (chars command.2 ++ endl) :: effects, ?_, hcalls⟩
    rw [entries_cons, helpLoop]
    simp only [Option.bind_eq_bind, Option.bind_some, hread, heffects]

/-- The first entry with the name of the line is called, or none. -/
theorem searchLoop_returns {table : List (ApplicationTrigger × String)}
    (h : ∀ command ∈ table, 0 ∉ chars command.2) (hline : IsString str line) :
    ∃ effects, searchLoop str (entries table) = some effects ∧
      calls effects = (((table.find? fun command => chars command.2 = line).map Prod.fst).map
        fun trigger => (trigger, 0)).toList := by
  induction table with
  | nil =>
    refine ⟨[.output (endl ++ chars "Unknown command: " ++ line ++ endl)], ?_, rfl⟩
    rw [entries_nil, searchLoop]
    simp only [Option.bind_eq_bind, Option.bind_some, readString_eq hline]
  | cons command table ih =>
    obtain ⟨effects, heffects, hcalls⟩ := ih fun other hother => h other (.tail _ hother)
    have hcompare := compareCommand_eq hline (literal_isString (h command (.head _)))
    rw [entries_cons, searchLoop]
    simp only [Option.bind_eq_bind, Option.bind_some, hcompare]
    by_cases heq : line = chars command.2
    · refine ⟨[.callOSCTrigger command.1 0], if_pos (decide_eq_true heq), ?_⟩
      rw [List.find?_cons_of_pos (by exact decide_eq_true heq.symm)]
      rfl
    · refine ⟨effects, (if_neg (by simpa using heq)).trans heffects, ?_⟩
      rw [List.find?_cons_of_neg (by simpa using Ne.symm heq), hcalls]

theorem typedCommand_help (config : ConsoleConfig) : typedCommand config (chars "help") = none := by
  rw [typedCommand, List.find?_eq_none.mpr, Option.map_none]
  intro command hmem
  simpa using (commands_name config command hmem).2

theorem Edits.parseCommand (h : s.Edits line) (config : ConsoleConfig) :
    ∃ effects, s.parseCommand config = some effects ∧ calls effects =
      ((typedCommand config line).map fun trigger => (trigger, 0)).toList := by
  have hnames := fun command hmem => (commands_name config command hmem).1
  have hhelp := compareCommand_eq h.isString (literal_isString (t := "help") (by decide))
  have hunsub := compareCommand_eq h.isString (literal_isString (t := "unsub") (by decide))
  obtain ⟨listed, hlisted, hnone⟩ := helpLoop_returns hnames
  obtain ⟨effects, heffects, hcalls⟩ := searchLoop_returns hnames h.isString
  simp only [UARTConsole.parseCommand, Option.bind_eq_bind, Option.bind_some, hhelp, hunsub,
    printHelp, mApplications, hlisted, heffects]
  by_cases heq : line = chars "help"
  · refine ⟨_, if_pos (decide_eq_true heq), ?_⟩
    rw [heq, typedCommand_help]
    exact hnone
  · by_cases hsub : line = chars "unsub"
    · refine ⟨.subscribeEvent :: .unsubscribeEvent :: effects, ?_, hcalls⟩
      rw [if_neg (by simpa using heq), if_pos (decide_eq_true hsub)]
    · refine ⟨effects, ?_, hcalls⟩
      rw [if_neg (by simpa using heq), if_neg (by simpa using hsub)]

/-! ### The keys -/

theorem toNat_key (r : Received) : r.key.toNat = r.char.toNat ∨
    0x80 ≤ r.char.toNat ∧ r.key.toNat = r.char.toNat + 0xFFFFFF00 := by
  cases r with
  | zeroExtended c => exact .inl (BitVec.toNat_setWidth_of_le (by decide))
  | signExtended c =>
    have hkey : (c.signExtend 32).toNat = c.toNat + if c.msb then 0xFFFFFF00 else 0 := by
      rw [BitVec.toNat_signExtend, BitVec.toNat_setWidth_of_le (by decide)]
    cases hmsb : c.msb with
    | true =>
      rw [hmsb, if_pos rfl] at hkey
      have hge : 2 ^ 8 ≤ 2 * c.toNat := BitVec.msb_eq_true_iff_two_mul_ge.mp hmsb
      exact .inr ⟨show 0x80 ≤ c.toNat by omega, hkey⟩
    | false =>
      rw [hmsb, if_neg Bool.false_ne_true] at hkey
      exact .inl hkey

theorem setWidth_key (r : Received) : r.key.setWidth 8 = r.char := by
  have hkey := toNat_key r
  bv_omega

theorem space_le_key (r : Received) : 0x20 ≤ r.key ↔ 0x20 ≤ r.char := by
  have hkey := toNat_key r
  bv_omega

theorem key_eq_backspace (r : Received) : r.key = 0x8 ↔ r.char = 0x8 := by
  have hkey := toNat_key r
  bv_omega

theorem new_edits : new.Edits [] where
  buffer := Vector.toList_replicate
  pointer := rfl
  room := by decide
  nonzero := List.not_mem_nil

/-- An empty line is a cleared buffer. -/
theorem Edits.eq_new (h : s.Edits []) : s = new := by
  obtain ⟨pointer, buffer⟩ := s
  have hpointer : pointer = 0 := BitVec.eq_of_toNat_eq h.pointer
  have hbuffer : buffer = new.mInputBuffer :=
    Vector.toList_inj.mp (h.buffer.trans new_edits.buffer.symm)
  rw [hpointer, hbuffer]
  rfl

theorem clearLoop_getElem {b : Vector (BitVec 8) UART_CONSOLE_BUFFER_SIZE} {pos i : Nat}
    (hi : i < UART_CONSOLE_BUFFER_SIZE) :
    (clearLoop b pos)[i] = if pos ≤ i then 0 else b[i] := by
  induction b, pos using clearLoop.induct with
  | case1 b pos hpos ih =>
    rw [clearLoop, dif_pos hpos, ih, Vector.getElem_set]
    grind
  | case2 b pos hpos =>
    rw [clearLoop, dif_neg hpos, if_neg (by omega)]

theorem clearBuffer_eq : s.clearBuffer = (new, [.output (chars "\n\rCyPhOS > ")]) := by
  have hclear : clearLoop s.mInputBuffer 0 = new.mInputBuffer := by
    ext i hi
    rw [clearLoop_getElem hi, if_pos (Nat.zero_le i), new, Vector.getElem_replicate]
  rw [clearBuffer, hclear]
  rfl

theorem write_eq {pos : BitVec 32} (hpos : pos.toNat < UART_CONSOLE_BUFFER_SIZE) :
    s.write pos c = some (s.mInputBuffer.set pos.toNat c) := dif_pos hpos

theorem succ_lt_size (h : s.Edits line) :
    s.mInputBufferPointer + 1 < BitVec.ofNat 32 UART_CONSOLE_BUFFER_SIZE ↔
      line.length + 1 < UART_CONSOLE_BUFFER_SIZE := by
  have hpointer := h.pointer
  have hroom := h.room
  simp only [UART_CONSOLE_BUFFER_SIZE] at hroom ⊢
  bv_omega

/-- The character comes behind the line, where there is a zero. -/
theorem Edits.store (h : s.Edits line) (hroom : line.length + 1 < UART_CONSOLE_BUFFER_SIZE)
    (hc : c ≠ 0) : ∃ b, s.write s.mInputBufferPointer c = some b ∧
      Edits ⟨s.mInputBufferPointer + 1, b⟩ (line ++ [c]) := by
  have hpos : s.mInputBufferPointer.toNat < UART_CONSOLE_BUFFER_SIZE := h.pointer ▸ h.room
  refine ⟨_, write_eq hpos, ?_, ?_, ?_, ?_⟩
  · rw [Vector.toList_set, h.terminated, h.pointer, List.length_append, List.length_singleton]
    simp
  · have hpointer := h.pointer
    simp only [UART_CONSOLE_BUFFER_SIZE] at hroom
    rw [List.length_append, List.length_singleton]
    bv_omega
  · simpa using hroom
  · intro hmem
    rcases List.mem_append.mp hmem with hmem | hmem
    · exact h.nonzero hmem
    · exact hc (List.mem_singleton.mp hmem).symm

/-- The last character is overwritten by a zero. -/
theorem Edits.erase (h : s.Edits (line ++ [c])) :
    ∃ b, s.write (s.mInputBufferPointer - 1) 0 = some b ∧
      Edits ⟨s.mInputBufferPointer - 1, b⟩ line := by
  have hpointer : s.mInputBufferPointer.toNat = line.length + 1 := by simpa using h.pointer
  have hroom : line.length + 1 < UART_CONSOLE_BUFFER_SIZE := by simpa using h.room
  have hpred : (s.mInputBufferPointer - 1).toNat = line.length := by bv_omega
  have hpos : (s.mInputBufferPointer - 1).toNat < UART_CONSOLE_BUFFER_SIZE := by omega
  refine ⟨_, write_eq hpos, ?_, hpred, by omega, ?_⟩
  · have hk : UART_CONSOLE_BUFFER_SIZE - line.length =
        UART_CONSOLE_BUFFER_SIZE - (line ++ [c]).length + 1 := by
      rw [List.length_append, List.length_singleton]
      omega
    rw [Vector.toList_set, h.buffer, hpred, hk, List.replicate_succ]
    simp
  · exact fun hmem => h.nonzero (List.mem_append_left _ hmem)

/-- With no room for another character the line is thrown away. -/
theorem Edits.handlePrintable (h : s.Edits line) (config : ConsoleConfig) (r : Received)
    (hreturn : ¬IsReturn r.char) (hspace : 0x20 ≤ r.char) :
    ∃ s' effects, s.triggerFunc_handleKey config r.key = some (s', effects) ∧
      s'.Edits (if line.length + 1 < UART_CONSOLE_BUFFER_SIZE then line ++ [r.char] else []) ∧
      calls effects = [] := by
  simp only [triggerFunc_handleKey, setWidth_key]
  rw [if_neg hreturn, if_pos ((space_le_key r).mpr hspace)]
  by_cases hroom : line.length + 1 < UART_CONSOLE_BUFFER_SIZE
  · have hnonzero : r.char ≠ 0 := by bv_omega
    obtain ⟨b, hwrite, hedits⟩ := h.store hroom hnonzero
    rw [if_pos ((succ_lt_size h).mpr hroom), if_pos hroom, hwrite]
    exact ⟨_, _, rfl, hedits, rfl⟩
  · rw [if_neg (mt (succ_lt_size h).mp hroom), if_neg hroom, clearBuffer_eq]
    exact ⟨_, _, rfl, new_edits, rfl⟩

theorem Edits.handleBackspace (h : s.Edits line) (config : ConsoleConfig) (r : Received)
    (hbackspace : r.char = 0x8) :
    ∃ s' effects, s.triggerFunc_handleKey config r.key = some (s', effects) ∧
      s'.Edits line.dropLast ∧ calls effects = [] := by
  have hreturn : ¬IsReturn r.char := hbackspace ▸ by decide
  have hspace : ¬0x20 ≤ r.char := hbackspace ▸ by decide
  have hpointer := h.pointer
  simp only [triggerFunc_handleKey, setWidth_key]
  rw [if_neg hreturn, if_neg (mt (space_le_key r).mp hspace),
    if_pos ((key_eq_backspace r).mpr hbackspace)]
  rcases List.eq_nil_or_concat line with rfl | ⟨line, c, rfl⟩
  · rw [List.length_nil] at hpointer
    have hzero : ¬0 < s.mInputBufferPointer := by bv_omega
    rw [if_neg hzero]
    exact ⟨_, _, rfl, h, rfl⟩
  · rw [List.concat_eq_append] at h hpointer ⊢
    rw [List.length_append, List.length_singleton] at hpointer
    have hpos : 0 < s.mInputBufferPointer := by bv_omega
    obtain ⟨b, hwrite, hedits⟩ := h.erase
    rw [if_pos hpos, hwrite, List.dropLast_concat]
    exact ⟨_, _, rfl, hedits, rfl⟩

/-- What a key does to the buffer is what its character does to the line. -/
theorem Edits.handleKey (h : s.Edits line) (config : ConsoleConfig) (r : Received) :
    ∃ s' effects, s.triggerFunc_handleKey config r.key = some (s', effects) ∧
      s'.Edits (edit line r.char) ∧ calls effects = if IsReturn r.char then
        ((typedCommand config line).map fun trigger => (trigger, 0)).toList else [] := by
  by_cases hreturn : IsReturn r.char
  · obtain ⟨parsed, hparsed, hcalls⟩ := h.parseCommand config
    simp only [triggerFunc_handleKey, setWidth_key]
    rw [edit, if_pos hreturn, if_pos hreturn, if_pos hreturn, hparsed, clearBuffer_eq]
    refine ⟨_, _, rfl, new_edits, ?_⟩
    rw [calls, List.filterMap_append, List.filterMap_append, List.filterMap_append]
    exact ((List.append_nil _).trans (List.append_nil _)).trans hcalls
  rw [edit, if_neg hreturn, if_neg hreturn]
  by_cases hspace : 0x20 ≤ r.char
  · rw [if_pos hspace]
    exact h.handlePrintable config r hreturn hspace
  rw [if_neg hspace]
  by_cases hbackspace : r.char = 0x8
  · rw [if_pos hbackspace]
    exact h.handleBackspace config r hbackspace
  · simp only [triggerFunc_handleKey, setWidth_key]
    rw [if_neg hreturn, if_neg (mt (space_le_key r).mp hspace),
      if_neg (mt (key_eq_backspace r).mp hbackspace), if_neg hbackspace]
    exact ⟨_, _, rfl, h, rfl⟩

theorem Edits.handleKeys (h : s.Edits line) (config : ConsoleConfig) (received : List Received) :
    ∃ s' effects, s.handleKeys config received = some (s', effects) ∧
      s'.Edits ((received.map Received.char).foldl edit line) := by
  induction received generalizing s line with
  | nil => exact ⟨s, [], rfl, h⟩
  | cons r received ih =>
    obtain ⟨s₁, effects, hkey, hedits, -⟩ := h.handleKey config r
    obtain ⟨s', more, hkeys, hedits'⟩ := ih hedits
    refine ⟨s', effects ++ more, ?_, hedits'⟩
    rw [UARTConsole.handleKeys, hkey]
    simp only [Option.bind_eq_bind, Option.bind_some, hkeys]

/-- After any keys the buffer holds the line that is being edited. Return calls the command of this
name, if there is one, and clears the buffer, and no other key calls anything. -/
theorem console_calls_typed (config : ConsoleConfig) (received : List Received) :
    ∃ s effects, new.handleKeys config received = some (s, effects) ∧
      s.Edits (editedLine received) ∧
      ∀ r : Received, ∃ s' effects', s.triggerFunc_handleKey config r.key = some (s', effects') ∧
        (IsReturn r.char → s' = new ∧ calls effects' =
          ((typedCommand config (editedLine received)).map fun trigger => (trigger, 0)).toList) ∧
        (¬IsReturn r.char → calls effects' = []) := by
  obtain ⟨s, effects, hkeys, hedits⟩ := new_edits.handleKeys config received
  refine ⟨s, effects, hkeys, hedits, fun r => ?_⟩
  obtain ⟨s', effects', hkey, hedits', hcalls⟩ := hedits.handleKey config r
  refine ⟨s', effects', hkey, fun hreturn => ⟨?_, ?_⟩, fun hother => ?_⟩
  · rw [edit, if_pos hreturn] at hedits'
    exact hedits'.eq_new
  · exact hcalls.trans (if_pos hreturn)
  · exact hcalls.trans (if_neg hother)

end UARTConsole

end CyPhOS
