import CyPhOS.Common.Exec
import CyPhOS.Lib.BitField

/-! # Input from the serial ports

The drivers wait for a bit of the status register and read a byte from the FIFO. The i.MX6 does so
until the FIFO is empty. On x86 a trigger reads one byte, so it drains a FIFO of one byte only
(`UART.handleInterrupt_drains_iff`). If it leaves as many bytes as the FIFO was programmed to
interrupt at, the line of the interrupt stays asserted and the trigger is not called again
(`UART.handleInterrupt_blocks`).
-/

namespace CyPhOS

open Exec

/-- A receiver with the bytes that wait in its FIFO, and what its driver has passed on. -/
structure SerialReceiver where
  fifo : List (BitVec 8)
  timeout : Bool
  reads : Nat
  passed : List (BitVec 32)

/-- How a receiver answers. The bit `flag` of its status register says if so many bytes wait as the
threshold. The other bits are any function of the number of reads, and an empty FIFO reads as any
byte. -/
structure SerialHardware (w : Nat) where
  flag : Nat
  threshold : Nat
  other : Nat → BitVec w
  stale : BitVec 8

namespace SerialReceiver

variable {w : Nat} (hw : SerialHardware w) (ready : BitVec w → Bool)

def readStatus (s : SerialReceiver) : BitVec w × SerialReceiver :=
  (BitField.set hw.flag (BitVec.ofBool (decide (hw.threshold ≤ s.fifo.length))) (hw.other s.reads),
    { s with reads := s.reads + 1 })

def readData (s : SerialReceiver) : BitVec 8 × SerialReceiver :=
  match s.fifo with
  | [] => (hw.stale, s)
  | c :: fifo => (c, { s with fifo, timeout := false })

/-- The byte goes to the event for characters. -/
def pass (s : SerialReceiver) (arg : BitVec 32) : SerialReceiver :=
  { s with passed := s.passed ++ [arg] }

/-- The loop that waits for the bit, with the status that has been read last. -/
def waitForData : Nat → BitVec w × SerialReceiver → Exec SerialReceiver
  | 0, _ => .error .hang
  | rounds + 1, (regVal, s) =>
    if ready regVal then .ok s else waitForData rounds (s.readStatus hw)

def readC (rounds : Nat) (s : SerialReceiver) : Exec (BitVec 8 × SerialReceiver) := do
  let s ← waitForData hw ready rounds (s.readStatus hw)
  pure (s.readData hw)

end SerialReceiver

namespace UART

open SerialReceiver

/-- The registers of the port, but for the bit of the data. -/
structure Hardware where
  iir : BitVec 8
  lsr : Nat → BitVec 8
  stale : BitVec 8

def Hardware.receiver (hw : Hardware) : SerialHardware 8 := ⟨0, 1, hw.lsr, hw.stale⟩

/-- `interruptPending`, which is 0 if an interrupt is pending. -/
def interruptPending (regVal : BitVec 8) : Bool := regVal.getLsbD 0

def dataReady (regVal : BitVec 8) : Bool := regVal.getLsbD 0

def readC (hw : Hardware) : Nat → SerialReceiver → Exec (BitVec 8 × SerialReceiver) :=
  SerialReceiver.readC hw.receiver dataReady

def handleInterrupt (hw : Hardware) (rounds : Nat) (s : SerialReceiver) : Exec SerialReceiver :=
  let regVal := hw.iir
  if interruptPending regVal = false then do
    let (_, s) := s.readStatus hw.receiver
    let (c, s) ← readC hw rounds s
    pure (s.pass (c.setWidth 32))
  else pure s

inductive Port
  | dataLowBaud
  | interruptEnableHighBaud
  | interruptIdentificationFifoControl
  | lineControl
  | modemControl
  deriving DecidableEq

/-- What the variables of `resetController` hold before they are written to. -/
structure Uninitialized where
  ier_reset : BitVec 8
  fcr_reset : BitVec 8
  mcr_reset : BitVec 8
  fcr_init : BitVec 8
  mcr_init : BitVec 8
  ier_init : BitVec 8

/-- The bytes that are written to the ports. The fields that are not set keep what was there. -/
def resetController (u : Uninitialized) : List (Port × BitVec 8) :=
  [(.dataLowBaud, 0x00#8 ||| u.ier_reset &&& 0xC0#8),
    (.lineControl, 0x80#8),
    (.interruptIdentificationFifoControl, 0x06#8 ||| u.fcr_reset &&& 0x10#8),
    (.modemControl, 0x00#8 ||| u.mcr_reset &&& 0xC0#8),
    (.lineControl, 0x80#8),
    (.dataLowBaud, 0x01#8),
    (.interruptEnableHighBaud, 0x00#8),
    (.lineControl, 0x03#8),
    (.interruptIdentificationFifoControl, 0xC7#8 ||| u.fcr_init &&& 0x10#8),
    (.modemControl, 0x0B#8 ||| u.mcr_init &&& 0xC0#8),
    (.interruptEnableHighBaud, 0x01#8 ||| u.ier_init &&& 0xFE#8)]

/-- How many bytes the FIFO interrupts at. -/
def triggerLevel (fcr : BitVec 8) : Nat :=
  if BitField.get 6 2 fcr = 0#2 then 1
  else if BitField.get 6 2 fcr = 1#2 then 4
  else if BitField.get 6 2 fcr = 2#2 then 8
  else 14

/-- What was written last to the port of the FIFO. -/
def fifoControl (writes : List (Port × BitVec 8)) : BitVec 8 :=
  ((writes.filter fun write => write.1 = .interruptIdentificationFifoControl).getLast?.map
    Prod.snd).getD 0

def cFifoLength : Nat := 16

/-- What happens at the port while the trigger does not run. -/
inductive Event
  | receive (c : BitVec 8)
  /-- Nothing has been read for a while. -/
  | timeout

/-- A byte that finds the FIFO full is lost. -/
def Event.apply (s : SerialReceiver) : Event → SerialReceiver
  | receive c => if s.fifo.length < cFifoLength then { s with fifo := s.fifo ++ [c] } else s
  | timeout => { s with timeout := s.timeout || !s.fifo.isEmpty }

/-- The line of the interrupt, of which only the rising edge counts. -/
def asserted (level : Nat) (s : SerialReceiver) : Bool := level ≤ s.fifo.length || s.timeout

end UART

namespace IMX6Uart

open SerialReceiver

def USR1_RRDY : BitVec 32 := 1 <<< 9

/-- The registers of the port, but for the bit of the data, and its trigger level. -/
structure Hardware where
  rxtl : Nat
  usr1 : Nat → BitVec 32
  stale : BitVec 8

def Hardware.receiver (hw : Hardware) : SerialHardware 32 := ⟨9, hw.rxtl, hw.usr1, hw.stale⟩

def receiverReady (regVal : BitVec 32) : Bool := regVal &&& USR1_RRDY ≠ 0

def readC (hw : Hardware) : Nat → SerialReceiver → Exec (BitVec 8 × SerialReceiver) :=
  SerialReceiver.readC hw.receiver receiverReady

/-- The loop of the handler. -/
def handleInputInterrupt (hw : Hardware) : Nat → SerialReceiver → Exec SerialReceiver
  | 0, _ => .error .hang
  | rounds + 1, s =>
    let (regVal, s) := s.readStatus hw.receiver
    if receiverReady regVal then do
      let (c, s) ← readC hw (rounds + 1) s
      handleInputInterrupt hw rounds (s.pass (c.setWidth 32))
    else pure s

end IMX6Uart

/-! ## Waiting for a byte -/

namespace SerialReceiver

variable {w : Nat} {hw : SerialHardware w} {ready : BitVec w → Bool} {s : SerialReceiver}
  {c : BitVec 8} {fifo : List (BitVec 8)} {rounds : Nat}

/-- The test that the driver makes is that of the bit of the data. -/
structure Tests (hw : SerialHardware w) (ready : BitVec w → Bool) : Prop where
  flag_lt : hw.flag < w
  ready_eq : ∀ regVal, ready regVal = regVal.getLsbD hw.flag

theorem Tests.ready_status (h : Tests hw ready) :
    ready (s.readStatus hw).1 = decide (hw.threshold ≤ s.fifo.length) := by
  rw [h.ready_eq, readStatus, BitField.getLsbD_set h.flag_lt,
    if_pos ⟨Nat.le_refl _, Nat.lt_succ_self _⟩, Nat.sub_self, BitVec.getLsbD_ofBool]
  exact Bool.true_and _

/-- With enough bytes the loop does not wait. -/
theorem readC_ready (h : Tests hw ready) (hfifo : s.fifo = c :: fifo)
    (hlength : hw.threshold ≤ s.fifo.length) :
    readC hw ready (rounds + 1) s =
      .ok (c, { s with fifo, timeout := false, reads := s.reads + 1 }) := by
  have hready := h.ready_status.trans (decide_eq_true hlength)
  rw [readC, waitForData, if_pos hready, ok_bind, pure_eq, readData]
  simp only [readStatus, hfifo]

/-- Nothing arrives, so the loop waits for good. -/
theorem readC_hangs (h : Tests hw ready) (hlength : s.fifo.length < hw.threshold) :
    readC hw ready rounds s = .error .hang := by
  have hwait : ∀ reads, waitForData hw ready rounds ({ s with reads }.readStatus hw) =
      .error .hang := by
    induction rounds with
    | zero => exact fun _ => rfl
    | succ rounds ih =>
      intro reads
      have hready : ready ({ s with reads }.readStatus hw).1 = false :=
        h.ready_status.trans (decide_eq_false (Nat.not_le.mpr hlength))
      rw [waitForData, if_neg (Bool.eq_false_iff.mp hready)]
      exact ih (reads + 1)
  rw [readC, hwait s.reads]
  rfl

end SerialReceiver

/-! ## x86 -/

namespace UART

open SerialReceiver

variable {hw : Hardware} {s : SerialReceiver} {c : BitVec 8} {fifo : List (BitVec 8)}
  {rounds : Nat}

theorem tests : Tests hw.receiver dataReady := ⟨Nat.zero_lt_succ 7, fun _ => rfl⟩

/-- One byte is read and passed. -/
theorem handleInterrupt_cons (hpending : interruptPending hw.iir = false)
    (hfifo : s.fifo = c :: fifo) : handleInterrupt hw (rounds + 1) s =
      .ok { fifo
            timeout := false
            reads := s.reads + 2
            passed := s.passed ++ [c.setWidth 32] } := by
  have hlength : hw.receiver.threshold ≤ (s.readStatus hw.receiver).2.fifo.length :=
    hfifo ▸ Nat.succ_le_succ (Nat.zero_le _)
  rw [handleInterrupt, if_pos hpending]
  simp only [readC]
  rw [readC_ready tests (s := (s.readStatus hw.receiver).2) hfifo hlength]
  rfl

theorem handleInterrupt_zero (hpending : interruptPending hw.iir = false) :
    handleInterrupt hw 0 s = .error .hang := if_pos hpending

theorem handleInterrupt_nil (hpending : interruptPending hw.iir = false) (hfifo : s.fifo = []) :
    handleInterrupt hw rounds s = .error .hang := by
  have hlength : (s.readStatus hw.receiver).2.fifo.length < hw.receiver.threshold :=
    hfifo ▸ Nat.one_pos
  rw [handleInterrupt, if_pos hpending]
  simp only [readC]
  rw [readC_hangs tests hlength]
  rfl

/-- The trigger passes all the bytes if and only if there is one. With no byte it does not
return. -/
theorem handleInterrupt_drains_iff (hpending : interruptPending hw.iir = false) :
    ((∃ rounds s', handleInterrupt hw rounds s = .ok s' ∧ s'.fifo = [] ∧
      s'.passed = s.passed ++ s.fifo.map (·.setWidth 32)) ↔ s.fifo.length = 1) ∧
    (s.fifo = [] → ∀ rounds s', handleInterrupt hw rounds s ≠ .ok s') := by
  rw [List.length_eq_one_iff]
  refine ⟨⟨?_, ?_⟩, fun hfifo rounds s' hreturns => ?_⟩
  · rintro ⟨rounds, s', hreturns, hempty, -⟩
    cases hfifo : s.fifo with
    | nil => cases (handleInterrupt_nil hpending hfifo).symm.trans hreturns
    | cons c fifo =>
      cases rounds with
      | zero => cases (handleInterrupt_zero hpending).symm.trans hreturns
      | succ rounds =>
        rw [handleInterrupt_cons hpending hfifo, Except.ok.injEq] at hreturns
        subst hreturns
        exact ⟨c, congrArg (c :: ·) hempty⟩
  · rintro ⟨c, hfifo⟩
    refine ⟨1, _, handleInterrupt_cons hpending hfifo, rfl, ?_⟩
    rw [hfifo]
    rfl
  · cases (handleInterrupt_nil hpending hfifo).symm.trans hreturns

/-- A FIFO with one byte. -/
theorem handleInterrupt_drains_one : ∃ rounds s',
    handleInterrupt ⟨0xC4, fun _ => 0x60, 0⟩ rounds ⟨[0x41], false, 0, []⟩ = .ok s' ∧
      s'.fifo = [] ∧ s'.passed = [0x41] :=
  (handleInterrupt_drains_iff rfl).1.mpr rfl

/-- The second byte of two stays in the FIFO. -/
theorem handleInterrupt_leaves : ∃ s',
    handleInterrupt ⟨0xC4, fun _ => 0x60, 0⟩ 1 ⟨[0x41, 0x42], false, 0, []⟩ = .ok s' ∧
      s'.fifo = [0x42] ∧ s'.passed = [0x41] :=
  ⟨_, rfl, rfl, rfl⟩

/-! ### The line of the interrupt -/

theorem triggerLevel_resetController (u : Uninitialized) :
    triggerLevel (fifoControl (resetController u)) = 14 := by
  have hlevel : BitField.get 6 2 (0xC7#8 ||| u.fcr_init &&& 0x10#8) = 3#2 := by
    rw [BitField.get, BitVec.extractLsb'_or, BitVec.extractLsb'_and,
      show (0x10#8).extractLsb' 6 2 = 0#2 from rfl, BitVec.and_zero, BitVec.or_zero]
    rfl
  have hlast : fifoControl (resetController u) = 0xC7#8 ||| u.fcr_init &&& 0x10#8 := rfl
  rw [hlast, triggerLevel, hlevel]
  rfl

/-- As long as nothing is read, the bytes stay and the line does not fall. -/
theorem foldl_apply_asserted {level : Nat} (hlevel : level ≤ s.fifo.length) (es : List Event) :
    s.fifo <+: (es.foldl Event.apply s).fifo ∧ (es.foldl Event.apply s).passed = s.passed ∧
      asserted level (es.foldl Event.apply s) = true := by
  induction es generalizing s with
  | nil => exact ⟨List.prefix_rfl, rfl, by simp [asserted, hlevel]⟩
  | cons e es ih =>
    have hstays : s.fifo <+: (e.apply s).fifo := by
      cases e with
      | receive c =>
        rw [Event.apply]
        split
        · exact List.prefix_append ..
        · exact List.prefix_rfl
      | timeout => exact List.prefix_rfl
    have hpassed : (e.apply s).passed = s.passed := by
      cases e with
      | receive c =>
        rw [Event.apply]
        split <;> rfl
      | timeout => rfl
    obtain ⟨hstays', hpassed', hasserted⟩ := ih (hlevel.trans hstays.length_le)
    exact ⟨hstays.trans hstays', hpassed'.trans hpassed, hasserted⟩

/-- The trigger leaves a FIFO of 15 bytes or more with the line asserted. There is no rising edge
any more, so the bytes are not read whatever comes. -/
theorem handleInterrupt_blocks (hpending : interruptPending hw.iir = false) (u : Uninitialized)
    (hlength : 15 ≤ s.fifo.length) : ∃ s', handleInterrupt hw 1 s = .ok s' ∧
      ∀ es : List Event, s'.fifo <+: (es.foldl Event.apply s').fifo ∧
        (es.foldl Event.apply s').passed = s'.passed ∧
        asserted (triggerLevel (fifoControl (resetController u)))
          (es.foldl Event.apply s') = true := by
  rw [triggerLevel_resetController]
  cases hfifo : s.fifo with
  | nil =>
    rw [hfifo] at hlength
    cases hlength
  | cons c fifo =>
    rw [hfifo] at hlength
    refine ⟨_, handleInterrupt_cons hpending hfifo, fun es => foldl_apply_asserted ?_ es⟩
    exact Nat.le_of_succ_le_succ hlength

end UART

/-! ## i.MX6 -/

namespace IMX6Uart

open SerialReceiver

variable {hw : Hardware} {s : SerialReceiver}

theorem tests : Tests hw.receiver receiverReady := by
  refine ⟨show 9 < 32 by decide, fun regVal => ?_⟩
  rw [receiverReady, show USR1_RRDY = BitVec.twoPow 32 9 from rfl, BitVec.and_twoPow]
  change _ = regVal.getLsbD 9
  cases regVal.getLsbD 9 <;> rfl

/-- With a trigger level of one byte the loop drains the FIFO. -/
theorem handleInputInterrupt_drains (hlevel : hw.rxtl = 1) {rounds : Nat}
    (hrounds : s.fifo.length < rounds) : ∃ s', handleInputInterrupt hw rounds s = .ok s' ∧
      s'.fifo = [] ∧ s'.passed = s.passed ++ s.fifo.map (·.setWidth 32) := by
  have hthreshold : hw.receiver.threshold = 1 := hlevel
  generalize hfifo : s.fifo = fifo at hrounds ⊢
  induction fifo generalizing s rounds with
  | nil =>
    obtain ⟨rounds, rfl⟩ : ∃ k, rounds = k + 1 := ⟨rounds - 1, by omega⟩
    have hstop : ¬receiverReady (s.readStatus hw.receiver).1 = true := by
      rw [tests.ready_status, hthreshold, hfifo]
      decide
    rw [handleInputInterrupt]
    exact ⟨_, if_neg hstop, hfifo, (List.append_nil _).symm⟩
  | cons c fifo ih =>
    rw [List.length_cons] at hrounds
    obtain ⟨rounds, rfl⟩ : ∃ k, rounds = k + 1 := ⟨rounds - 1, by omega⟩
    have hlength : hw.receiver.threshold ≤ s.fifo.length := by
      rw [hthreshold, hfifo]
      exact Nat.succ_le_succ (Nat.zero_le _)
    have hready := (tests.ready_status (s := s)).trans (decide_eq_true hlength)
    obtain ⟨s', hreturns, hempty, hpassed⟩ :=
      ih (s := ⟨fifo, false, s.reads + 2, s.passed ++ [c.setWidth 32]⟩)
        rfl (show fifo.length < rounds by omega)
    refine ⟨s', ?_, hempty, ?_⟩
    · rw [handleInputInterrupt]
      simp only [hready, if_true, readC]
      rw [readC_ready tests (s := (s.readStatus hw.receiver).2) hfifo hlength]
      exact hreturns
    · rw [hpassed, List.map_cons, List.append_assoc]
      rfl

end IMX6Uart

end CyPhOS
