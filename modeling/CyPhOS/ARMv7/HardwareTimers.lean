import CyPhOS.Lib.BitField
import CyPhOS.Lib.MatchTimer
import Mathlib.Data.List.Chain

/-! # The global timers

Both timers count in 64 bits, of which a register shows the lower and another one the upper half.
`setPeriodic` sets the comparator to the new `pTimerValue` and the increment of the comparator to
its lower half: the matches are periodic if there is nothing in the upper half
(`setPeriodic_exact_iff`).

`getHardwareTicks` reads the halves one after the other. A read is torn if the lower half wraps
around in between (`getHardwareTicks_between_iff`).
-/

namespace CyPhOS

/-- A value of 64 bits from two registers. -/
def joinHalves (low high : BitVec 32) : BitVec 64 := low.setWidth 64 ||| (high.setWidth 64 <<< 32)

theorem toNat_joinHalves {low high : BitVec 32} :
    (joinHalves low high).toNat = high.toNat * 2 ^ 32 + low.toNat := by
  have hhigh := high.isLt
  have hlow := low.isLt
  have hshift : (high.setWidth 64 <<< 32).toNat = high.toNat * 2 ^ 32 := by
    rw [BitVec.toNat_shiftLeft, BitVec.toNat_setWidth_of_le (by decide), Nat.shiftLeft_eq]
    exact Nat.mod_eq_of_lt (by omega)
  rw [joinHalves, BitVec.toNat_or, hshift, BitVec.toNat_setWidth_of_le (by decide), Nat.or_comm,
    BitField.or_flags (Nat.dvd_mul_left _ _) hlow]

theorem joinHalves_halves {value : BitVec 64} :
    joinHalves (value.setWidth 32) ((value >>> 32).setWidth 32) = value := by
  apply BitVec.eq_of_toNat_eq
  have hvalue := value.isLt
  rw [toNat_joinHalves, BitVec.toNat_setWidth, BitVec.toNat_setWidth, BitVec.toNat_ushiftRight,
    Nat.shiftRight_eq_div_pow]
  omega

/-! ## Reading the counter -/

/-- Which half is read first. C++ leaves the order of the operands of `|` open; as written, the
lower half comes first. -/
inductive ReadOrder
  | lowerFirst
  | upperFirst
  deriving DecidableEq, Repr

/-- The counter is at `start` when the first half is read, and `advance` further at the second. -/
structure CounterRead where
  order : ReadOrder
  start : BitVec 64
  advance : BitVec 32
  deriving DecidableEq, Repr

namespace CounterRead

variable (read : CounterRead)

/-- The counter at the second read. -/
def stop : BitVec 64 := read.start + read.advance.setWidth 64

def value : BitVec 64 :=
  match read.order with
  | .lowerFirst => joinHalves (read.start.setWidth 32) ((read.stop >>> 32).setWidth 32)
  | .upperFirst => joinHalves (read.stop.setWidth 32) ((read.start >>> 32).setWidth 32)

end CounterRead

/-- The last line of `getHardwareTicks`, which divides by 0 before the first `setPeriodic`. -/
def hardwareTicks (pTimerValue retVal : BitVec 64) : Option (BitVec 64) :=
  if pTimerValue = 0 then none else some (retVal / pTimerValue)

/-! ## The timers -/

inductive GlobalTimerMode
  | oneshot
  | periodic
  deriving DecidableEq, Repr

/-- The registers and the fields of the object that `setPeriodic` writes. -/
structure CortexA9GlobalTimer where
  counterRegister0 : BitVec 32
  counterRegister1 : BitVec 32
  comparatorRegister0 : BitVec 32
  comparatorRegister1 : BitVec 32
  controlRegister : BitVec 32
  autoincrementRegister : BitVec 32
  pTimerValue : BitVec 64
  pMode : GlobalTimerMode
  mTimerInterval : BitVec 32

namespace CortexA9GlobalTimer

/-- `periphClock` is what `getPeripheralClock` returns. -/
def setPeriodic (t : CortexA9GlobalTimer) (periphClock : BitVec 32) (us : BitVec 64) :
    CortexA9GlobalTimer :=
  let controlReg := t.controlRegister &&& ~~~0x1#32
  let t := { t with controlRegister := controlReg }
  let prescaleValue := 0x00#8
  let preScaleMask := 0#32 ||| (prescaleValue.setWidth 32 <<< 8)
  let t : CortexA9GlobalTimer :=
    { t with pTimerValue := (periphClock / 1000000#32).setWidth 64 * us - 1 }
  let lowBits := t.pTimerValue.setWidth 32
  let highBits := (t.pTimerValue >>> 32).setWidth 32
  let t := { t with comparatorRegister0 := lowBits, comparatorRegister1 := highBits }
  let t := { t with autoincrementRegister := lowBits }
  let t := { t with counterRegister0 := 0, counterRegister1 := 0 }
  let controlReg := controlReg &&& ~~~(0xFF#32 <<< 8)
  let controlReg := controlReg ||| preScaleMask
  let t := { t with controlRegister := controlReg, pMode := .periodic }
  let controlReg := controlReg ||| (0x1#32 ||| 0x2#32 ||| 0x8#32)
  { t with controlRegister := controlReg, mTimerInterval := us.setWidth 32 }

/-- The comparator of a timer that runs; bit 3 of the control register enables the increment. -/
def matchTimer (t : CortexA9GlobalTimer) : MatchTimer 64 where
  counter := joinHalves t.counterRegister0 t.counterRegister1
  comparator := joinHalves t.comparatorRegister0 t.comparatorRegister1
  increment := if t.controlRegister.getLsbD 3 then t.autoincrementRegister.setWidth 64 else 0

def getHardwareTicks (t : CortexA9GlobalTimer) (read : CounterRead) : Option (BitVec 64) :=
  let retVal := read.value
  hardwareTicks t.pTimerValue retVal

end CortexA9GlobalTimer

/-- The registers and the fields of the object that `setPeriodic` writes. The status registers, on
which `writeMCTRegister` waits for a while after each write, are left out. -/
structure ExynosMultiCoreTimer where
  countLower : BitVec 32
  countUpper : BitVec 32
  comparator0Lower : BitVec 32
  comparator0Upper : BitVec 32
  comparator0AddIncrement : BitVec 32
  timerConfig : BitVec 32
  timerInterruptEnable : BitVec 32
  pTimerValue : BitVec 64
  mTimerInterval : BitVec 32

namespace ExynosMultiCoreTimer

def FREQ_INPUT : BitVec 32 := 24000000

def MCT_GLOBAL_TCON_START : BitVec 32 := 1 <<< 8

def MCT_GLOBAL_TCON_COMP0_AUTO_INC : BitVec 32 := 1 <<< 1

def MCT_GLOBAL_TCON_COMP0_ENABLE : BitVec 32 := 1 <<< 0

def disableGlobal (t : ExynosMultiCoreTimer) : ExynosMultiCoreTimer :=
  let globalCon := t.timerConfig &&&
    ~~~(MCT_GLOBAL_TCON_COMP0_AUTO_INC ||| MCT_GLOBAL_TCON_COMP0_ENABLE)
  let t := { t with timerConfig := globalCon }
  { t with timerInterruptEnable := 0x0 }

def setPeriodic (t : ExynosMultiCoreTimer) (us : BitVec 64) : ExynosMultiCoreTimer :=
  let t := t.disableGlobal
  let timerClk := FREQ_INPUT
  let t : ExynosMultiCoreTimer :=
    { t with pTimerValue := (timerClk / 1000000#32).setWidth 64 * us }
  let t : ExynosMultiCoreTimer :=
    { t with comparator0AddIncrement := t.pTimerValue.setWidth 32 }
  let globalCon := t.timerConfig |||
    (MCT_GLOBAL_TCON_COMP0_AUTO_INC ||| MCT_GLOBAL_TCON_COMP0_ENABLE ||| MCT_GLOBAL_TCON_START)
  let lowBits := t.pTimerValue.setWidth 32
  let highBits := (t.pTimerValue >>> 32).setWidth 32
  let t := { t with comparator0Lower := lowBits, comparator0Upper := highBits }
  let t := { t with countLower := 0x0, countUpper := 0x0 }
  let t := { t with timerInterruptEnable := 0x1 }
  let t := { t with timerConfig := globalCon }
  { t with mTimerInterval := us.setWidth 32 }

/-- The comparator of a timer that runs; bit 1 of the configuration enables the increment. -/
def matchTimer (t : ExynosMultiCoreTimer) : MatchTimer 64 where
  counter := joinHalves t.countLower t.countUpper
  comparator := joinHalves t.comparator0Lower t.comparator0Upper
  increment := if t.timerConfig.getLsbD 1 then t.comparator0AddIncrement.setWidth 64 else 0

def getHardwareTicks (t : ExynosMultiCoreTimer) (read : CounterRead) : Option (BitVec 64) :=
  let retVal := read.value
  hardwareTicks t.pTimerValue retVal

end ExynosMultiCoreTimer

/-! ## Periodic matches -/

/-- A timer whose increment is the lower half of its first match. -/
structure LowerHalfIncrement (m : MatchTimer 64) (pTimerValue : BitVec 64) : Prop where
  counter : m.counter = 0
  comparator : m.comparator = pTimerValue
  increment : m.increment = (pTimerValue.setWidth 32).setWidth 64

variable {m : MatchTimer 64} {pTimerValue : BitVec 64}

/-- An increment of 0 is one of `2 ^ 64`. -/
theorem LowerHalfIncrement.starts (h : LowerHalfIncrement m pTimerValue)
    (hpos : 0 < pTimerValue.toNat) : m.Starts pTimerValue.toNat
      (if pTimerValue.toNat % 2 ^ 32 = 0 then 2 ^ 64 else pTimerValue.toNat % 2 ^ 32) := by
  have hlt := pTimerValue.isLt
  refine ⟨h.counter, ?_, ?_, hpos, hlt.le, ?_, ?_⟩
  · rw [h.comparator, BitVec.ofNat_toNat, BitVec.setWidth_eq]
  · apply BitVec.eq_of_toNat_eq
    rw [h.increment, BitVec.toNat_setWidth_of_le (by decide), BitVec.toNat_setWidth,
      BitVec.toNat_ofNat]
    split <;> omega
  · split <;> omega
  · split <;> omega

/-- The matches are periodic if the upper half is zero. -/
theorem LowerHalfIncrement.nth_matches_iff (h : LowerHalfIncrement m pTimerValue)
    (hpos : 0 < pTimerValue.toNat) :
    (∀ k ≥ 1, Nat.nth m.Matches (k - 1) = k * pTimerValue.toNat) ↔ pTimerValue.toNat < 2 ^ 32 := by
  have hlt := pTimerValue.isLt
  rw [(h.starts hpos).nth_matches_multiple_iff]
  split <;> omega

theorem joinHalves_zero : joinHalves 0 0 = 0 := by decide

/-- The increment is enabled. -/
theorem CortexA9GlobalTimer.getLsbD_controlRegister {t : CortexA9GlobalTimer}
    {periphClock : BitVec 32} {us : BitVec 64} :
    (t.setPeriodic periphClock us).controlRegister.getLsbD 3 = true := by
  simp [setPeriodic]

theorem CortexA9GlobalTimer.lowerHalfIncrement {t : CortexA9GlobalTimer}
    {periphClock : BitVec 32} {us : BitVec 64} :
    LowerHalfIncrement (t.setPeriodic periphClock us).matchTimer
      (t.setPeriodic periphClock us).pTimerValue where
  counter := joinHalves_zero
  comparator := joinHalves_halves
  increment := if_pos getLsbD_controlRegister

theorem ExynosMultiCoreTimer.getLsbD_timerConfig {t : ExynosMultiCoreTimer} {us : BitVec 64} :
    (t.setPeriodic us).timerConfig.getLsbD 1 = true := by
  simp [setPeriodic, MCT_GLOBAL_TCON_COMP0_AUTO_INC]

theorem ExynosMultiCoreTimer.lowerHalfIncrement {t : ExynosMultiCoreTimer} {us : BitVec 64} :
    LowerHalfIncrement (t.setPeriodic us).matchTimer (t.setPeriodic us).pTimerValue where
  counter := joinHalves_zero
  comparator := joinHalves_halves
  increment := if_pos getLsbD_timerConfig

theorem CortexA9GlobalTimer.toNat_pTimerValue {t : CortexA9GlobalTimer} {periphClock : BitVec 32}
    {us : BitVec 64} (hpos : 0 < periphClock.toNat / 1000000 * us.toNat)
    (hfits : periphClock.toNat / 1000000 * us.toNat ≤ 2 ^ 64) :
    (t.setPeriodic periphClock us).pTimerValue.toNat =
      periphClock.toNat / 1000000 * us.toNat - 1 := by
  have hclock : ((periphClock / 1000000#32).setWidth 64).toNat = periphClock.toNat / 1000000 := by
    rw [BitVec.toNat_setWidth_of_le (by decide), BitVec.toNat_udiv]
    rfl
  rw [setPeriodic, BitVec.toNat_sub, BitVec.toNat_mul, hclock]
  generalize periphClock.toNat / 1000000 * us.toNat = p at hpos hfits
  change (2 ^ 64 - 1 + p % 2 ^ 64) % 2 ^ 64 = p - 1
  omega

theorem ExynosMultiCoreTimer.toNat_pTimerValue {t : ExynosMultiCoreTimer} {us : BitVec 64}
    (hfits : 24 * us.toNat < 2 ^ 64) : (t.setPeriodic us).pTimerValue.toNat = 24 * us.toNat := by
  have hclock : ((FREQ_INPUT / 1000000#32).setWidth 64).toNat = 24 := by decide
  rw [setPeriodic, BitVec.toNat_mul, hclock, Nat.mod_eq_of_lt hfits]

/-- The `k`-th match after `setPeriodic` is at `k` times `pTimerValue` for all `k` if `pTimerValue`
fits the increment. -/
theorem setPeriodic_exact_iff (t : CortexA9GlobalTimer) (t' : ExynosMultiCoreTimer)
    (periphClock : BitVec 32) (us : BitVec 64) :
    (1 < periphClock.toNat / 1000000 * us.toNat →
      periphClock.toNat / 1000000 * us.toNat ≤ 2 ^ 64 →
      ((∀ k ≥ 1, Nat.nth (t.setPeriodic periphClock us).matchTimer.Matches (k - 1) =
          k * (t.setPeriodic periphClock us).pTimerValue.toNat) ↔
        periphClock.toNat / 1000000 * us.toNat ≤ 2 ^ 32)) ∧
    (0 < us.toNat → 24 * us.toNat < 2 ^ 64 →
      ((∀ k ≥ 1, Nat.nth (t'.setPeriodic us).matchTimer.Matches (k - 1) =
          k * (t'.setPeriodic us).pTimerValue.toNat) ↔
        24 * us.toNat < 2 ^ 32)) := by
  constructor
  · intro hpos hfits
    have hvalue := CortexA9GlobalTimer.toNat_pTimerValue (t := t) (Nat.lt_of_succ_lt hpos) hfits
    rw [CortexA9GlobalTimer.lowerHalfIncrement.nth_matches_iff (by omega), hvalue]
    omega
  · intro hpos hfits
    have hvalue := ExynosMultiCoreTimer.toNat_pTimerValue (t := t') hfits
    rw [ExynosMultiCoreTimer.lowerHalfIncrement.nth_matches_iff (by omega), hvalue]

/-- Timers before the first call. -/
def CortexA9GlobalTimer.zeroed : CortexA9GlobalTimer := ⟨0, 0, 0, 0, 0, 0, 0, .oneshot, 1⟩

def ExynosMultiCoreTimer.zeroed : ExynosMultiCoreTimer := ⟨0, 0, 0, 0, 0, 0, 0, 0, 1⟩

/-- Once a second. -/
theorem setPeriodic_exact_second :
    (∀ k ≥ 1, Nat.nth
        (CortexA9GlobalTimer.zeroed.setPeriodic 396000000 1000000).matchTimer.Matches (k - 1) =
      k * (CortexA9GlobalTimer.zeroed.setPeriodic 396000000 1000000).pTimerValue.toNat) ∧
    ∀ k ≥ 1, Nat.nth (ExynosMultiCoreTimer.zeroed.setPeriodic 1000000).matchTimer.Matches (k - 1) =
      k * (ExynosMultiCoreTimer.zeroed.setPeriodic 1000000).pTimerValue.toNat := by
  obtain ⟨hcortex, hexynos⟩ := setPeriodic_exact_iff .zeroed .zeroed 396000000 1000000
  exact ⟨(hcortex (by decide) (by decide)).mpr (by decide),
    (hexynos (by decide) (by decide)).mpr (by decide)⟩

/-- Once in three minutes, 8 counts more than the increment holds: the second match comes 8 counts
after the first one. -/
theorem setPeriodic_misses :
    ¬ ((∀ (t : CortexA9GlobalTimer) (periphClock : BitVec 32) (us : BitVec 64),
      1 < periphClock.toNat / 1000000 * us.toNat →
      periphClock.toNat / 1000000 * us.toNat ≤ 2 ^ 64 →
      ∀ k ≥ 1, Nat.nth (t.setPeriodic periphClock us).matchTimer.Matches (k - 1) =
        k * (t.setPeriodic periphClock us).pTimerValue.toNat) ∧
    ∀ (t : ExynosMultiCoreTimer) (us : BitVec 64), 0 < us.toNat → 24 * us.toNat < 2 ^ 64 →
      ∀ k ≥ 1, Nat.nth (t.setPeriodic us).matchTimer.Matches (k - 1) =
        k * (t.setPeriodic us).pTimerValue.toNat) := by
  rintro ⟨-, h⟩
  have hall := h .zeroed 178956971 (by decide) (by decide)
  rw [ExynosMultiCoreTimer.lowerHalfIncrement.nth_matches_iff (by decide)] at hall
  revert hall
  decide

/-! ## Torn reads -/

variable {read : CounterRead}

/-- The result lies between the ticks at the first and at the second read. -/
def Between (pTimerValue : BitVec 64) (read : CounterRead) (ticks : Option (BitVec 64)) : Prop :=
  ∃ x, ticks = some x ∧ read.start.toNat / pTimerValue.toNat ≤ x.toNat ∧
    x.toNat ≤ read.stop.toNat / pTimerValue.toNat

/-- No tick starts in the range by which a torn value is wrong. -/
def SameTicks (pTimerValue : BitVec 64) (read : CounterRead) : Prop :=
  match read.order with
  | .lowerFirst => (read.start.toNat + read.advance.toNat) / pTimerValue.toNat =
      (read.start.toNat + 2 ^ 32) / pTimerValue.toNat
  | .upperFirst => (read.start.toNat + read.advance.toNat - 2 ^ 32) / pTimerValue.toNat =
      read.start.toNat / pTimerValue.toNat

/-- The lower half does not wrap around, or the torn value makes no difference, or the whole counter
wraps around within its first tick. -/
def Untorn (pTimerValue : BitVec 64) (read : CounterRead) : Prop :=
  read.start.toNat % 2 ^ 32 + read.advance.toNat < 2 ^ 32 ∨
    read.start.toNat + read.advance.toNat < 2 ^ 64 ∧ SameTicks pTimerValue read ∨
    2 ^ 64 ≤ read.start.toNat + read.advance.toNat ∧ read.start.toNat < pTimerValue.toNat

theorem toNat_stop :
    read.stop.toNat = (read.start.toNat + read.advance.toNat) % 2 ^ 64 := by
  rw [CounterRead.stop, BitVec.toNat_add, BitVec.toNat_setWidth_of_le (by decide)]

theorem toNat_lowerHalf {value : BitVec 64} :
    (value.setWidth 32).toNat = value.toNat % 2 ^ 32 := BitVec.toNat_setWidth ..

theorem toNat_upperHalf {value : BitVec 64} :
    ((value >>> 32).setWidth 32).toNat = value.toNat / 2 ^ 32 := by
  have := value.isLt
  rw [BitVec.toNat_setWidth, BitVec.toNat_ushiftRight, Nat.shiftRight_eq_div_pow]
  exact Nat.mod_eq_of_lt (by omega)

theorem toNat_value_lowerFirst (read : CounterRead) (horder : read.order = .lowerFirst) :
    read.value.toNat =
    if read.start.toNat % 2 ^ 32 + read.advance.toNat < 2 ^ 32 then read.start.toNat
    else if read.start.toNat + read.advance.toNat < 2 ^ 64 then read.start.toNat + 2 ^ 32
    else read.start.toNat % 2 ^ 32 := by
  rw [CounterRead.value, horder]
  dsimp only
  rw [toNat_joinHalves, toNat_upperHalf, toNat_lowerHalf, toNat_stop]
  have := read.start.isLt
  have := read.advance.isLt
  split
  · omega
  · split <;> omega

theorem toNat_value_upperFirst (read : CounterRead) (horder : read.order = .upperFirst) :
    read.value.toNat =
    if read.start.toNat % 2 ^ 32 + read.advance.toNat < 2 ^ 32 then
      read.start.toNat + read.advance.toNat
    else read.start.toNat + read.advance.toNat - 2 ^ 32 := by
  rw [CounterRead.value, horder]
  dsimp only
  rw [toNat_joinHalves, toNat_upperHalf, toNat_lowerHalf, toNat_stop]
  have := read.start.isLt
  have := read.advance.isLt
  split <;> omega

/-- The tick of the combined value lies between those at the reads. -/
def Brackets (T : Nat) (read : CounterRead) : Prop :=
  read.start.toNat / T ≤ read.value.toNat / T ∧ read.value.toNat / T ≤ read.stop.toNat / T

theorem between_hardwareTicks_iff :
    Between pTimerValue read (hardwareTicks pTimerValue read.value) ↔
      pTimerValue ≠ 0 ∧ Brackets pTimerValue.toNat read := by
  rw [Between, hardwareTicks, Brackets]
  by_cases hzero : pTimerValue = 0
  · simp [hzero]
  · rw [if_neg hzero, and_iff_right hzero]
    simp only [Option.some.injEq, exists_eq_left', BitVec.toNat_udiv]

/-- When the whole counter has wrapped around, the tick number is a lower one, unless it was 0. -/
theorem div_lt_div_of_wrap {T C S : Nat} (hT : T ≠ 0) (hle : T ≤ C) (hS : 2 * S < C) :
    S / T < C / T := by
  rcases Nat.lt_or_ge S T with hlt | hge
  · rw [Nat.div_eq_of_lt hlt]
    exact Nat.div_pos hle (Nat.pos_of_ne_zero hT)
  · have hnext : (S + T) / T = S / T + 1 := Nat.add_div_right S (Nat.pos_of_ne_zero hT)
    have hmono : (S + T) / T ≤ C / T := Nat.div_le_div_right (by omega)
    omega

section
variable {T : Nat}

theorem div_start_le : read.start.toNat / T ≤ (read.start.toNat + read.advance.toNat) / T :=
  Nat.div_le_div_right (Nat.le_add_right ..)

/-- Without a wrap of the lower half the value is the counter at one of the reads. -/
theorem brackets_of_lt (hlow : read.start.toNat % 2 ^ 32 + read.advance.toNat < 2 ^ 32) :
    Brackets T read := by
  have hc := read.start.isLt
  rw [Brackets, toNat_stop, Nat.mod_eq_of_lt (by omega)]
  cases horder : read.order with
  | lowerFirst =>
    rw [toNat_value_lowerFirst read horder, if_pos hlow]
    exact ⟨Nat.le_refl _, div_start_le⟩
  | upperFirst =>
    rw [toNat_value_upperFirst read horder, if_pos hlow]
    exact ⟨div_start_le, Nat.le_refl _⟩

/-- A torn value is wrong by a step of the upper half. -/
theorem brackets_torn_iff (hlow : ¬read.start.toNat % 2 ^ 32 + read.advance.toNat < 2 ^ 32)
    (hfull : read.start.toNat + read.advance.toNat < 2 ^ 64) :
    Brackets pTimerValue.toNat read ↔ SameTicks pTimerValue read := by
  have hd := read.advance.isLt
  rw [Brackets, SameTicks, toNat_stop, Nat.mod_eq_of_lt hfull]
  cases horder : read.order with
  | lowerFirst =>
    have hover : (read.start.toNat + read.advance.toNat) / pTimerValue.toNat ≤
        (read.start.toNat + 2 ^ 32) / pTimerValue.toNat := Nat.div_le_div_right (by omega)
    rw [toNat_value_lowerFirst read horder, if_neg hlow, if_pos hfull]
    exact ⟨fun h => Nat.le_antisymm hover h.2, fun h => ⟨div_start_le.trans hover, h.ge⟩⟩
  | upperFirst =>
    have hunder : (read.start.toNat + read.advance.toNat - 2 ^ 32) / pTimerValue.toNat ≤
        read.start.toNat / pTimerValue.toNat := Nat.div_le_div_right (by omega)
    rw [toNat_value_upperFirst read horder, if_neg hlow]
    exact ⟨fun h => Nat.le_antisymm hunder h.1, fun h => ⟨h.ge, hunder.trans div_start_le⟩⟩

/-- When the whole counter wraps around, the tick at the second read is 0, or at least lower than at
the first. -/
theorem brackets_wrapped_iff (hT : T ≠ 0)
    (hfull : 2 ^ 64 ≤ read.start.toNat + read.advance.toNat) :
    Brackets T read ↔ read.start.toNat < T := by
  have hc := read.start.isLt
  have hd := read.advance.isLt
  have hstop : read.stop.toNat = read.start.toNat + read.advance.toNat - 2 ^ 64 := by
    rw [toNat_stop]
    omega
  rw [Brackets, hstop]
  constructor
  · intro h
    by_contra hge
    have hlt := div_lt_div_of_wrap (S := read.start.toNat + read.advance.toNat - 2 ^ 64) hT
      (Nat.le_of_not_lt hge) (by omega)
    exact Nat.not_le_of_lt hlt (h.1.trans h.2)
  · intro hlt
    have hvalue : read.value.toNat < T := by
      cases horder : read.order with
      | lowerFirst =>
        rw [toNat_value_lowerFirst read horder, if_neg (by omega), if_neg (by omega)]
        omega
      | upperFirst =>
        rw [toNat_value_upperFirst read horder, if_neg (by omega)]
        omega
    rw [Nat.div_eq_of_lt hlt, Nat.div_eq_of_lt hvalue, Nat.div_eq_of_lt (by omega)]
    exact ⟨Nat.le_refl _, Nat.le_refl _⟩

end

theorem between_value_iff : Between pTimerValue read (hardwareTicks pTimerValue read.value) ↔
    pTimerValue ≠ 0 ∧ Untorn pTimerValue read := by
  rw [between_hardwareTicks_iff, Untorn]
  refine and_congr_right fun hne => ?_
  by_cases hlow : read.start.toNat % 2 ^ 32 + read.advance.toNat < 2 ^ 32
  · exact iff_of_true (brackets_of_lt hlow) (.inl hlow)
  rw [or_iff_right hlow]
  rcases Nat.lt_or_ge (read.start.toNat + read.advance.toNat) (2 ^ 64) with hfull | hfull
  · rw [brackets_torn_iff hlow hfull, or_iff_left fun h => Nat.not_le_of_lt hfull h.1,
      and_iff_right hfull]
  · have hT : pTimerValue.toNat ≠ 0 := fun h => hne (BitVec.eq_of_toNat_eq h)
    rw [brackets_wrapped_iff hT hfull, or_iff_right fun h => Nat.not_le_of_lt h.1 hfull,
      and_iff_right hfull]

/-- The reads follow one another on a counter that does not go back. -/
def Successive (reads : List CounterRead) : Prop :=
  reads.IsChain fun read next => read.stop.toNat ≤ next.start.toNat

/-- The calls return ticks that do not go back. -/
def MonotoneTicks (getHardwareTicks : CounterRead → Option (BitVec 64)) (reads : List CounterRead) :
    Prop :=
  ∃ ticks : List (BitVec 64), reads.map getHardwareTicks = ticks.map some ∧ ticks.Pairwise (· ≤ ·)

theorem Successive.monotoneTicks {reads : List CounterRead} (h : Successive reads)
    {getHardwareTicks : CounterRead → Option (BitVec 64)}
    (hbetween : ∀ read ∈ reads, Between pTimerValue read (getHardwareTicks read)) :
    MonotoneTicks getHardwareTicks reads := by
  suffices hchain : ∃ ticks : List (BitVec 64), reads.map getHardwareTicks = ticks.map some ∧
      ticks.IsChain (· ≤ ·) by
    obtain ⟨ticks, hticks, hchain⟩ := hchain
    exact ⟨ticks, hticks, List.isChain_iff_pairwise.mp hchain⟩
  induction reads with
  | nil => exact ⟨[], rfl, .nil⟩
  | cons read reads ih =>
    obtain ⟨x, hx, -, hxstop⟩ := hbetween read (List.mem_cons_self ..)
    obtain ⟨ticks, hticks, hchain⟩ := ih h.tail fun r hr => hbetween r (List.mem_cons_of_mem _ hr)
    refine ⟨x :: ticks, by rw [List.map_cons, List.map_cons, hx, hticks], ?_⟩
    cases reads with
    | nil =>
      obtain rfl : ticks = [] := List.map_eq_nil_iff.mp hticks.symm
      exact .singleton x
    | cons next reads =>
      obtain ⟨y, ticks, rfl⟩ : ∃ y rest, ticks = y :: rest := by
        cases ticks with
        | nil => cases hticks
        | cons y rest => exact ⟨y, rest, rfl⟩
      refine .cons_cons ?_ hchain
      obtain ⟨y', hy', hystart, -⟩ := hbetween next (by simp)
      rw [List.map_cons, List.map_cons, hy'] at hticks
      obtain rfl : y' = y := Option.some.inj (List.cons.inj hticks).1
      have hstep : read.stop.toNat ≤ next.start.toNat := (List.isChain_cons_cons.mp h).1
      exact BitVec.le_def.mpr (hxstop.trans ((Nat.div_le_div_right hstep).trans hystart))

/-- When a call of `getHardwareTicks` returns a tick between those at its reads. Successive calls
that do are monotone. -/
theorem getHardwareTicks_between_iff (t : CortexA9GlobalTimer) (t' : ExynosMultiCoreTimer) :
    (∀ read, Between t.pTimerValue read (t.getHardwareTicks read) ↔
      t.pTimerValue ≠ 0 ∧ Untorn t.pTimerValue read) ∧
    (∀ reads, Successive reads → t.pTimerValue ≠ 0 →
      (∀ read ∈ reads, Untorn t.pTimerValue read) → MonotoneTicks t.getHardwareTicks reads) ∧
    (∀ read, Between t'.pTimerValue read (t'.getHardwareTicks read) ↔
      t'.pTimerValue ≠ 0 ∧ Untorn t'.pTimerValue read) ∧
    ∀ reads, Successive reads → t'.pTimerValue ≠ 0 →
      (∀ read ∈ reads, Untorn t'.pTimerValue read) → MonotoneTicks t'.getHardwareTicks reads :=
  ⟨fun _ => between_value_iff,
    fun _ h hne huntorn => h.monotoneTicks fun r hr => between_value_iff.mpr ⟨hne, huntorn r hr⟩,
    fun _ => between_value_iff,
    fun _ h hne huntorn => h.monotoneTicks fun r hr => between_value_iff.mpr ⟨hne, huntorn r hr⟩⟩

/-- Two calls in the first second. -/
theorem getHardwareTicks_between_start :
    MonotoneTicks (CortexA9GlobalTimer.zeroed.setPeriodic 396000000 1000000).getHardwareTicks
        [⟨.lowerFirst, 0, 5⟩, ⟨.lowerFirst, 10, 3⟩] ∧
      MonotoneTicks (ExynosMultiCoreTimer.zeroed.setPeriodic 1000000).getHardwareTicks
        [⟨.lowerFirst, 0, 5⟩, ⟨.upperFirst, 10, 3⟩] := by
  obtain ⟨-, hcortex, -, hexynos⟩ := getHardwareTicks_between_iff
    (CortexA9GlobalTimer.zeroed.setPeriodic 396000000 1000000)
    (ExynosMultiCoreTimer.zeroed.setPeriodic 1000000)
  constructor
  · refine hcortex _ (.cons_cons (by decide) (.singleton _)) (by decide) ?_
    simp only [List.forall_mem_cons]
    exact ⟨.inl (by decide), .inl (by decide), by simp⟩
  · refine hexynos _ (.cons_cons (by decide) (.singleton _)) (by decide) ?_
    simp only [List.forall_mem_cons]
    exact ⟨.inl (by decide), .inl (by decide), by simp⟩

/-- The lower half wraps around after it was read, in the eleventh second: the tick is 21. -/
theorem getHardwareTicks_torn :
    ¬ ((∀ (t : CortexA9GlobalTimer) read, t.pTimerValue ≠ 0 →
        Between t.pTimerValue read (t.getHardwareTicks read)) ∧
      ∀ (t : ExynosMultiCoreTimer) read, t.pTimerValue ≠ 0 →
        Between t.pTimerValue read (t.getHardwareTicks read)) := by
  rintro ⟨h, -⟩
  obtain ⟨x, hx, -, hle⟩ := h (CortexA9GlobalTimer.zeroed.setPeriodic 396000000 1000000)
    ⟨.lowerFirst, 0xFFFFFFFF, 1⟩ (by decide)
  have hticks : (CortexA9GlobalTimer.zeroed.setPeriodic 396000000 1000000).getHardwareTicks
      ⟨.lowerFirst, 0xFFFFFFFF, 1⟩ = some 21 := by decide
  obtain rfl := Option.some.inj (hticks.symm.trans hx)
  revert hle
  decide

end CyPhOS
