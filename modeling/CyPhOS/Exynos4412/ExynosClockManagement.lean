import CyPhOS.Lib.BitField

/-! # The clocks of the Exynos 4412

A PLL multiplies the reference clock of 24 MHz by `mdiv` and divides it by `pdiv` and a power of
two. The functions form the product in 32 bits, before they divide. So their results are exact as
long as `mdiv` is at most 178 (`clocks_exact_iff`), while the frequency table goes up to 325.
-/

namespace CyPhOS

namespace ExynosClockManagement

def FREQ_INPUT : BitVec 32 := 24000000

/-- The registers that the functions read. -/
structure Registers where
  apllCon0 : BitVec 32
  mpllCon0 : BitVec 32
  clkDivCpu0 : BitVec 32
  clkSrcPeril0 : BitVec 32
  clkMuxStatTop1 : BitVec 32
  clkDivPeril0 : BitVec 32
  clkSrcRightbus : BitVec 32
  clkDivRightbus : BitVec 32
  deriving DecidableEq, Repr

/-! ## The functions -/

def mdiv (con0 : BitVec 32) : BitVec 32 := (con0 &&& (0x3FF#32 <<< 16)) >>> 16

def pdiv (con0 : BitVec 32) : BitVec 32 := (con0 &&& (0x3F#32 <<< 8)) >>> 8

def sdiv (con0 : BitVec 32) : BitVec 32 := (con0 &&& (0x7#32 <<< 0)) >>> 0

def sdivmult (con0 : BitVec 32) : BitVec 32 :=
  if sdiv con0 = 0 then 1 else 2#32 <<< (sdiv con0 - 1)

/-- The computation of `fout`, which four of the functions have; it may divide by 0. -/
def fout (con0 : BitVec 32) : Option (BitVec 32) :=
  if pdiv con0 * sdivmult con0 = 0 then none
  else some (mdiv con0 * FREQ_INPUT / (pdiv con0 * sdivmult con0))

namespace Registers

variable (R : Registers)

def periphratio : BitVec 32 := (R.clkDivCpu0 &&& (0x7#32 <<< 12)) >>> 12

def uart1_sel : BitVec 32 := (R.clkSrcPeril0 &&& (0xF#32 <<< 4)) >>> 4

def mpllUserSelT : BitVec 32 := (R.clkMuxStatTop1 &&& (0x3#32 <<< 12)) >>> 12

def uart1_ratio : BitVec 32 := (R.clkDivPeril0 &&& (0xF#32 <<< 4)) >>> 4

def gprRatio : BitVec 32 := (R.clkDivRightbus &&& 0x70#32) >>> 4

def gdrRatio : BitVec 32 := R.clkDivRightbus &&& 0x7#32

def getCoreClock : Option (BitVec 32) := fout R.apllCon0

def getPeripheralClock : Option (BitVec 32) := do
  let mainClk ← R.getCoreClock
  some (mainClk / (R.periphratio + 1))

def getUARTClk : Option (BitVec 32) :=
  if R.uart1_sel = 6 then
    if R.mpllUserSelT = 2 then do
      let fout ← fout R.mpllCon0
      some (fout / (R.uart1_ratio + 1))
    else some 0
  else if R.uart1_sel = 7 then some 0
  else if R.uart1_sel = 8 then some 0
  else some 0

def getMPLLFreq : Option (BitVec 32) := fout R.mpllCon0

def getAPLLFreq : Option (BitVec 32) := fout R.apllCon0

def getMCTClk : Option (BitVec 32) :=
  if R.clkSrcRightbus &&& 0x10#32 = 0 then some 24000000
  else
    let muxClk := if R.clkSrcRightbus &&& 0x1#32 = 0 then R.getMPLLFreq else R.getAPLLFreq
    muxClk.map fun muxClk => (muxClk / (R.gdrRatio + 1)) / (R.gprRatio + 1)

end Registers

/-! ## Fields -/

variable {con0 : BitVec 32}

theorem field_le (len : Nat) {x mask : BitVec 32} {lo : Nat}
    (hmask : mask.toNat = (2 ^ len - 1) * 2 ^ lo) :
    ((x &&& mask) >>> lo).toNat ≤ 2 ^ len - 1 := by
  have hand : (x &&& mask).toNat ≤ (2 ^ len - 1) * 2 ^ lo := by
    rw [BitVec.toNat_and, ← hmask]
    exact Nat.and_le_right
  rw [BitVec.toNat_ushiftRight, Nat.shiftRight_eq_div_pow]
  exact Nat.div_le_of_le_mul (by rwa [Nat.mul_comm])

theorem pdiv_le : (pdiv con0).toNat ≤ 63 := field_le 6 (by decide)

theorem sdiv_le : (sdiv con0).toNat ≤ 7 := field_le 3 (by decide)

theorem toNat_sdivmult : (sdivmult con0).toNat = 2 ^ (sdiv con0).toNat := by
  have hle : (sdiv con0).toNat ≤ 7 := sdiv_le
  rw [sdivmult]
  generalize sdiv con0 = s at hle
  obtain ⟨n, hn⟩ : ∃ n : Fin 8, s = BitVec.ofNat 32 n :=
    ⟨⟨s.toNat, by omega⟩, by rw [BitVec.ofNat_toNat, BitVec.setWidth_eq]⟩
  subst hn
  revert n
  decide

/-- `2 ^ sdiv * pdiv`, by which the product is divided. -/
theorem toNat_divisor : (pdiv con0 * sdivmult con0).toNat =
    (pdiv con0).toNat * 2 ^ (sdiv con0).toNat ∧
      (pdiv con0).toNat * 2 ^ (sdiv con0).toNat ≤ 8064 := by
  have hpow : 2 ^ (sdiv con0).toNat ≤ 2 ^ 7 := Nat.pow_le_pow_right (by decide) sdiv_le
  have hpdiv : (pdiv con0).toNat ≤ 63 := pdiv_le
  have hle := Nat.mul_le_mul hpdiv hpow
  refine ⟨?_, hle⟩
  rw [BitVec.toNat_mul, toNat_sdivmult]
  exact Nat.mod_eq_of_lt (by omega)

/-- The quotient of a product that has wrapped around is too small by far. -/
theorem mod_div_eq_iff {M D : Nat} (hpos : 0 < D) (hle : D ≤ 2 ^ 32) :
    M % 2 ^ 32 / D = M / D ↔ M < 2 ^ 32 := by
  constructor
  · intro h
    by_contra hge
    have hstep : (M % 2 ^ 32 + D) / D = M % 2 ^ 32 / D + 1 := Nat.add_div_right _ hpos
    have hmono : (M % 2 ^ 32 + D) / D ≤ M / D := Nat.div_le_div_right (by omega)
    omega
  · intro h
    rw [Nat.mod_eq_of_lt h]

theorem toNat_product :
    (mdiv con0 * FREQ_INPUT).toNat = (mdiv con0).toNat * 24000000 % 2 ^ 32 :=
  BitVec.toNat_mul ..

theorem fout_eq (hpdiv : 1 ≤ (pdiv con0).toNat) : ∃ f, fout con0 = some f ∧
    f.toNat = (mdiv con0).toNat * 24000000 % 2 ^ 32 /
      ((pdiv con0).toNat * 2 ^ (sdiv con0).toNat) := by
  have hne : pdiv con0 * sdivmult con0 ≠ 0 := by
    intro hzero
    have hnat := congrArg BitVec.toNat hzero
    rw [toNat_divisor.1] at hnat
    exact (Nat.mul_pos hpdiv (Nat.two_pow_pos _)).ne' hnat
  refine ⟨_, if_neg hne, ?_⟩
  rw [BitVec.toNat_udiv, toNat_product, toNat_divisor.1]

/-! ## Exact clocks -/

/-- The clock is the output frequency of the PLL, divided by `divisor` and rounded down, and the
product has not wrapped around. -/
structure IsExact (con0 : BitVec 32) (divisor : Nat) (clock : Option (BitVec 32)) : Prop where
  product : (mdiv con0 * FREQ_INPUT).toNat = (mdiv con0).toNat * 24000000
  quotient : ∃ f, clock = some f ∧ f.toNat = (mdiv con0).toNat * 24000000 /
    ((pdiv con0).toNat * 2 ^ (sdiv con0).toNat * divisor)

/-- A clock that is computed from the output frequency by another division. -/
theorem isExact_iff {clock : Option (BitVec 32)} {divisor : Nat} {g : BitVec 32 → BitVec 32}
    (hpdiv : 1 ≤ (pdiv con0).toNat) (hclock : clock = (fout con0).map g)
    (hg : ∀ f, (g f).toNat = f.toNat / divisor) (hpos : 0 < divisor) (hle : divisor ≤ 64) :
    IsExact con0 divisor clock ↔ (mdiv con0).toNat ≤ 178 := by
  obtain ⟨f, hf, hquotient⟩ := fout_eq hpdiv
  obtain ⟨-, hdivisor⟩ := @toNat_divisor con0
  have hpow : 0 < (pdiv con0).toNat * 2 ^ (sdiv con0).toNat :=
    Nat.mul_pos hpdiv (Nat.two_pow_pos _)
  have hall := mod_div_eq_iff (M := (mdiv con0).toNat * 24000000) (Nat.mul_pos hpow hpos)
    ((Nat.mul_le_mul hdivisor hle).trans (by decide))
  constructor
  · intro h
    have hwrap := h.product
    rw [toNat_product] at hwrap
    omega
  · intro h
    refine ⟨by rw [toNat_product]; omega, g f, by rw [hclock, hf]; rfl, ?_⟩
    rw [hg, hquotient, Nat.div_div_eq_div_mul, hall]
    omega

namespace Registers

variable {R : Registers}

theorem toNat_succ {x : BitVec 32} {n : Nat} (hx : x.toNat ≤ n) (hn : n < 2 ^ 31) :
    (x + 1).toNat = x.toNat + 1 := by
  rw [BitVec.toNat_add]
  exact Nat.mod_eq_of_lt (by simp; omega)

theorem periphratio_le : R.periphratio.toNat ≤ 7 := field_le 3 (by decide)

theorem uart1_ratio_le : R.uart1_ratio.toNat ≤ 15 := field_le 4 (by decide)

theorem gprRatio_le : R.gprRatio.toNat ≤ 7 := field_le 3 (by decide)

theorem gdrRatio_le : R.gdrRatio.toNat ≤ 7 := by
  rw [gdrRatio, BitVec.toNat_and]
  exact Nat.and_le_right

theorem isExact_getPeripheralClock (h : 1 ≤ (pdiv R.apllCon0).toNat) :
    IsExact R.apllCon0 (R.periphratio.toNat + 1) R.getPeripheralClock ↔
      (mdiv R.apllCon0).toNat ≤ 178 := by
  have hratio := R.periphratio_le
  refine isExact_iff (g := (· / (R.periphratio + 1))) h ?_ (fun f => ?_) (Nat.succ_pos _) (by omega)
  · rw [getPeripheralClock, getCoreClock]
    cases fout R.apllCon0 <;> rfl
  · rw [BitVec.toNat_udiv, toNat_succ hratio (by decide)]

theorem isExact_getUARTClk (h : 1 ≤ (pdiv R.mpllCon0).toNat) (hsel : R.uart1_sel = 6)
    (huser : R.mpllUserSelT = 2) :
    IsExact R.mpllCon0 (R.uart1_ratio.toNat + 1) R.getUARTClk ↔
      (mdiv R.mpllCon0).toNat ≤ 178 := by
  have hratio := R.uart1_ratio_le
  refine isExact_iff (g := (· / (R.uart1_ratio + 1))) h ?_ (fun f => ?_) (Nat.succ_pos _) (by omega)
  · rw [getUARTClk, if_pos hsel, if_pos huser]
    cases fout R.mpllCon0 <;> rfl
  · rw [BitVec.toNat_udiv, toNat_succ hratio (by decide)]

/-- The clock of the timer, from the PLL that the multiplexer selects. -/
theorem isExact_getMCTClk {con0 : BitVec 32} (h : 1 ≤ (pdiv con0).toNat)
    (hmux : R.clkSrcRightbus &&& 0x10#32 ≠ 0)
    (hpll :
      (if R.clkSrcRightbus &&& 0x1#32 = 0 then R.getMPLLFreq else R.getAPLLFreq) = fout con0) :
    IsExact con0 ((R.gdrRatio.toNat + 1) * (R.gprRatio.toNat + 1)) R.getMCTClk ↔
      (mdiv con0).toNat ≤ 178 := by
  have hgdr := R.gdrRatio_le
  have hgpr := R.gprRatio_le
  refine isExact_iff (g := fun f => f / (R.gdrRatio + 1) / (R.gprRatio + 1)) h ?_ (fun f => ?_)
    (Nat.mul_pos (Nat.succ_pos _) (Nat.succ_pos _))
    (Nat.mul_le_mul (Nat.succ_le_succ hgdr) (Nat.succ_le_succ hgpr))
  · rw [getMCTClk, if_neg hmux, hpll]
  · rw [BitVec.toNat_udiv, BitVec.toNat_udiv, toNat_succ hgdr (by decide),
      toNat_succ hgpr (by decide), Nat.div_div_eq_div_mul]

end Registers

theorem isExact_fout (h : 1 ≤ (pdiv con0).toNat) :
    IsExact con0 1 (fout con0) ↔ (mdiv con0).toNat ≤ 178 :=
  isExact_iff (g := id) h (Option.map_id_apply ..).symm (fun _ => (Nat.div_one _).symm) (by decide)
    (by decide)

/-- The clocks that come from a PLL are exact if its multiplier is at most 178. -/
theorem clocks_exact_iff (R : Registers) (hapll : 1 ≤ (pdiv R.apllCon0).toNat)
    (hmpll : 1 ≤ (pdiv R.mpllCon0).toNat) :
    (IsExact R.apllCon0 1 R.getCoreClock ↔ (mdiv R.apllCon0).toNat ≤ 178) ∧
    (IsExact R.apllCon0 1 R.getAPLLFreq ↔ (mdiv R.apllCon0).toNat ≤ 178) ∧
    (IsExact R.mpllCon0 1 R.getMPLLFreq ↔ (mdiv R.mpllCon0).toNat ≤ 178) ∧
    (IsExact R.apllCon0 (R.periphratio.toNat + 1) R.getPeripheralClock ↔
      (mdiv R.apllCon0).toNat ≤ 178) ∧
    (R.uart1_sel = 6 → R.mpllUserSelT = 2 →
      (IsExact R.mpllCon0 (R.uart1_ratio.toNat + 1) R.getUARTClk ↔
        (mdiv R.mpllCon0).toNat ≤ 178)) ∧
    (R.clkSrcRightbus &&& 0x10#32 ≠ 0 → R.clkSrcRightbus &&& 0x1#32 = 0 →
      (IsExact R.mpllCon0 ((R.gdrRatio.toNat + 1) * (R.gprRatio.toNat + 1)) R.getMCTClk ↔
        (mdiv R.mpllCon0).toNat ≤ 178)) ∧
    (R.clkSrcRightbus &&& 0x10#32 ≠ 0 → R.clkSrcRightbus &&& 0x1#32 ≠ 0 →
      (IsExact R.apllCon0 ((R.gdrRatio.toNat + 1) * (R.gprRatio.toNat + 1)) R.getMCTClk ↔
        (mdiv R.apllCon0).toNat ≤ 178)) :=
  ⟨isExact_fout hapll, isExact_fout hapll, isExact_fout hmpll,
    Registers.isExact_getPeripheralClock hapll, Registers.isExact_getUARTClk hmpll,
    fun hmux hsel => Registers.isExact_getMCTClk hmpll hmux (if_pos hsel),
    fun hmux hsel => Registers.isExact_getMCTClk hapll hmux (if_neg hsel)⟩

/-- Registers for a PLL of `con0`, with the UART and the timer at the MPLL. -/
def registersOf (con0 : BitVec 32) : Registers where
  apllCon0 := con0
  mpllCon0 := con0
  clkDivCpu0 := 0x3000
  clkSrcPeril0 := 0x60
  clkMuxStatTop1 := 0x2000
  clkDivPeril0 := 0x70
  clkSrcRightbus := 0x10
  clkDivRightbus := 0x13

/-- 800 MHz. -/
theorem clocks_exact_800MHz :
    IsExact 0x00640300 1 (registersOf 0x00640300).getCoreClock ∧
      IsExact 0x00640300 8 (registersOf 0x00640300).getUARTClk ∧
      IsExact 0x00640300 8 (registersOf 0x00640300).getMCTClk := by
  have h := clocks_exact_iff (registersOf 0x00640300) (by decide) (by decide)
  exact ⟨h.1.mpr (by decide), (h.2.2.2.2.1 (by decide) (by decide)).mpr (by decide),
    (h.2.2.2.2.2.1 (by decide) (by decide)).mpr (by decide)⟩

/-- The entry of the table for 300 MHz: the core clock comes out as 31564544 Hz. -/
theorem getCoreClock_wraps : ¬ ∀ R : Registers, 1 ≤ (pdiv R.apllCon0).toNat →
    (mdiv R.apllCon0).toNat * 24000000 /
      ((pdiv R.apllCon0).toNat * 2 ^ (sdiv R.apllCon0).toNat) < 2 ^ 32 →
    IsExact R.apllCon0 1 R.getCoreClock := by
  intro h
  have hexact := h (registersOf 0x00C80402) (by decide) (by decide)
  have hmdiv := (isExact_fout (by decide)).mp hexact
  revert hmdiv
  decide

end ExynosClockManagement

end CyPhOS
