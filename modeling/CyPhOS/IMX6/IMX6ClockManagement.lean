import CyPhOS.Common.BitManipulation
import CyPhOS.Common.Exec

/-! # The frequency and the voltage of the cores

`setCoreFrequencyVoltage` bypasses the PLL, sets the voltage in `PMU_REG_CORE` and the divider in
`CCM_ANALOG_PLL_ARM`, waits until the PLL is locked and ends the bypass. The divider counts half
reference clocks, which the getter rounds down to whole ones, and the voltage is combined with the
old one: see `setCoreFrequencyVoltage_iff`.
-/

namespace CyPhOS

namespace IMX6ClockManagement

def IMX6_REFERENCE_CLOCK : BitVec 32 := 24000000

def IMX6_ARM_CORE_BASE_VOLTAGE : BitVec 32 := 700000

/-- `IMX6_FREQUENCY_VOLTAGE` -/
structure FrequencyVoltage where
  frequency : BitVec 32
  voltage : BitVec 32
  deriving DecidableEq, Repr

/-- The two registers, and how often the PLL register has been read. -/
structure State where
  pllArm : BitVec 32
  regCore : BitVec 32
  reads : Nat
  deriving DecidableEq, Repr

section
variable (lock : Nat → Bool)

/-- The PLL register as the hardware shows it at the `n`-th read: bit 31 is the lock status. -/
def State.pllArmAt (s : State) (n : Nat) : BitVec 32 := setbit s.pllArm 31 (lock n)

/-- `READ_REGISTER(CCM_ANALOG_PLL_ARM)` -/
def State.readPllArm (s : State) : BitVec 32 × State :=
  (s.pllArmAt lock s.reads, { s with reads := s.reads + 1 })

def State.getARMPLLFrequency (s : State) : BitVec 32 × State :=
  let (armPLL, s) := s.readPllArm lock
  let div_sel := armPLL &&& 0x7F#32
  (IMX6_REFERENCE_CLOCK * (div_sel / 2), s)

def State.bypassARMClkToReferenceFrequency (s : State) (bypass : Bool) : State :=
  let (armPLL, s) := s.readPllArm lock
  let armPLL := if bypass then armPLL ||| (1#32 <<< 16) else armPLL &&& ~~~(1#32 <<< 16)
  { s with pllArm := armPLL }

/-- The loop that waits for the lock. -/
def State.waitForLock : Nat → State → Exec State
  | 0, _ => .error .hang
  | fuel + 1, s =>
    let (armPLL, s) := s.readPllArm lock
    if armPLL &&& (1#32 <<< 31) = 0 then waitForLock fuel s else .ok s

/-- What `setARMPLLClock` does before the loop. -/
def State.writeDivider (s : State) (clk : BitVec 32) : State :=
  let divider := (2 * clk / IMX6_REFERENCE_CLOCK).setWidth 8
  let (armPLL, s) := s.readPllArm lock
  let armPLL := armPLL &&& ~~~0x7F#32
  let armPLL := armPLL ||| divider.setWidth 32
  { s with pllArm := armPLL }

def State.setARMPLLClock (fuel : Nat) (s : State) (clk : BitVec 32) : Exec State :=
  State.waitForLock lock fuel (s.writeDivider lock clk)

def State.setCoreVoltage (s : State) (voltage : BitVec 32) : State :=
  let pmuCore := s.regCore
  let targetVoltage := (voltage - IMX6_ARM_CORE_BASE_VOLTAGE) / 25000
  let pmuCore := pmuCore ||| targetVoltage
  { s with regCore := pmuCore }

def State.setCoreFrequencyVoltage (fuel : Nat) (s : State) (value : FrequencyVoltage) :
    Exec State := do
  let s := s.bypassARMClkToReferenceFrequency lock true
  let s := s.setCoreVoltage value.voltage
  let s ← State.setARMPLLClock lock fuel s value.frequency
  pure (s.bypassARMClkToReferenceFrequency lock false)

end

/-! ## What the call leaves -/

variable {lock : Nat → Bool} {s : State} {fuel : Nat} {value : FrequencyVoltage} {i : Nat}

/-- The divider of a clock, in half reference clocks. -/
def divider (clk : BitVec 32) : BitVec 32 :=
  ((2 * clk / IMX6_REFERENCE_CLOCK).setWidth 8).setWidth 32

/-- The code of a voltage. -/
def targetVoltage (voltage : BitVec 32) : BitVec 32 :=
  (voltage - IMX6_ARM_CORE_BASE_VOLTAGE) / 25000

theorem getLsbD_pllArmAt {n : Nat} :
    (s.pllArmAt lock n).getLsbD i = if i = 31 then lock n else s.pllArm.getLsbD i :=
  getLsbD_setbit (by decide)

theorem bypass_eq {bypass : Bool} : (s.bypassARMClkToReferenceFrequency lock bypass).pllArm =
    setbit (s.pllArmAt lock s.reads) 16 bypass := by
  cases bypass <;> rfl

/-- The PLL register has been read. -/
def State.read (s : State) : State := { s with reads := s.reads + 1 }

/-- One read of the loop. -/
theorem waitForLock_succ : State.waitForLock lock (fuel + 1) s =
    if lock s.reads = false then State.waitForLock lock fuel s.read else .ok s.read := by
  have hbit : (s.pllArmAt lock s.reads).getLsbD 31 = lock s.reads := by
    rw [getLsbD_pllArmAt, if_pos rfl]
  have hzero : s.pllArmAt lock s.reads &&& (1#32 <<< 31) = 0 ↔ lock s.reads = false := by
    rw [and_one_shiftLeft_eq_zero_iff (by decide), hbit]
  rw [State.waitForLock, State.readPllArm]
  exact if_congr hzero rfl rfl

/-- The wait ends at the latest at the first read that is known to find the PLL locked. -/
theorem waitForLock_eq {k : Nat} (hlock : lock (s.reads + k) = true) (hfuel : k < fuel) :
    ∃ n, State.waitForLock lock fuel s = .ok { s with reads := n } := by
  obtain ⟨s', ⟨n, rfl⟩, hs'⟩ := Exec.poll_returns (State.waitForLock lock)
    (fun n => lock n = false) State.reads State.read State.read
    (fun s' => ∃ n, s' = { s with reads := n }) (fun _ _ => waitForLock_succ) (fun _ => rfl)
    (fun _ ⟨n, h⟩ => ⟨n + 1, by rw [h]; rfl⟩) ⟨s.reads, rfl⟩ (by rw [hlock]; decide) hfuel
  exact ⟨n + 1, hs'⟩

theorem getLsbD_writeDivider {clk : BitVec 32} (hi : i ≠ 31) :
    (s.writeDivider lock clk).pllArm.getLsbD i =
      (s.pllArm.getLsbD i && !(0x7F#32).getLsbD i || (divider clk).getLsbD i) := by
  have heq : (s.writeDivider lock clk).pllArm =
      (s.pllArmAt lock s.reads &&& ~~~0x7F#32) ||| divider clk := rfl
  rw [heq, BitVec.getLsbD_or, BitVec.getLsbD_and, BitVec.getLsbD_not, getLsbD_pllArmAt, if_neg hi]
  by_cases hlt : i < 32
  · rw [decide_eq_true hlt, Bool.true_and]
  · rw [BitVec.getLsbD_of_ge s.pllArm i (Nat.le_of_not_lt hlt)]
    rfl

/-- The registers after the call, apart from the bypass bit and the lock status. -/
structure Leaves (s s' : State) (value : FrequencyVoltage) : Prop where
  regCore : s'.regCore = s.regCore ||| targetVoltage value.voltage
  pllArm : ∀ i, i ≠ 16 → i ≠ 31 → s'.pllArm.getLsbD i =
    (s.pllArm.getLsbD i && !(0x7F#32).getLsbD i || (divider value.frequency).getLsbD i)

theorem setCoreFrequencyVoltage_eq (value : FrequencyVoltage) {k : Nat}
    (hlock : lock (s.reads + 2 + k) = true) (hfuel : k < fuel) :
    ∃ s', s.setCoreFrequencyVoltage lock fuel value = .ok s' ∧ Leaves s s' value := by
  obtain ⟨n, hwait⟩ := waitForLock_eq (s := ((s.bypassARMClkToReferenceFrequency lock
    true).setCoreVoltage value.voltage).writeDivider lock value.frequency) hlock hfuel
  refine ⟨_, by rw [State.setCoreFrequencyVoltage, State.setARMPLLClock, hwait]; rfl, rfl, ?_⟩
  intro i hbypass hstatus
  rw [bypass_eq, getLsbD_setbit (by decide), if_neg hbypass, getLsbD_pllArmAt, if_neg hstatus]
  have hfirst : ((s.bypassARMClkToReferenceFrequency lock true).setCoreVoltage
      value.voltage).pllArm.getLsbD i = s.pllArm.getLsbD i := by
    rw [State.setCoreVoltage, bypass_eq, getLsbD_setbit (by decide), if_neg hbypass,
      getLsbD_pllArmAt, if_neg hstatus]
  rw [← hfirst]
  exact getLsbD_writeDivider hstatus

/-! ## Round trips -/

/-- `REG0_TARG` of `PMU_REG_CORE`, the five bits of the core voltage. -/
def coreTarget (regCore : BitVec 32) : BitVec 5 := BitField.get 0 5 regCore

/-- The getter returns the frequency, the field of the voltage has its code, and the other bits, but
for the bypass bit, are read as they would have been without the call. -/
structure RoundTrip (lock : Nat → Bool) (s s' : State) (value : FrequencyVoltage) : Prop where
  frequency : (s'.getARMPLLFrequency lock).1 = value.frequency
  voltage : (coreTarget s'.regCore).toNat = (value.voltage.toNat - 700000) / 25000
  pllArm : ∀ n, ∀ i ≥ 7, i ≠ 16 →
    (s'.pllArmAt lock n).getLsbD i = (s.pllArmAt lock n).getLsbD i
  regCore : ∀ i ≥ 5, s'.regCore.getLsbD i = s.regCore.getLsbD i

/-- The old code has no bit that the new one has not. -/
def TargetWithin (regCore voltage : BitVec 32) : Prop :=
  coreTarget regCore ||| coreTarget (targetVoltage voltage) = coreTarget (targetVoltage voltage)

instance {regCore voltage : BitVec 32} : Decidable (TargetWithin regCore voltage) :=
  inferInstanceAs (Decidable (_ = _))

theorem toNat_targetVoltage {voltage : BitVec 32} (hbase : 700000 ≤ voltage.toNat) :
    (targetVoltage voltage).toNat = (voltage.toNat - 700000) / 25000 := by
  have hle : IMX6_ARM_CORE_BASE_VOLTAGE ≤ voltage := BitVec.le_def.mpr hbase
  rw [targetVoltage, BitVec.toNat_udiv, BitVec.toNat_sub_of_le hle]
  rfl

theorem toNat_divider {clk : BitVec 32} (hclk : 12000000 ∣ clk.toNat)
    (hdivider : 2 * clk.toNat / 24000000 ≤ 127) :
    (divider clk).toNat = clk.toNat / 12000000 := by
  obtain ⟨n, hn⟩ := hclk
  rw [hn] at hdivider ⊢
  have hmul : (2 * clk).toNat = 2 * (12000000 * n) := by
    rw [BitVec.toNat_mul, hn]
    exact Nat.mod_eq_of_lt (by change 2 * (12000000 * n) < 2 ^ 32; omega)
  rw [divider, BitVec.toNat_setWidth_of_le (by decide), BitVec.toNat_setWidth, BitVec.toNat_udiv,
    hmul]
  change 2 * (12000000 * n) / 24000000 % 2 ^ 8 = 12000000 * n / 12000000
  omega

theorem getLsbD_of_toNat_lt {w n : Nat} {x : BitVec w} (hx : x.toNat < 2 ^ n) (hi : n ≤ i) :
    x.getLsbD i = false := by
  rw [BitVec.getLsbD]
  exact Nat.testBit_eq_false_of_lt (hx.trans_le (Nat.pow_le_pow_right (by decide) hi))

theorem getLsbD_mask : (0x7F#32).getLsbD i = decide (i < 7) := by
  rw [BitVec.getLsbD_ofNat]
  change (decide (i < 32) && (2 ^ 7 - 1).testBit i) = decide (i < 7)
  rw [Nat.testBit_two_pow_sub_one]
  by_cases hi : i < 7
  · simp [hi, hi.trans (by decide : 7 < 32)]
  · simp [hi]

namespace Leaves

variable {s' : State}

/-- The getter sees the divider. -/
theorem divider_eq (h : Leaves s s' value) (hd : (divider value.frequency).toNat < 2 ^ 7) :
    s'.pllArmAt lock s'.reads &&& 0x7F#32 = divider value.frequency := by
  apply BitVec.eq_of_getLsbD_eq
  intro i hi
  rw [BitVec.getLsbD_and, getLsbD_mask, getLsbD_pllArmAt]
  by_cases hlow : i < 7
  · rw [if_neg (by omega), h.pllArm i (by omega) (by omega), getLsbD_mask, decide_eq_true hlow,
      Bool.not_true, Bool.and_false, Bool.false_or, Bool.and_true]
  · rw [decide_eq_false hlow, Bool.and_false, getLsbD_of_toNat_lt hd (Nat.le_of_not_lt hlow)]

/-- An odd divider loses its half. -/
theorem frequency_iff (h : Leaves s s' value) (hclk : 12000000 ∣ value.frequency.toNat)
    (hdivider : 2 * value.frequency.toNat / 24000000 ≤ 127) :
    (s'.getARMPLLFrequency lock).1 = value.frequency ↔ 24000000 ∣ value.frequency.toNat := by
  have hd := toNat_divider hclk hdivider
  obtain ⟨n, hn⟩ := hclk
  rw [hn] at hdivider hd ⊢
  have hfrequency : (s'.getARMPLLFrequency lock).1.toNat = 24000000 * (n / 2) := by
    rw [State.getARMPLLFrequency, State.readPllArm]
    dsimp only
    rw [h.divider_eq (by omega), BitVec.toNat_mul, BitVec.toNat_udiv, hd]
    change 24000000 * (12000000 * n / 12000000 / 2) % 2 ^ 32 = _
    omega
  rw [← BitVec.toNat_inj, hfrequency, hn]
  omega

theorem voltage_iff (h : Leaves s s' value) (hbase : 700000 ≤ value.voltage.toNat)
    (hfits : (value.voltage.toNat - 700000) / 25000 < 2 ^ 5) :
    (coreTarget s'.regCore).toNat = (value.voltage.toNat - 700000) / 25000 ↔
      TargetWithin s.regCore value.voltage := by
  have hcode : (coreTarget (targetVoltage value.voltage)).toNat =
      (value.voltage.toNat - 700000) / 25000 := by
    rw [coreTarget, BitField.toNat_get, toNat_targetVoltage hbase]
    omega
  have hor : coreTarget s'.regCore =
      coreTarget s.regCore ||| coreTarget (targetVoltage value.voltage) := by
    rw [h.regCore, coreTarget, coreTarget, coreTarget, BitField.get, BitVec.extractLsb'_or]
    rfl
  rw [hor, TargetWithin, ← BitVec.toNat_inj, hcode]

theorem pllArm_frame (h : Leaves s s' value) (hd : (divider value.frequency).toNat < 2 ^ 7)
    (n : Nat) (hi : 7 ≤ i) (hbypass : i ≠ 16) :
    (s'.pllArmAt lock n).getLsbD i = (s.pllArmAt lock n).getLsbD i := by
  rw [getLsbD_pllArmAt, getLsbD_pllArmAt]
  split
  · rfl
  · next hstatus =>
    rw [h.pllArm i hbypass hstatus, getLsbD_mask, decide_eq_false (Nat.not_lt.mpr hi),
      getLsbD_of_toNat_lt hd hi, Bool.not_false, Bool.and_true, Bool.or_false]

theorem regCore_frame (h : Leaves s s' value) (hbase : 700000 ≤ value.voltage.toNat)
    (hfits : (value.voltage.toNat - 700000) / 25000 < 2 ^ 5) (hi : 5 ≤ i) :
    s'.regCore.getLsbD i = s.regCore.getLsbD i := by
  have hcode : (targetVoltage value.voltage).toNat < 2 ^ 5 := by rwa [toNat_targetVoltage hbase]
  rw [h.regCore, BitVec.getLsbD_or, getLsbD_of_toNat_lt hcode hi, Bool.or_false]

end Leaves

/-- If the PLL locks some time, the call returns. The frequency and the voltage are right if the
frequency is a multiple of the reference clock and the old voltage is within the new one. -/
theorem setCoreFrequencyVoltage_iff (lock : Nat → Bool) (s : State) (value : FrequencyVoltage)
    (hclk : 12000000 ∣ value.frequency.toNat)
    (hdivider : 2 * value.frequency.toNat / 24000000 ≤ 127)
    (hbase : 700000 ≤ value.voltage.toNat)
    (hfits : (value.voltage.toNat - 700000) / 25000 < 2 ^ 5)
    (hlock : ∃ k, lock (s.reads + 2 + k) = true) :
    ∃ enough, ∀ fuel ≥ enough, ∃ s', s.setCoreFrequencyVoltage lock fuel value = .ok s' ∧
      (RoundTrip lock s s' value ↔
        24000000 ∣ value.frequency.toNat ∧ TargetWithin s.regCore value.voltage) := by
  obtain ⟨k, hk⟩ := hlock
  have hd : (divider value.frequency).toNat < 2 ^ 7 := by
    rw [toNat_divider hclk hdivider]
    omega
  refine ⟨k + 1, fun fuel hfuel => ?_⟩
  obtain ⟨s', hs', hleaves⟩ := setCoreFrequencyVoltage_eq value hk hfuel
  refine ⟨s', hs', ?_⟩
  rw [← hleaves.frequency_iff hclk hdivider, ← hleaves.voltage_iff hbase hfits]
  constructor
  · intro h
    exact ⟨h.frequency, h.voltage⟩
  · rintro ⟨hfrequency, hvoltage⟩
    exact ⟨hfrequency, hvoltage, fun n _ hi hbypass => hleaves.pllArm_frame hd n hi hbypass,
      fun _ hi => hleaves.regCore_frame hbase hfits hi⟩

/-- From 396 MHz and 775 mV to 984 MHz and 1275 mV, with a PLL that is always locked. -/
theorem setCoreFrequencyVoltage_984MHz : ∃ enough, ∀ fuel ≥ enough, ∃ s',
    State.setCoreFrequencyVoltage (fun _ => true) fuel ⟨0x80002021, 0x03, 0⟩
        ⟨984000000, 1275000⟩ = .ok s' ∧
      RoundTrip (fun _ => true) ⟨0x80002021, 0x03, 0⟩ s' ⟨984000000, 1275000⟩ := by
  obtain ⟨enough, henough⟩ := setCoreFrequencyVoltage_iff (fun _ => true) ⟨0x80002021, 0x03, 0⟩
    ⟨984000000, 1275000⟩ (by decide) (by decide) (by decide) (by decide) ⟨0, rfl⟩
  refine ⟨enough, fun fuel hfuel => ?_⟩
  obtain ⟨s', hs', htrip⟩ := henough fuel hfuel
  exact ⟨s', hs', htrip.mpr ⟨by decide, by decide⟩⟩

/-- 852 MHz, which is in the table, is 71 half reference clocks: the getter returns 840 MHz. -/
theorem setCoreFrequencyVoltage_odd : ¬ ∀ (lock : Nat → Bool) (s : State)
    (value : FrequencyVoltage),
    12000000 ∣ value.frequency.toNat → 2 * value.frequency.toNat / 24000000 ≤ 127 →
    700000 ≤ value.voltage.toNat → (value.voltage.toNat - 700000) / 25000 < 2 ^ 5 →
    (∃ k, lock (s.reads + 2 + k) = true) →
      ∃ enough, ∀ fuel ≥ enough, ∃ s', s.setCoreFrequencyVoltage lock fuel value = .ok s' ∧
        RoundTrip lock s s' value := by
  intro h
  obtain ⟨enough, henough⟩ := h (fun _ => true) ⟨0x80002021, 0x0B, 0⟩ ⟨852000000, 1250000⟩
    (by decide) (by decide) (by decide) (by decide) ⟨0, rfl⟩
  obtain ⟨s', hs', htrip⟩ := henough (enough + 1) (Nat.le_succ _)
  obtain ⟨s'', hs'', hleaves⟩ := @setCoreFrequencyVoltage_eq (fun _ => true)
    ⟨0x80002021, 0x0B, 0⟩ (enough + 1) ⟨852000000, 1250000⟩ 0 rfl (Nat.succ_pos enough)
  obtain rfl : s'' = s' := Except.ok.inj (hs''.symm.trans hs')
  have hmultiple := (hleaves.frequency_iff (by decide) (by decide)).mp htrip.frequency
  revert hmultiple
  decide

end IMX6ClockManagement

end CyPhOS
