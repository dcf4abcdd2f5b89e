import Mathlib.Algebra.Order.Field.Basic
import Mathlib.Data.BitVec
import Mathlib.Data.Rat.Cast.Order
import Mathlib.Tactic.FieldSimp
import Mathlib.Tactic.Linarith
import Mathlib.Tactic.Ring

/-! # The baud rate of the UART

The divisor has an integer part and a fraction in sixteenths. `setBaudrate` computes the fraction
from the hundredths of the ratio, which it takes from the truncated quotient `baudrate * 16 / 100`,
and adds 1. The result is in range and close (`IsDivisor`) if the hundredths stay within the
sixteenth of the ratio and that is not the last one (`setBaudrate_iff`).
-/

namespace CyPhOS

namespace ExynosUart

/-- The values that are written to `UBRDIV` and `UFRACVAL`. The two divisions may be by 0. -/
def setBaudrate (uartClk baudrate : BitVec 32) : Option (BitVec 32 × BitVec 32) :=
  if baudrate * 16 = 0 then none
  else
    let divVal := uartClk / (baudrate * 16) - 1
    if baudrate * 16 / 100 = 0 then none
    else
      let fracVal := uartClk / (baudrate * 16 / 100) - 100
      let fracVal := ((fracVal - divVal * 100) * 16) / 100 + 1
      some (divVal, fracVal)

/-! ## Divisors -/

/-- The subtractions do not underflow. -/
structure NoUnderflow (clk baud : Nat) : Prop where
  divVal : 1 ≤ clk / (baud * 16)
  hundred : 100 ≤ clk / (baud * 16 / 100)
  fracVal : (clk / (baud * 16) - 1) * 100 ≤ clk / (baud * 16 / 100) - 100

/-- The fraction fits its four bits, and the divisor is right to a sixteenth. -/
structure IsDivisor (uartClk baudrate divVal fracVal : BitVec 32) : Prop where
  noUnderflow : NoUnderflow uartClk.toNat baudrate.toNat
  range : fracVal.toNat ≤ 15
  close : |((divVal.toNat : ℚ) + fracVal.toNat / 16) -
    (uartClk.toNat / (16 * baudrate.toNat) - 1)| ≤ 1 / 16

/-- The products of `setBaudrate` fit 32 bits. -/
structure ProductsFit (clk baud : Nat) : Prop where
  baudrate : baud * 16 < 2 ^ 32
  divVal : (clk / (baud * 16) - 1) * 100 < 2 ^ 32
  fracVal : (clk / (baud * 16 / 100) - 100 - (clk / (baud * 16) - 1) * 100) * 16 < 2 ^ 32

/-- The sixteenths that the ratio of clock and baud rate has in full, without the last one of each
16. -/
def sixteenths (clk baud : Nat) : Nat :=
  if clk / baud % 16 = 15 then clk / baud - 1 else clk / baud

/-- Some hundredths can be counted, and the hundredths stay within the sixteenth. -/
def Fits (clk baud : Nat) : Prop :=
  7 ≤ baud ∧ clk < (25 * (sixteenths clk baud + 1) + 3) / 4 * (baud * 16 / 100)

instance {clk baud : Nat} : Decidable (Fits clk baud) := inferInstanceAs (Decidable (_ ∧ _))

section
variable {baud : Nat} (clk : Nat)

/-- The truncated quotient makes the hundredths more. -/
theorem hundredths_ge (hbaud : 7 ≤ baud) :
    100 * clk / (baud * 16) ≤ clk / (baud * 16 / 100) := by
  calc 100 * clk / (baud * 16)
      ≤ 100 * clk / (100 * (baud * 16 / 100)) :=
        Nat.div_le_div_left (Nat.mul_div_le (baud * 16) 100) (by omega)
    _ = clk / (baud * 16 / 100) := Nat.mul_div_mul_left _ _ (by decide)

theorem hundredths_split (hbaud : 7 ≤ baud) : 100 * clk / (baud * 16) =
    100 * (clk % (baud * 16)) / (baud * 16) + 100 * (clk / (baud * 16)) := by
  have hsplit := Nat.div_add_mod clk (baud * 16)
  calc 100 * clk / (baud * 16)
      = (100 * (clk % (baud * 16)) + baud * 16 * (100 * (clk / (baud * 16)))) / (baud * 16) := by
        congr 1
        linarith [Nat.mul_left_comm 100 (baud * 16) (clk / (baud * 16))]
    _ = _ := Nat.add_mul_div_left _ _ (by omega)

theorem hundredths_ge_quotient (hbaud : 7 ≤ baud) :
    100 * (clk / (baud * 16)) ≤ clk / (baud * 16 / 100) :=
  (Nat.le_add_left ..).trans ((hundredths_split clk hbaud).symm.le.trans (hundredths_ge clk hbaud))

theorem noUnderflow (hbaud : 7 ≤ baud) (hratio : 16 * baud ≤ clk) : NoUnderflow clk baud := by
  have hdiv : 1 ≤ clk / (baud * 16) := Nat.div_pos (by omega) (by omega)
  have hge := hundredths_ge_quotient clk hbaud
  exact ⟨hdiv, by omega, by omega⟩

/-- The whole part and the sixteenths of the rest. -/
theorem div_split (hpos : 0 < baud) :
    clk / baud = 16 * (clk / (baud * 16)) + clk % (baud * 16) / baud := by
  have hsplit := Nat.div_add_mod clk (baud * 16)
  calc clk / baud
      = (clk % (baud * 16) + baud * (16 * (clk / (baud * 16)))) / baud := by
        congr 1
        linarith [Nat.mul_assoc baud 16 (clk / (baud * 16))]
    _ = clk % (baud * 16) / baud + 16 * (clk / (baud * 16)) := Nat.add_mul_div_left _ _ hpos
    _ = _ := Nat.add_comm ..

theorem rest_div_lt (hpos : 0 < baud) : clk % (baud * 16) / baud < 16 :=
  Nat.div_lt_of_lt_mul (Nat.mod_lt _ (by omega))

theorem div_mod_sixteen (hpos : 0 < baud) : clk / baud % 16 = clk % (baud * 16) / baud := by
  rw [div_split clk hpos, Nat.mul_add_mod, Nat.mod_eq_of_lt (rest_div_lt clk hpos)]

/-- The fraction less 1, in range and not above the true one, in terms of the inputs. -/
theorem sixteenths_iff (hbaud : 7 ≤ baud) :
    ((clk / (baud * 16 / 100) - 100 * (clk / (baud * 16))) * 16 / 100 ≤ 14 ∧
      (clk / (baud * 16 / 100) - 100 * (clk / (baud * 16))) * 16 / 100 ≤
        clk % (baud * 16) / baud) ↔
      Fits clk baud := by
  have hge := hundredths_ge_quotient clk hbaud
  have hpos : 0 < baud := by omega
  have hlt := rest_div_lt clk hpos
  rw [Fits, and_iff_right hbaud, ← Nat.div_lt_iff_lt_mul (by omega), sixteenths,
    div_mod_sixteen clk hpos, div_split clk hpos]
  generalize clk / (baud * 16 / 100) = hundredths at hge
  generalize clk / (baud * 16) = quotient at hge
  generalize clk % (baud * 16) / baud = sixteenth at hlt
  split <;> omega

/-- For the baud rates that are multiples of 25 the rest of the clock is all that counts: it has to
be below 94 hundredths of the divisor. -/
theorem fits_iff_of_dvd (hdvd : 25 ∣ baud) (hpos : 0 < baud) :
    Fits clk baud ↔ 100 * (clk % (baud * 16)) < 94 * (baud * 16) := by
  have hsplit := Nat.div_add_mod clk (baud * 16)
  have hlt := rest_div_lt clk hpos
  have hrest := Nat.lt_mul_div_succ (clk % (baud * 16)) hpos
  have hbaud : 7 ≤ baud := (by decide : 7 ≤ 25).trans (Nat.le_of_dvd hpos hdvd)
  rw [Fits, and_iff_right hbaud, sixteenths, div_mod_sixteen clk hpos, div_split clk hpos]
  obtain ⟨c, rfl⟩ := hdvd
  have htruncated : 25 * c * 16 / 100 = 4 * c := by omega
  rw [htruncated]
  generalize clk % (25 * c * 16) / (25 * c) = sixteenth at hlt hrest
  generalize clk % (25 * c * 16) = rest at hsplit hrest
  generalize clk / (25 * c * 16) = quotient at hsplit
  split
  · next hlast =>
    have hbound : (25 * (16 * quotient + sixteenth - 1 + 1) + 3) / 4 = 100 * quotient + 94 := by
      omega
    rw [hbound]
    constructor <;> intro h <;> nlinarith
  · next hlast =>
    have hbound : 25 * (16 * quotient + sixteenth + 1) ≤
        4 * ((25 * (16 * quotient + sixteenth + 1) + 3) / 4) := by omega
    have hmul := Nat.mul_le_mul_right c hbound
    have hnext : c * (sixteenth + 1) ≤ c * 15 := Nat.mul_le_mul_left c (by omega)
    refine iff_of_true ?_ ?_
    · nlinarith
    · nlinarith

/-- How close a fraction of `k + 1` sixteenths is. -/
theorem close_iff {q r B k : Nat} (hB : 0 < B) :
    |((q : ℚ) + (k + 1 : Nat) / 16) - ((q * B + r : Nat) : ℚ) / B| ≤ 1 / 16 ↔
      k * B ≤ 16 * r ∧ 16 * r ≤ (k + 2) * B := by
  have hB' : (0 : ℚ) < B := by exact_mod_cast hB
  have hdiff : ((q : ℚ) + (k + 1 : Nat) / 16) - ((q * B + r : Nat) : ℚ) / B =
      ((k + 1) * B - 16 * r) / (16 * B) := by
    push_cast
    field_simp
    ring
  rw [hdiff, abs_div, abs_of_pos (by positivity : (0 : ℚ) < 16 * B), div_le_div_iff₀ (by positivity)
    (by norm_num), one_mul, mul_comm, mul_le_mul_iff_right₀ (by norm_num), abs_le]
  constructor
  · rintro ⟨hlow, hhigh⟩
    have hlow' : (16 * r : ℚ) ≤ (k + 2) * B := by linarith
    have hhigh' : (k * B : ℚ) ≤ 16 * r := by linarith
    exact ⟨by exact_mod_cast hhigh', by exact_mod_cast hlow'⟩
  · rintro ⟨hlow, hhigh⟩
    have hlow' : (k * B : ℚ) ≤ 16 * r := by exact_mod_cast hlow
    have hhigh' : (16 * r : ℚ) ≤ (k + 2) * B := by exact_mod_cast hhigh
    constructor <;> linarith

/-- The fraction is never too small. -/
theorem rest_le (hbaud : 7 ≤ baud) : 16 * (clk % (baud * 16)) ≤
    ((clk / (baud * 16 / 100) - 100 * (clk / (baud * 16))) * 16 / 100 + 2) * (baud * 16) := by
  have hge := hundredths_ge clk hbaud
  rw [hundredths_split clk hbaud] at hge
  have hrest : 100 * (clk % (baud * 16)) <
      (100 * (clk % (baud * 16)) / (baud * 16) + 1) * (baud * 16) :=
    Nat.lt_mul_of_div_lt (Nat.lt_succ_self _) (by omega)
  generalize clk / (baud * 16 / 100) = hundredths at hge
  generalize 100 * (clk % (baud * 16)) / (baud * 16) = rest at hge hrest
  generalize clk / (baud * 16) = quotient at hge
  have hmul : 16 * (rest + 1) * (baud * 16) ≤
      100 * ((hundredths - 100 * quotient) * 16 / 100 + 2) * (baud * 16) :=
    Nat.mul_le_mul_right _ (by omega)
  have hright : 100 * ((hundredths - 100 * quotient) * 16 / 100 + 2) * (baud * 16) =
      100 * (((hundredths - 100 * quotient) * 16 / 100 + 2) * (baud * 16)) := Nat.mul_assoc ..
  have hleft : 16 * (rest + 1) * (baud * 16) = 16 * ((rest + 1) * (baud * 16)) := Nat.mul_assoc ..
  omega

/-- The true divisor, as a whole part and a rest. -/
theorem ratio_sub_one (hpos : 0 < baud) (hdiv : 1 ≤ clk / (baud * 16)) :
    (clk : ℚ) / (16 * baud) - 1 =
      (((clk / (baud * 16) - 1) * (baud * 16) + clk % (baud * 16) : Nat) : ℚ) /
        (baud * 16 : Nat) := by
  obtain ⟨q, hq⟩ : ∃ q, clk / (baud * 16) = q + 1 := ⟨_, (Nat.sub_add_cancel hdiv).symm⟩
  have hsplit : clk = (q + 1) * (baud * 16) + clk % (baud * 16) := by
    rw [← hq, Nat.mul_comm, Nat.div_add_mod]
  have hne : (baud : ℚ) ≠ 0 := by exact_mod_cast hpos.ne'
  rw [hq, Nat.add_sub_cancel]
  generalize clk % (baud * 16) = rest at hsplit
  rw [hsplit]
  push_cast
  field_simp
  ring

/-- The divisor is close if the fraction less 1 is not above the true one. -/
theorem close_ratio_iff (hbaud : 7 ≤ baud) (hdiv : 1 ≤ clk / (baud * 16)) :
    |(((clk / (baud * 16) - 1 : Nat) : ℚ) +
      (((clk / (baud * 16 / 100) - 100 * (clk / (baud * 16))) * 16 / 100 + 1 : Nat) : ℚ) / 16) -
        (clk / (16 * baud) - 1)| ≤ 1 / 16 ↔
      (clk / (baud * 16 / 100) - 100 * (clk / (baud * 16))) * 16 / 100 ≤
        clk % (baud * 16) / baud := by
  have hpos : 0 < baud := by omega
  have hscale : ∀ k r : Nat, k * (baud * 16) ≤ 16 * r ↔ k * baud ≤ r := by
    intro k r
    rw [← Nat.mul_assoc]
    omega
  rw [ratio_sub_one clk hpos hdiv, close_iff (by omega), and_iff_left (rest_le clk hbaud), hscale,
    Nat.le_div_iff_mul_le hpos]

end

/-! ## The result -/

variable {uartClk baudrate : BitVec 32}

section
variable (hproducts : ProductsFit uartClk.toNat baudrate.toNat)
include hproducts

/-! The steps of `setBaudrate` do not wrap around. -/

theorem toNat_ratio : (baudrate * 16).toNat = baudrate.toNat * 16 := by
  rw [BitVec.toNat_mul]
  exact Nat.mod_eq_of_lt hproducts.baudrate

theorem toNat_hundredth : (baudrate * 16 / 100).toNat = baudrate.toNat * 16 / 100 := by
  rw [BitVec.toNat_udiv, toNat_ratio hproducts]
  rfl

theorem toNat_divVal (h : NoUnderflow uartClk.toNat baudrate.toNat) :
    (uartClk / (baudrate * 16) - 1).toNat = uartClk.toNat / (baudrate.toNat * 16) - 1 := by
  rw [BitVec.toNat_sub_of_le, BitVec.toNat_udiv, toNat_ratio hproducts]
  · rfl
  · rw [BitVec.le_def, BitVec.toNat_udiv, toNat_ratio hproducts]
    exact h.divVal

theorem toNat_hundredths (h : NoUnderflow uartClk.toNat baudrate.toNat) :
    (uartClk / (baudrate * 16 / 100) - 100).toNat =
      uartClk.toNat / (baudrate.toNat * 16 / 100) - 100 := by
  rw [BitVec.toNat_sub_of_le, BitVec.toNat_udiv, toNat_hundredth hproducts]
  · rfl
  · rw [BitVec.le_def, BitVec.toNat_udiv, toNat_hundredth hproducts]
    exact h.hundred

theorem toNat_rest (h : NoUnderflow uartClk.toNat baudrate.toNat) :
    (uartClk / (baudrate * 16 / 100) - 100 - (uartClk / (baudrate * 16) - 1) * 100).toNat =
      uartClk.toNat / (baudrate.toNat * 16 / 100) - 100 -
        (uartClk.toNat / (baudrate.toNat * 16) - 1) * 100 := by
  have hwhole : ((uartClk / (baudrate * 16) - 1) * 100).toNat =
      (uartClk.toNat / (baudrate.toNat * 16) - 1) * 100 := by
    rw [BitVec.toNat_mul, toNat_divVal hproducts h]
    exact Nat.mod_eq_of_lt hproducts.divVal
  rw [BitVec.toNat_sub_of_le, toNat_hundredths hproducts h, hwhole]
  rw [BitVec.le_def, toNat_hundredths hproducts h, hwhole]
  exact h.fracVal

theorem toNat_fracVal (h : NoUnderflow uartClk.toNat baudrate.toNat) :
    ((uartClk / (baudrate * 16 / 100) - 100 - (uartClk / (baudrate * 16) - 1) * 100) * 16 / 100 +
      1).toNat =
      (uartClk.toNat / (baudrate.toNat * 16 / 100) - 100 -
        (uartClk.toNat / (baudrate.toNat * 16) - 1) * 100) * 16 / 100 + 1 := by
  have hfits := hproducts.fracVal
  rw [BitVec.toNat_add, BitVec.toNat_udiv, BitVec.toNat_mul, toNat_rest hproducts h]
  change (_ * 16 % 2 ^ 32 / 100 + 1) % 2 ^ 32 = _
  rw [Nat.mod_eq_of_lt hfits]
  omega

end

theorem setBaudrate_eq (hbaud : 7 ≤ baudrate.toNat)
    (hratio : 16 * baudrate.toNat ≤ uartClk.toNat)
    (hproducts : ProductsFit uartClk.toNat baudrate.toNat) :
    ∃ divVal fracVal, setBaudrate uartClk baudrate = some (divVal, fracVal) ∧
      divVal.toNat = uartClk.toNat / (baudrate.toNat * 16) - 1 ∧
      fracVal.toNat = (uartClk.toNat / (baudrate.toNat * 16 / 100) -
        100 * (uartClk.toNat / (baudrate.toNat * 16))) * 16 / 100 + 1 := by
  have hunderflow := noUnderflow _ hbaud hratio
  have hdivVal := hunderflow.divVal
  have hge := hundredths_ge_quotient uartClk.toNat hbaud
  have hne : baudrate * 16 ≠ 0 := by
    rw [Ne, ← BitVec.toNat_inj, toNat_ratio hproducts]
    change ¬baudrate.toNat * 16 = 0
    omega
  have hne' : baudrate * 16 / 100 ≠ 0 := by
    rw [Ne, ← BitVec.toNat_inj, toNat_hundredth hproducts]
    change ¬baudrate.toNat * 16 / 100 = 0
    omega
  refine ⟨_, _, by rw [setBaudrate, if_neg hne, if_neg hne'], toNat_divVal hproducts hunderflow, ?_⟩
  rw [toNat_fracVal hproducts hunderflow]
  omega

/-- A baud rate below 7 gives no hundredth to count. -/
theorem setBaudrate_eq_none (hbaud : baudrate.toNat < 7) : setBaudrate uartClk baudrate = none := by
  have hquotient : baudrate * 16 / 100 = 0 := by
    apply BitVec.eq_of_toNat_eq
    rw [BitVec.toNat_udiv, BitVec.toNat_mul]
    change baudrate.toNat * 16 % 2 ^ 32 / 100 = 0
    omega
  rw [setBaudrate, if_pos hquotient, ite_self]

/-- The divisor is in range and close if the clock and the baud rate fit. -/
theorem setBaudrate_iff (uartClk baudrate : BitVec 32)
    (hratio : 16 * baudrate.toNat ≤ uartClk.toNat)
    (hproducts : ProductsFit uartClk.toNat baudrate.toNat) :
    (∃ divVal fracVal, setBaudrate uartClk baudrate = some (divVal, fracVal) ∧
        IsDivisor uartClk baudrate divVal fracVal) ↔
      Fits uartClk.toNat baudrate.toNat := by
  rcases Nat.lt_or_ge baudrate.toNat 7 with hlt | hbaud
  · rw [setBaudrate_eq_none hlt, Fits]
    exact iff_of_false (fun ⟨_, _, h, _⟩ => nomatch h) fun h => Nat.not_le_of_lt hlt h.1
  obtain ⟨divVal, fracVal, hset, hdivVal, hfracVal⟩ := setBaudrate_eq hbaud hratio hproducts
  have hunderflow := noUnderflow _ hbaud hratio
  have hclose := close_ratio_iff uartClk.toNat hbaud hunderflow.divVal
  rw [← hdivVal, ← hfracVal] at hclose
  rw [← sixteenths_iff _ hbaud]
  constructor
  · rintro ⟨_, _, h, hdivisor⟩
    obtain ⟨rfl, rfl⟩ := Prod.mk.inj (Option.some.inj (hset.symm.trans h))
    have hrange := hdivisor.range
    exact ⟨by omega, hclose.mp hdivisor.close⟩
  · rintro ⟨hrange, hle⟩
    exact ⟨divVal, fracVal, hset, hunderflow, by omega, hclose.mpr hle⟩

/-- 100 MHz and the baud rate of the console. -/
theorem setBaudrate_close_console : ∃ divVal fracVal,
    setBaudrate 100000000 460800 = some (divVal, fracVal) ∧
      IsDivisor 100000000 460800 divVal fracVal :=
  (setBaudrate_iff 100000000 460800 (by decide) ⟨by decide, by decide, by decide⟩).mpr (by decide)

/-- 175 MHz and a common baud rate: the fraction is 16. -/
theorem setBaudrate_fraction_overflows : ¬ ∀ uartClk baudrate : BitVec 32,
    16 * baudrate.toNat ≤ uartClk.toNat → ProductsFit uartClk.toNat baudrate.toNat →
      ∃ divVal fracVal, setBaudrate uartClk baudrate = some (divVal, fracVal) ∧
        IsDivisor uartClk baudrate divVal fracVal := by
  intro h
  obtain ⟨divVal, fracVal, hset, hdivisor⟩ :=
    h 175000000 115200 (by decide) ⟨by decide, by decide, by decide⟩
  have hvalue : setBaudrate 175000000 115200 = some (93, 16) := by decide
  obtain ⟨rfl, rfl⟩ := Prod.mk.inj (Option.some.inj (hvalue.symm.trans hset))
  have hrange := hdivisor.range
  revert hrange
  decide

end ExynosUart

end CyPhOS
