import Mathlib.Tactic.IntervalCases
import Mathlib.Tactic.Ring

/-! # The output stream

`OutputStream` of the common sources: characters are collected in a buffer and handed to the device
when the buffer is full or a line ends, numbers are printed in the base of the stream. What a stream
has been given (`written`) is what the device gets, in order, and after the end of a line there is
nothing left in the buffer. A printed number reads back as the number (`readNumber_numberText`).
-/

namespace CyPhOS

/-- The bases that the manipulators set. -/
inductive Base where
  | bin
  | oct
  | dec
  | hex
  deriving DecidableEq, Repr

def Base.value : Base → Nat
  | bin => 2
  | oct => 8
  | dec => 10
  | hex => 16

theorem Base.two_le_value (base : Base) : 2 ≤ base.value := by cases base <;> decide

theorem Base.value_le (base : Base) : base.value ≤ 16 := by cases base <;> decide

structure OutputStream where
  mBase : Base
  mCharBuffer : List Char
  /-- What `writeToDevice` has passed on. -/
  device : List Char
  deriving DecidableEq, Repr

namespace OutputStream

def cBUFFER_SIZE : Nat := 256

def flush (os : OutputStream) : OutputStream :=
  { os with device := os.device ++ os.mCharBuffer, mCharBuffer := [] }

def putc (os : OutputStream) (c : Char) : OutputStream :=
  if os.mCharBuffer.length + 1 = cBUFFER_SIZE ∨ c = '\n' then
    flush { os with mCharBuffer := os.mCharBuffer ++ [c] }
  else { os with mCharBuffer := os.mCharBuffer ++ [c] }

/-- `operator <<` on a string. -/
def putString (os : OutputStream) (string : List Char) : OutputStream := string.foldl putc os

def dec (os : OutputStream) : OutputStream := { os with mBase := .dec }

def hex (os : OutputStream) : OutputStream := { os with mBase := .hex }

end OutputStream

/-! ### Numbers -/

/-- The loop that looks for the biggest power of the base that is not above the number. It never
goes above the number, so the product does not overflow. -/
def firstDiv (base : Base) (ival div : Nat) (hdiv : 0 < div) : Nat :=
  if base.value ≤ ival / div then
    firstDiv base ival (div * base.value)
      (Nat.mul_pos hdiv (Nat.lt_of_lt_of_le Nat.two_pos base.two_le_value))
  else div
termination_by ival / div
decreasing_by
  have hbase := base.two_le_value
  rw [← Nat.div_div_eq_div_mul]
  exact Nat.div_lt_self (by omega) hbase

def digitChar (digit : Nat) : Char :=
  if digit < 10 then Char.ofNat ('0'.toNat + digit) else Char.ofNat ('a'.toNat + digit - 10)

/-- The loop that prints a number digit by digit. -/
def OutputStream.putDigits (os : OutputStream) (ival div : Nat) : OutputStream :=
  if 0 < div then
    (os.putc (digitChar (ival / div))).putDigits (ival % div) (div / os.mBase.value)
  else os
termination_by div
decreasing_by exact Nat.div_lt_self (by assumption) os.mBase.two_le_value

/-- `operator <<` on a `uint64_t`, which those on the other numbers that are printed lead to. -/
def OutputStream.putNumber (os : OutputStream) (ival : Nat) : OutputStream :=
  let os := match os.mBase with
    | .oct => os.putc '0'
    | .hex => (os.putc '0').putc 'x'
    | _ => os
  os.putDigits ival (firstDiv os.mBase ival 1 Nat.one_pos)

/-! ### What is written -/

namespace OutputStream

variable {os : OutputStream} {s t : List Char} {c : Char}

/-- What has been put into the stream, on the device or still in the buffer. -/
def written (os : OutputStream) : List Char := os.device ++ os.mCharBuffer

@[simp] theorem putc_written : (os.putc c).written = os.written ++ [c] := by
  unfold putc
  split <;> simp [written, flush]

@[simp] theorem putc_mBase : (os.putc c).mBase = os.mBase := by
  unfold putc
  split <;> rfl

@[simp] theorem putString_written : (os.putString s).written = os.written ++ s := by
  unfold putString
  induction s generalizing os with
  | nil => simp
  | cons c s ih =>
    rw [List.foldl_cons, ih, putc_written, List.append_assoc]
    rfl

@[simp] theorem putString_mBase : (os.putString s).mBase = os.mBase := by
  unfold putString
  induction s generalizing os with
  | nil => rfl
  | cons c s ih => rw [List.foldl_cons, ih, putc_mBase]

@[simp] theorem dec_written : os.dec.written = os.written := rfl

@[simp] theorem dec_mBase : os.dec.mBase = .dec := rfl

@[simp] theorem hex_written : os.hex.written = os.written := rfl

@[simp] theorem hex_mBase : os.hex.mBase = .hex := rfl

end OutputStream

/-- The digits of a number that is below the base times `div`. -/
def digits (base : Base) (ival div : Nat) : List Char :=
  if 0 < div then digitChar (ival / div) :: digits base (ival % div) (div / base.value) else []
termination_by div
decreasing_by exact Nat.div_lt_self (by assumption) base.two_le_value

/-- What is put in front of the digits. -/
def Base.marker : Base → List Char
  | oct => ['0']
  | hex => ['0', 'x']
  | _ => []

def numberText (base : Base) (ival : Nat) : List Char :=
  base.marker ++ digits base ival (firstDiv base ival 1 Nat.one_pos)

namespace OutputStream

variable {os : OutputStream} {ival div : Nat}

theorem putDigits_written_mBase :
    (os.putDigits ival div).written = os.written ++ digits os.mBase ival div ∧
      (os.putDigits ival div).mBase = os.mBase := by
  induction os, ival, div using putDigits.induct with
  | case1 os ival div hdiv ih =>
    obtain ⟨hwritten, hbase⟩ := ih
    rw [putDigits, if_pos hdiv, digits, if_pos hdiv, hwritten, hbase]
    simp
  | case2 os ival div hdiv =>
    rw [putDigits, if_neg hdiv, digits, if_neg hdiv]
    simp

@[simp] theorem putNumber_written :
    (os.putNumber ival).written = os.written ++ numberText os.mBase ival := by
  unfold putNumber numberText Base.marker
  cases hbase : os.mBase <;> simp [putDigits_written_mBase.1, hbase]

@[simp] theorem putNumber_mBase : (os.putNumber ival).mBase = os.mBase := by
  unfold putNumber
  cases hbase : os.mBase <;> simp [putDigits_written_mBase.2, hbase]

end OutputStream

/-! ### Reading a number back -/

theorem firstDiv_spec (base : Base) (ival k : Nat) (hle : k = 0 ∨ base.value ^ k ≤ ival)
    (hdiv : 0 < base.value ^ k) :
    ∃ n, firstDiv base ival (base.value ^ k) hdiv = base.value ^ n ∧
      (n = 0 ∨ base.value ^ n ≤ ival) ∧ ival < base.value ^ (n + 1) := by
  rw [firstDiv]
  split
  case isTrue h =>
    have hnext : base.value ^ (k + 1) ≤ ival := by
      rw [Nat.pow_succ, Nat.mul_comm]
      exact (Nat.le_div_iff_mul_le hdiv).1 h
    simp only [← Nat.pow_succ]
    exact firstDiv_spec base ival (k + 1) (.inr hnext) _
  case isFalse h =>
    refine ⟨k, rfl, hle, ?_⟩
    rw [Nat.pow_succ, Nat.mul_comm]
    exact (Nat.div_lt_iff_lt_mul hdiv).1 (by omega)
termination_by ival - base.value ^ k
decreasing_by
  have hlt : base.value ^ k < base.value ^ (k + 1) :=
    Nat.pow_lt_pow_right base.two_le_value (Nat.lt_succ_self k)
  omega

/-- The value of a digit. -/
def digitValue (c : Char) : Nat :=
  if c.toNat < 'a'.toNat then c.toNat - '0'.toNat else c.toNat - 'a'.toNat + 10

theorem digitValue_digitChar {digit : Nat} (h : digit < 16) :
    digitValue (digitChar digit) = digit := by
  interval_cases digit <;> rfl

def readDigits (base : Base) (text : List Char) (v : Nat) : Nat :=
  text.foldl (fun v c => v * base.value + digitValue c) v

/-- The number that a printed text stands for. -/
def readNumber (base : Base) (text : List Char) : Nat :=
  readDigits base (text.drop base.marker.length) 0

theorem digits_zero {base : Base} {ival : Nat} :
    digits base ival (base.value ^ 0) = [digitChar ival] := by
  have hlast : ¬ 0 < 1 / base.value := by
    rw [Nat.div_eq_of_lt base.two_le_value]
    exact Nat.lt_irrefl 0
  rw [Nat.pow_zero, digits, if_pos Nat.one_pos, Nat.div_one, digits, if_neg hlast]

theorem digits_succ {base : Base} {ival k : Nat} :
    digits base ival (base.value ^ (k + 1)) =
      digitChar (ival / base.value ^ (k + 1)) ::
        digits base (ival % base.value ^ (k + 1)) (base.value ^ k) := by
  have hbase : 0 < base.value := Nat.lt_of_lt_of_le Nat.two_pos base.two_le_value
  rw [digits, if_pos (Nat.pow_pos hbase), Nat.pow_succ, Nat.mul_div_cancel _ hbase]

theorem div_pow_lt {base : Base} {ival k : Nat} (h : ival < base.value ^ (k + 1)) :
    ival / base.value ^ k < 16 := by
  have hbase := base.two_le_value
  have hdigit : ival / base.value ^ k < base.value := by
    rw [Nat.div_lt_iff_lt_mul (Nat.pow_pos (by omega)), Nat.mul_comm, ← Nat.pow_succ]
    exact h
  exact Nat.lt_of_lt_of_le hdigit base.value_le

theorem mod_pow_lt {base : Base} {ival k : Nat} : ival % base.value ^ k < base.value ^ k :=
  Nat.mod_lt _ (Nat.pow_pos (Nat.lt_of_lt_of_le Nat.two_pos base.two_le_value))

theorem readDigits_digits {base : Base} {ival k v : Nat} (h : ival < base.value ^ (k + 1)) :
    readDigits base (digits base ival (base.value ^ k)) v = v * base.value ^ (k + 1) + ival := by
  induction k generalizing ival v with
  | zero =>
    have hdigit := div_pow_lt h
    rw [Nat.pow_zero, Nat.div_one] at hdigit
    rw [digits_zero]
    simp [readDigits, digitValue_digitChar hdigit]
  | succ k ih =>
    rw [digits_succ]
    show readDigits base (digits base (ival % base.value ^ (k + 1)) (base.value ^ k))
      (v * base.value + digitValue (digitChar (ival / base.value ^ (k + 1)))) = _
    rw [ih mod_pow_lt, digitValue_digitChar (div_pow_lt h)]
    calc (v * base.value + ival / base.value ^ (k + 1)) * base.value ^ (k + 1) +
          ival % base.value ^ (k + 1)
        = v * (base.value ^ (k + 1) * base.value) +
          (base.value ^ (k + 1) * (ival / base.value ^ (k + 1)) +
            ival % base.value ^ (k + 1)) := by ring
      _ = v * base.value ^ (k + 1 + 1) + ival := by rw [Nat.div_add_mod, ← Nat.pow_succ]

/-- The digits that a number is printed with. -/
theorem numberText_eq (base : Base) (ival : Nat) :
    ∃ k, numberText base ival = base.marker ++ digits base ival (base.value ^ k) ∧
      (k = 0 ∨ base.value ^ k ≤ ival) ∧ ival < base.value ^ (k + 1) := by
  obtain ⟨k, hk, hle, hlt⟩ := firstDiv_spec base ival 0 (.inl rfl) Nat.one_pos
  refine ⟨k, ?_, hle, hlt⟩
  rw [numberText, ← hk]
  rfl

theorem readNumber_numberText {base : Base} {ival : Nat} :
    readNumber base (numberText base ival) = ival := by
  obtain ⟨k, htext, -, hlt⟩ := numberText_eq base ival
  rw [htext, readNumber, List.drop_left, readDigits_digits hlt, Nat.zero_mul, Nat.zero_add]

/-! ### Numerals -/

/-- The last digit. -/
theorem digits_snoc {base : Base} {ival k : Nat} : digits base ival (base.value ^ (k + 1)) =
    digits base (ival / base.value) (base.value ^ k) ++ [digitChar (ival % base.value)] := by
  induction k generalizing ival with
  | zero => rw [digits_succ, digits_zero, digits_zero, Nat.zero_add, Nat.pow_one]; rfl
  | succ k ih =>
    have hdiv : ival % base.value ^ (k + 1 + 1) / base.value =
        ival / base.value % base.value ^ (k + 1) := by
      rw [Nat.pow_succ' (n := k + 1), Nat.mod_mul_right_div_self]
    have hmod : ival % base.value ^ (k + 1 + 1) % base.value = ival % base.value :=
      Nat.mod_mod_of_dvd _ (Dvd.intro_left _ (Nat.pow_succ ..).symm)
    rw [digits_succ, ih, digits_succ, hdiv, hmod, Nat.div_div_eq_div_mul, ← Nat.pow_succ',
      List.cons_append]

theorem digitChar_eq {digit : Nat} (h : digit < 16) : digitChar digit = digit.digitChar := by
  interval_cases digit <;> rfl

/-- A number is printed as its numeral. -/
theorem digits_eq_toDigits {base : Base} {ival k : Nat} (hle : k = 0 ∨ base.value ^ k ≤ ival)
    (hlt : ival < base.value ^ (k + 1)) :
    digits base ival (base.value ^ k) = Nat.toDigits base.value ival := by
  have hbase := base.two_le_value
  have hsixteen := base.value_le
  induction k generalizing ival with
  | zero =>
    rw [Nat.zero_add, Nat.pow_one] at hlt
    rw [digits_zero, Nat.toDigits_of_lt_base hlt, digitChar_eq (by omega)]
  | succ k ih =>
    have hge : base.value ^ k ≤ ival / base.value := by
      rw [Nat.le_div_iff_mul_le (by omega), ← Nat.pow_succ]
      exact hle.resolve_left (Nat.succ_ne_zero k)
    have hbase_le : base.value ≤ ival := by
      have hpos : 0 < ival / base.value := Nat.lt_of_lt_of_le (Nat.pow_pos (by omega)) hge
      exact (Nat.div_pos_iff.mp hpos).2
    have hdigit : ival % base.value < 16 := (Nat.mod_lt _ (by omega)).trans_le hsixteen
    rw [digits_snoc, Nat.toDigits_of_base_le (by omega) hbase_le, digitChar_eq hdigit,
      ih (.inr hge)]
    rwa [Nat.div_lt_iff_lt_mul (by omega), ← Nat.pow_succ]

theorem numberText_eq_toDigits (base : Base) (ival : Nat) :
    numberText base ival = base.marker ++ Nat.toDigits base.value ival := by
  obtain ⟨k, htext, hle, hlt⟩ := numberText_eq base ival
  rw [htext, digits_eq_toDigits hle hlt]

/-- Only the numeral of 0 begins with a 0. -/
theorem head?_digits {base : Base} {ival k : Nat} (hle : k = 0 ∨ base.value ^ k ≤ ival)
    (hlt : ival < base.value ^ (k + 1)) (h : (digits base ival (base.value ^ k)).head? = some '0') :
    ival = 0 := by
  have hdigit := div_pow_lt hlt
  have hzero : digitChar (ival / base.value ^ k) = '0' := by
    cases k with
    | zero =>
      rw [digits_zero] at h
      rw [Nat.pow_zero, Nat.div_one]
      exact Option.some.inj h
    | succ k =>
      rw [digits_succ] at h
      exact Option.some.inj h
  have hquotient : ival / base.value ^ k = 0 := by
    have hvalue := digitValue_digitChar hdigit
    rw [hzero] at hvalue
    exact hvalue.symm
  cases hle with
  | inl hk =>
    subst hk
    rwa [Nat.pow_zero, Nat.div_one] at hquotient
  | inr hpow =>
    have hpos := Nat.div_pos hpow (Nat.pow_pos (Nat.zero_lt_of_lt base.two_le_value))
    omega

theorem head?_toDigits {base : Base} {ival : Nat}
    (h : (Nat.toDigits base.value ival).head? = some '0') : ival = 0 := by
  obtain ⟨k, -, hle, hlt⟩ := numberText_eq base ival
  rw [← digits_eq_toDigits hle hlt] at h
  exact head?_digits hle hlt h

/-! ### The characters of a number -/

def numberChars : List Char := "0123456789abcdefx".toList

theorem digitChar_mem {digit : Nat} (h : digit < 16) : digitChar digit ∈ numberChars := by
  interval_cases digit <;> decide

theorem digits_forall {P : Char → Prop} (hP : ∀ digit < 16, P (digitChar digit)) {base : Base}
    {ival k : Nat} (h : ival < base.value ^ (k + 1)) :
    ∀ c ∈ digits base ival (base.value ^ k), P c := by
  induction k generalizing ival with
  | zero =>
    have hdigit := div_pow_lt h
    rw [Nat.pow_zero, Nat.div_one] at hdigit
    rw [digits_zero]
    exact List.forall_mem_singleton.2 (hP ival hdigit)
  | succ k ih =>
    rw [digits_succ]
    exact List.forall_mem_cons.2 ⟨hP _ (div_pow_lt h), ih mod_pow_lt⟩

theorem numberText_mem {base : Base} {ival : Nat} {c : Char} (hc : c ∈ numberText base ival) :
    c ∈ numberChars := by
  obtain ⟨k, htext, -, hlt⟩ := numberText_eq base ival
  have hall : base.marker.all (numberChars.contains ·) := by cases base <;> decide
  rw [htext, List.mem_append] at hc
  cases hc with
  | inl hmarker => exact List.contains_iff_mem.1 (List.all_eq_true.1 hall c hmarker)
  | inr hdigit => exact digits_forall (fun _ => digitChar_mem) hlt c hdigit

end CyPhOS
