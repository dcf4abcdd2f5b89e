import CyPhOS.Driver.ConsoleBuffer
import CyPhOS.Common.OutputStream
import Mathlib.Data.BitVec

/-! # Numbers in the machine

`OutputStream` and `ConsoleBuffer` have the same operators for numbers, in `uint64_t` arithmetic.
Here a division by 0 and a product that does not fit have no result. Neither happens: both operators
print the text of `numberText`, which is the numeral of the number without leading zeros
(`number_roundTrip`).
-/

namespace CyPhOS

open TerminatedText

/-! ## The operators -/

/-- The base as a number of the machine. -/
def Base.word (base : Base) : BitVec 64 := BitVec.ofNat 64 base.value

theorem Base.toNat_word (base : Base) : base.word.toNat = base.value := by cases base <;> rfl

theorem Base.toNat_mul_word {base : Base} {div : BitVec 64}
    (hfits : div.toNat * base.value < 2 ^ 64) :
    (div * base.word).toNat = div.toNat * base.value := by
  rw [BitVec.toNat_mul, base.toNat_word, Nat.mod_eq_of_lt hfits]

theorem Base.word_le_div {base : Base} {ival div : BitVec 64} :
    base.word ≤ ival / div ↔ base.value ≤ ival.toNat / div.toNat := by
  rw [BitVec.le_def, BitVec.toNat_udiv, base.toNat_word]

/-- The loop that looks for the divisor. -/
def searchDiv (base : Base) (ival div : BitVec 64) : Option (BitVec 64) :=
  if div = 0 then none
  else if base.word ≤ ival / div then
    if div.toNat * base.value < 2 ^ 64 then searchDiv base ival (div * base.word) else none
  else some div
termination_by 2 ^ 64 - div.toNat
decreasing_by
  rename_i hdiv _ hfits
  have hbase := base.two_le_value
  have hpos : 0 < div.toNat := Nat.pos_of_ne_zero fun h => hdiv (BitVec.eq_of_toNat_eq h)
  have hlt : div.toNat * 1 < div.toNat * base.value := Nat.mul_lt_mul_of_pos_left (by omega) hpos
  have htoNat := Base.toNat_mul_word hfits
  omega

section
variable {S : Type} (putc : S → Char → S)

/-- The loop that prints the digits. The digit is a `char`. -/
def printDigits (base : Base) (s : S) (ival div : BitVec 64) : S :=
  if 0 < div then
    printDigits base (putc s (digitChar ((ival / div).setWidth 8).toNat)) (ival % div)
      (div / base.word)
  else s
termination_by div.toNat
decreasing_by
  rename_i hdiv
  have hpos : 0 < div.toNat := hdiv
  rw [BitVec.toNat_udiv, base.toNat_word]
  exact Nat.div_lt_self hpos base.two_le_value

/-- Octal numbers get a zero, hexadecimal ones a zero and an x. -/
def printMarker (base : Base) (s : S) : S :=
  match base with
  | .oct => putc s '0'
  | .hex => putc (putc s '0') 'x'
  | _ => s

/-- `operator <<` on a `uint64_t`, for a class with this `putc`. -/
def printUInt64 (base : Base) (s : S) (ival : BitVec 64) : Option S :=
  let s := printMarker putc base s
  (searchDiv base ival 1).map (printDigits putc base s ival)

/-- `operator <<` on an `int64_t`. The negation is that of two's complement. -/
def printInt64 (base : Base) (s : S) (ival : BitVec 64) : Option S :=
  if ival.slt 0 then printUInt64 putc base (putc s '-') (-ival) else printUInt64 putc base s ival

end

def OutputStream.putUInt64 (os : OutputStream) (ival : BitVec 64) : Option OutputStream :=
  printUInt64 putc os.mBase os ival

def OutputStream.putInt64 (os : OutputStream) (ival : BitVec 64) : Option OutputStream :=
  printInt64 putc os.mBase os ival

/-- The lines and the base that numbers are printed in. -/
structure ConsoleStream where
  buffer : ConsoleBuffer
  mBase : Base

namespace ConsoleStream

def putc (b : ConsoleStream) (c : Char) : ConsoleStream := { b with buffer := b.buffer.putc c }

def putUInt64 (b : ConsoleStream) (ival : BitVec 64) : Option ConsoleStream :=
  printUInt64 putc b.mBase b ival

def putInt64 (b : ConsoleStream) (ival : BitVec 64) : Option ConsoleStream :=
  printInt64 putc b.mBase b ival

end ConsoleStream

/-! ## The loops -/

variable {base : Base} {ival div : BitVec 64} {n k : Nat}

/-- The divisor is found without a division by 0 and without a product that does not fit. -/
theorem searchDiv_eq (hdiv : 0 < div.toNat) : ∃ d, searchDiv base ival div = some d ∧
    d.toNat = firstDiv base ival.toNat div.toNat hdiv := by
  induction div using searchDiv.induct base ival with
  | case1 => exact absurd hdiv (Nat.lt_irrefl 0)
  | case2 div hne hle hfits ih =>
    have htoNat := Base.toNat_mul_word hfits
    obtain ⟨d, hd, hfirst⟩ := ih (by rw [htoNat]; exact Nat.mul_pos hdiv (by cases base <;> decide))
    refine ⟨d, ?_, ?_⟩
    · rw [searchDiv, if_neg hne, if_pos hle, if_pos hfits, hd]
    · rw [firstDiv, if_pos (Base.word_le_div.mp hle), hfirst]
      simp only [htoNat]
  | case3 div hne hle hfits =>
    have hmul := (Nat.le_div_iff_mul_le hdiv).mp (Base.word_le_div.mp hle)
    rw [Nat.mul_comm] at hmul
    exact absurd (Nat.lt_of_le_of_lt hmul ival.isLt) hfits
  | case4 div hne hle =>
    refine ⟨div, ?_, ?_⟩
    · rw [searchDiv, if_neg hne, if_neg hle]
    · rw [firstDiv, if_neg (mt Base.word_le_div.mpr hle)]

section
variable {S : Type} {putc : S → Char → S} {s : S}

theorem printDigits_pos (hdiv : 0 < div.toNat) (hdigit : ival.toNat / div.toNat < 16) :
    printDigits putc base s ival div =
      printDigits putc base (putc s (digitChar (ival.toNat / div.toNat))) (ival % div)
        (div / base.word) := by
  have hchar : ((ival / div).setWidth 8).toNat = ival.toNat / div.toNat := by
    rw [BitVec.toNat_setWidth, BitVec.toNat_udiv]
    exact Nat.mod_eq_of_lt (by omega)
  rw [printDigits, if_pos (show 0 < div from hdiv), hchar]

theorem printDigits_eq (hdiv : div.toNat = base.value ^ k)
    (hlt : ival.toNat < base.value ^ (k + 1)) :
    printDigits putc base s ival div =
      (digits base ival.toNat (base.value ^ k)).foldl putc s := by
  have hdigit := div_pow_lt hlt
  have hpos : 0 < base.value ^ k := Nat.pow_pos (Nat.zero_lt_of_lt base.two_le_value)
  induction k generalizing s ival div with
  | zero =>
    have hend : ¬0 < div / base.word := by
      intro h
      have h : 0 < (div / base.word).toNat := h
      rw [BitVec.toNat_udiv, hdiv, base.toNat_word, Nat.pow_zero,
        Nat.div_eq_of_lt base.two_le_value] at h
      exact Nat.lt_irrefl 0 h
    rw [printDigits_pos (hdiv ▸ hpos) (hdiv ▸ hdigit), printDigits, if_neg hend, digits_zero, hdiv,
      Nat.pow_zero, Nat.div_one]
    rfl
  | succ k ih =>
    have hnext : (div / base.word).toNat = base.value ^ k := by
      rw [BitVec.toNat_udiv, hdiv, base.toNat_word, Nat.pow_succ,
        Nat.mul_div_cancel _ (Nat.zero_lt_of_lt base.two_le_value)]
    have hmod : (ival % div).toNat = ival.toNat % base.value ^ (k + 1) := by
      rw [BitVec.toNat_umod, hdiv]
    have hmodlt : (ival % div).toNat < base.value ^ (k + 1) := hmod ▸ mod_pow_lt
    rw [printDigits_pos (hdiv ▸ hpos) (hdiv ▸ hdigit), hdiv,
      ih hnext hmodlt (div_pow_lt hmodlt) (Nat.pow_pos (Nat.zero_lt_of_lt base.two_le_value)), hmod,
      digits_succ, List.foldl_cons]

/-- The operator puts the text of the number. -/
theorem printUInt64_eq :
    printUInt64 putc base s ival = some ((numberText base ival.toNat).foldl putc s) := by
  obtain ⟨d, hsearch, hd⟩ : ∃ d, searchDiv base ival 1 = some d ∧
      d.toNat = firstDiv base ival.toNat 1 Nat.one_pos :=
    searchDiv_eq (show 0 < (1 : BitVec 64).toNat from Nat.one_pos)
  obtain ⟨k, hk, -, hlt⟩ := firstDiv_spec base ival.toNat 0 (.inl rfl) Nat.one_pos
  have hpow : d.toNat = base.value ^ k := hd.trans hk
  have htext : numberText base ival.toNat = base.marker ++ digits base ival.toNat d.toNat := by
    rw [hd]
    rfl
  have hmarker : printMarker putc base s = base.marker.foldl putc s := by cases base <;> rfl
  rw [printUInt64, hsearch, hmarker, htext, List.foldl_append, hpow, ← printDigits_eq hpow hlt]
  rfl

/-- The text of a number with its sign. -/
def signedText (base : Base) (v : Int) : List Char :=
  if v < 0 then '-' :: numberText base v.natAbs else numberText base v.natAbs

theorem printInt64_eq :
    printInt64 putc base s ival = some ((signedText base ival.toInt).foldl putc s) := by
  have hslt : ival.slt 0 = ival.msb := BitVec.slt_zero_eq_msb
  rw [printInt64, signedText, hslt]
  cases hmsb : ival.msb with
  | true =>
    have hneg := BitVec.toInt_eq_neg_toNat_neg_of_msb_true hmsb
    have hlt : ival.toInt < 0 := BitVec.toInt_neg_of_msb_true hmsb
    have habs : ival.toInt.natAbs = (-ival).toNat := by
      rw [hneg, Int.natAbs_neg, Int.natAbs_natCast]
    rw [if_pos rfl, if_pos hlt, habs, printUInt64_eq]
    rfl
  | false =>
    have hnat := BitVec.toInt_eq_toNat_of_msb hmsb
    have hge : ¬ival.toInt < 0 := by rw [hnat]; exact Int.not_lt.mpr (Int.natCast_nonneg _)
    have habs : ival.toInt.natAbs = ival.toNat := by rw [hnat, Int.natAbs_natCast]
    rw [if_neg Bool.false_ne_true, if_neg hge, habs, printUInt64_eq]

end

/-! ## The lines of the console buffer -/

namespace ConsoleStream

open ConsoleBuffer (cLineLength)

/-- The line that is being written holds the text. -/
structure Holds (b : ConsoleStream) (text : List Char) : Prop where
  begins : Begins (b.buffer.mBuffer b.buffer.mWritePosition) text
  position : b.buffer.mWriteLinePos = text.length

variable {b : ConsoleStream} {text : List Char}

theorem Holds.putc (h : b.Holds text) (hroom : text.length + 1 < cLineLength) (c : Char) :
    (b.putc c).Holds (text ++ [c]) := by
  have hlt : b.buffer.mWriteLinePos < cLineLength - 1 := by
    rw [h.position]
    omega
  rw [ConsoleStream.putc, ConsoleBuffer.putc, if_pos hlt]
  refine ⟨?_, by simp [h.position]⟩
  change Begins (b.buffer.writeChar c b.buffer.mWritePosition) (text ++ [c])
  rw [ConsoleBuffer.writeChar_self, h.position]
  exact h.begins.write c

theorem Holds.foldl_putc (h : b.Holds text) {more : List Char}
    (hroom : (text ++ more).length < cLineLength) :
    (more.foldl ConsoleStream.putc b).Holds (text ++ more) := by
  induction more generalizing b text with
  | nil => rwa [List.append_nil]
  | cons c more ih =>
    rw [List.append_cons] at hroom ⊢
    have hlength := hroom
    rw [List.length_append, List.length_append, List.length_singleton] at hlength
    exact ih (h.putc (by omega) c) hroom

end ConsoleStream

/-! ## The text of a number -/

/-- The prefix of the base and the digits of the number, which read back as the number. -/
structure IsNumberText (base : Base) (n : Nat) (text : List Char) : Prop where
  numeral : text = base.marker ++ Nat.toDigits base.value n
  leading : (Nat.toDigits base.value n).head? = some '0' → n = 0
  reads : readNumber base text = n

theorem isNumberText (base : Base) (n : Nat) : IsNumberText base n (numberText base n) :=
  ⟨numberText_eq_toDigits base n, head?_toDigits, readNumber_numberText⟩

/-- The operators of both classes put the text, that of the console buffer if it fits the line. -/
structure Prints (base : Base) (text : List Char) (stream : OutputStream → Option OutputStream)
    (line : ConsoleStream → Option ConsoleStream) : Prop where
  stream (os : OutputStream) : os.mBase = base →
    ∃ os', stream os = some os' ∧ os'.written = os.written ++ text
  line (b : ConsoleStream) (old : List Char) : b.mBase = base → b.Holds old →
    (old ++ text).length < ConsoleBuffer.cLineLength →
      ∃ b', line b = some b' ∧ b'.Holds (old ++ text)

theorem prints {text : List Char} {stream : OutputStream → Option OutputStream}
    {line : ConsoleStream → Option ConsoleStream}
    (hstream : ∀ os, os.mBase = base → stream os = some (text.foldl OutputStream.putc os))
    (hline : ∀ b, b.mBase = base → line b = some (text.foldl ConsoleStream.putc b)) :
    Prints base text stream line where
  stream os hbase := ⟨_, hstream os hbase, OutputStream.putString_written⟩
  line b _ hbase hholds hroom := ⟨_, hline b hbase, hholds.foldl_putc hroom⟩

/-- The sign of a number. -/
def sign (v : Int) : List Char := if v < 0 then ['-'] else []

def readInt (base : Base) (text : List Char) : Int :=
  if text.head? = some '-' then -(readNumber base text.tail) else readNumber base text

theorem signedText_eq (base : Base) (v : Int) :
    signedText base v = sign v ++ numberText base v.natAbs := by
  rw [signedText, sign]
  split <;> rfl

theorem readInt_signedText {v : Int} : readInt base (signedText base v) = v := by
  rw [signedText, readInt]
  by_cases hneg : v < 0
  · rw [if_pos hneg, List.head?_cons, if_pos rfl, List.tail_cons, readNumber_numberText]
    omega
  · have hhead : (numberText base v.natAbs).head? ≠ some '-' := by
      intro h
      exact absurd (numberText_mem (List.mem_of_mem_head? h)) (by decide)
    rw [if_neg hneg, if_neg hhead, readNumber_numberText]
    omega

/-- Every number is printed as its numeral, by both classes, and reads back as the number. -/
theorem number_roundTrip (base : Base) (ival : BitVec 64) :
    (∃ text, IsNumberText base ival.toNat text ∧
      Prints base text (·.putUInt64 ival) (·.putUInt64 ival)) ∧
    ∃ text, IsNumberText base ival.toInt.natAbs text ∧
      readInt base (sign ival.toInt ++ text) = ival.toInt ∧
      Prints base (sign ival.toInt ++ text) (·.putInt64 ival) (·.putInt64 ival) := by
  refine ⟨⟨_, isNumberText base _, prints ?_ ?_⟩, _, isNumberText base _, ?_, ?_⟩
  · rintro os rfl
    exact printUInt64_eq
  · rintro b rfl
    exact printUInt64_eq
  · rw [← signedText_eq, readInt_signedText]
  · rw [← signedText_eq]
    refine prints ?_ ?_
    · rintro os rfl
      exact printInt64_eq
    · rintro b rfl
      exact printInt64_eq

end CyPhOS
