import CyPhOS.Common.Exec
import CyPhOS.Lib.CacheLines

/-! # The prefetch loops of the ports

Both ports load a range into a way with a loop in assembly that touches one address of a line in
each round and tests at the end of the round whether to go on. The x86 loop compares unsigned and
stops at the end. The loop of the PL310 compares signed, goes on when it has reached the end, and
chooses in each round between an instruction and a data prefetch.

`PL310CacheManagement.prefetchesRange_iff` says for which ranges the two touch the same lines.
-/

namespace CyPhOS

open CacheLines

/-! ## x86 -/

namespace X86CacheManagement

/-- `movq`, `add`, `cmp`, `jb`: the addresses that are read. -/
def prefetchLoop (mCLFlushSize end_ : Nat) : Nat → Nat → Exec (List Nat)
  | 0, _ => .error .hang
  | fuel + 1, start => do
    let next := start + mCLFlushSize
    if next < end_ then pure (start :: (← prefetchLoop mCLFlushSize end_ fuel next))
    else pure [start]

/-- Each round moves on by a line, so that there are no more rounds than addresses, and one. -/
def prefetchDataToWay (mCLFlushSize start end_ : Nat) : Exec (List Nat) :=
  prefetchLoop mCLFlushSize end_ (end_ - start + 1) start

variable {mCLFlushSize start end_ fuel : Nat}

theorem prefetchLoop_eq (hsize : 0 < mCLFlushSize) (hlt : start < end_) (hfuel : end_ - start ≤ fuel) :
    prefetchLoop mCLFlushSize end_ fuel start = .ok (lines mCLFlushSize start end_) := by
  induction fuel generalizing start with
  | zero => omega
  | succ fuel ih =>
    rw [prefetchLoop]
    split
    · next hnext =>
      rw [ih hnext (by omega), lines_of_lt hsize hlt]
      rfl
    · next hnext =>
      rw [lines_of_lt hsize hlt, lines_of_le hsize (Nat.le_of_not_lt hnext)]
      rfl

/-- The loop touches the lines of the range. -/
theorem prefetchDataToWay_eq (hsize : 0 < mCLFlushSize) (hlt : start < end_) :
    prefetchDataToWay mCLFlushSize start end_ = .ok (lines mCLFlushSize start end_) :=
  prefetchLoop_eq hsize hlt (Nat.le_succ _)

end X86CacheManagement

/-! ## PL310 -/

/-- The branch of the loop that prefetches a line: "Instruction prefetch" below `oscTextEnd`, "Data
prefetch" from there on. With `CONFIG_CACHE_PLDW_FOR_INSTRUCTION` the instruction of both is `PLDW`,
without it that of the first is `PLI`. -/
inductive PrefetchKind
  | instruction
  | data
  deriving DecidableEq

namespace PL310CacheManagement

/-- The value that the signed condition codes see. -/
def signed (register : Nat) : Int :=
  if register < 2 ^ 31 then register else register - 2 ^ 32

/-- `CMP R0,%[oscTextEnd]`, `BGE 2f`: the line at `R0` and how it is prefetched. -/
def touch (oscTextEnd r0 : Nat) : Nat × PrefetchKind :=
  (r0, if signed r0 ≥ signed oscTextEnd then .data else .instruction)

/-- `ADD r0, #32`. -/
def nextLine (r0 : Nat) : Nat := (r0 + 32) % 2 ^ 32

/-- The lines that are prefetched. `CMP %[oscEnd],r0`, `BGE 0b` ends a round. -/
def prefetchLoop (oscEnd oscTextEnd : Nat) : Nat → Nat → Exec (List (Nat × PrefetchKind))
  | 0, _ => .error .hang
  | fuel + 1, r0 => do
    if signed oscEnd ≥ signed (nextLine r0) then
      pure (touch oscTextEnd r0 :: (← prefetchLoop oscEnd oscTextEnd fuel (nextLine r0)))
    else pure [touch oscTextEnd r0]

/-- After `2 ^ 27` rounds `R0` is back at the start. -/
def prefetchDataToWay (start end_ textEnd : Nat) : Exec (List (Nat × PrefetchKind)) :=
  prefetchLoop end_ textEnd (2 ^ 27) start

variable {start end_ textEnd fuel r0 : Nat} {touched : List (Nat × PrefetchKind)}

/-- In a range on one side of `2 ^ 31` that does not end on a line boundary the signed, inclusive
comparison decides as the unsigned, strict one. -/
theorem nextLine_le_iff (hr0 : 32 ∣ r0) (hlt : r0 < end_) (hend : end_ < 2 ^ 32) (hne : ¬ 32 ∣ end_)
    (hside : end_ < 2 ^ 31 - 32 ∨ 2 ^ 31 ≤ r0) :
    signed end_ ≥ signed (nextLine r0) ↔ r0 + 32 < end_ := by
  rw [signed, signed, nextLine]
  split <;> split <;> omega

theorem prefetchLoop_eq (hr0 : 32 ∣ r0) (hlt : r0 < end_) (hend : end_ < 2 ^ 32) (hne : ¬ 32 ∣ end_)
    (hside : end_ < 2 ^ 31 - 32 ∨ 2 ^ 31 ≤ r0) (hfuel : end_ - r0 ≤ 32 * fuel) :
    prefetchLoop end_ textEnd fuel r0 = .ok ((lines 32 r0 end_).map (touch textEnd)) := by
  induction fuel generalizing r0 with
  | zero => omega
  | succ fuel ih =>
    rw [prefetchLoop, lines_of_lt (by decide) hlt]
    have hiff := nextLine_le_iff hr0 hlt hend hne hside
    split
    · next hgo =>
      have hnext := hiff.mp hgo
      have hmod : nextLine r0 = r0 + 32 := Nat.mod_eq_of_lt (by omega)
      rw [hmod, ih (by omega) hnext (by omega) (by omega)]
      rfl
    · next hstop =>
      rw [lines_of_le (by decide) (Nat.le_of_not_lt fun hnext => hstop (hiff.mpr hnext))]
      rfl

/-- What the loop has touched when it ends: its start, and with each line the next one unless that
lies behind the end. -/
theorem prefetchLoop_ok (h : prefetchLoop end_ textEnd fuel r0 = .ok touched) :
    r0 ∈ touched.map Prod.fst ∧ (∀ t ∈ touched, t = touch textEnd t.1) ∧
      ∀ r ∈ touched.map Prod.fst, signed end_ ≥ signed (nextLine r) →
        nextLine r ∈ touched.map Prod.fst := by
  induction fuel generalizing r0 touched with
  | zero => cases h
  | succ fuel ih =>
    rw [prefetchLoop] at h
    split at h
    · next hgo =>
      obtain ⟨rest, hrest, h⟩ := Exec.bind_eq_ok.mp h
      obtain rfl := Except.ok.inj h
      obtain ⟨hfirst, hform, hclosed⟩ := ih hrest
      refine ⟨by simp [touch], ?_, ?_⟩
      · intro t ht
        rcases List.mem_cons.mp ht with rfl | ht
        · rfl
        · exact hform t ht
      · intro r hr hge
        rw [List.map_cons, List.mem_cons] at hr ⊢
        rcases hr with rfl | hr
        · exact .inr hfirst
        · exact .inr (hclosed r hr hge)
    · next hstop =>
      obtain rfl := Except.ok.inj h
      refine ⟨by simp [touch], by simp [touch], fun r hr hge => ?_⟩
      obtain rfl : r = r0 := by simpa [touch] using hr
      exact absurd hge hstop

/-- The lines of the range are touched and no others, in both ports, and the instruction prefetch is
for those below the end of the text. -/
def PrefetchesRange (start end_ textEnd : Nat) : Prop :=
  ∃ touched touchedX86, prefetchDataToWay start end_ textEnd = .ok touched ∧
    X86CacheManagement.prefetchDataToWay 32 start end_ = .ok touchedX86 ∧
    (∀ line, line ∈ touched.map Prod.fst ↔ Meets 32 start end_ line) ∧
    (∀ line, line ∈ touchedX86 ↔ Meets 32 start end_ line) ∧
    ∀ line kind, (line, kind) ∈ touched →
      kind = if line < textEnd then .instruction else .data

/-- On one side of `2 ^ 31` the signed comparison with the end of the text is the unsigned one. -/
theorem touch_eq (htext : textEnd ≤ end_) (hlt : r0 < end_) (hstart : start ≤ r0)
    (hstartText : start ≤ textEnd) (hend : end_ < 2 ^ 32) (hside : end_ < 2 ^ 31 ∨ 2 ^ 31 ≤ start) :
    touch textEnd r0 = (r0, if r0 < textEnd then .instruction else .data) := by
  have hiff : signed r0 ≥ signed textEnd ↔ ¬ r0 < textEnd := by
    rw [signed, signed]
    split <;> split <;> omega
  rw [touch]
  by_cases h : r0 < textEnd <;> simp [h, hiff]

theorem prefetchesRange (hstart : 32 ∣ start) (hlt : start < end_) (hend : end_ < 2 ^ 32)
    (htext : start ≤ textEnd ∧ textEnd ≤ end_) (hne : ¬ 32 ∣ end_)
    (hside : end_ < 2 ^ 31 - 32 ∨ 2 ^ 31 ≤ start) : PrefetchesRange start end_ textEnd := by
  have hmem : ∀ line, line ∈ lines 32 start end_ ↔ Meets 32 start end_ line := fun line =>
    mem_lines (by decide) hstart
  refine ⟨_, _, prefetchLoop_eq hstart hlt hend hne hside (by omega),
    X86CacheManagement.prefetchDataToWay_eq (by decide) hlt, fun line => ?_, hmem, ?_⟩
  · have hfst : Prod.fst ∘ touch textEnd = id := rfl
    rw [List.map_map, hfst, List.map_id, hmem]
  · intro line kind hin
    obtain ⟨r, hr, htouch⟩ := List.mem_map.mp hin
    obtain ⟨hdvd, hr, hbelow⟩ := (hmem r).mp hr
    rw [touch_eq htext.2 hr (by omega) htext.1 hend (by omega)] at htouch
    obtain ⟨rfl, rfl⟩ := Prod.mk.inj htouch
    rfl

/-- With a line the loop touches the next one, if the comparison lets it go on. -/
theorem PrefetchesRange.next (h : PrefetchesRange start end_ textEnd)
    (hr0 : Meets 32 start end_ r0) (hge : signed end_ ≥ signed (nextLine r0)) :
    Meets 32 start end_ (nextLine r0) := by
  obtain ⟨touched, -, hok, -, hmem, -⟩ := h
  obtain ⟨-, -, hclosed⟩ := prefetchLoop_ok hok
  exact (hmem _).mp (hclosed r0 ((hmem r0).mpr hr0) hge)

theorem PrefetchesRange.kind (h : PrefetchesRange start end_ textEnd)
    (hr0 : Meets 32 start end_ r0) : r0 < textEnd ↔ signed r0 < signed textEnd := by
  obtain ⟨touched, -, hok, -, hmem, -, hkind⟩ := h
  obtain ⟨-, hform, -⟩ := prefetchLoop_ok hok
  obtain ⟨t, ht, rfl⟩ := List.mem_map.mp ((hmem r0).mpr hr0)
  have htouch := hkind t.1 t.2 ht
  rw [hform t ht] at htouch
  simp only [touch] at htouch
  by_cases hlt : t.1 < textEnd <;> by_cases hslt : signed t.1 < signed textEnd
  · exact iff_of_true hlt hslt
  · simp [hlt, Int.not_lt.mp hslt] at htouch
  · simp [hlt, Int.not_le.mpr hslt] at htouch
  · exact iff_of_false hlt hslt

theorem PrefetchesRange.not_dvd (h : PrefetchesRange start end_ textEnd) (hstart : 32 ∣ start)
    (hlt : start < end_) (hend : end_ < 2 ^ 32) : ¬ 32 ∣ end_ := by
  intro hdvd
  have hlast : Meets 32 start end_ (end_ - 32) := ⟨by omega, by omega, by omega⟩
  have hnext : nextLine (end_ - 32) = end_ := by
    rw [nextLine]
    omega
  -- the last line is followed by the one at the end
  have hafter := h.next hlast (by rw [hnext])
  rw [hnext] at hafter
  exact absurd hafter.2.1 (lt_irrefl _)

theorem PrefetchesRange.side (h : PrefetchesRange start end_ textEnd) (hstart : 32 ∣ start)
    (hlt : start < end_) (hend : end_ < 2 ^ 32) (htext : start ≤ textEnd ∧ textEnd ≤ end_) :
    end_ < 2 ^ 31 - 32 ∨ 2 ^ 31 ≤ start := by
  by_contra hside
  have hne := h.not_dvd hstart hlt hend
  rcases Nat.lt_or_ge end_ (2 ^ 31) with hbelow | habove
  · -- the line behind `2 ^ 31 - 32` has a negative address
    have hlast : Meets 32 start end_ (2 ^ 31 - 32) := ⟨by decide, by omega, by omega⟩
    have hge : signed end_ ≥ signed (nextLine (2 ^ 31 - 32)) := by
      have hend' : signed end_ = end_ := if_pos hbelow
      have hneg : signed (nextLine (2 ^ 31 - 32)) = -2 ^ 31 := by decide
      omega
    have hafter : nextLine (2 ^ 31 - 32) < end_ := (h.next hlast hge).2.1
    have hat : nextLine (2 ^ 31 - 32) = 2 ^ 31 := by decide
    omega
  · -- at the first line and at `2 ^ 31` the end of the text would have to be on either side
    have hat : Meets 32 start end_ start := ⟨hstart, hlt, by omega⟩
    have hmiddle : Meets 32 start end_ (2 ^ 31) := ⟨by decide, by omega, by omega⟩
    have hfirst := h.kind hat
    have hmiddle := h.kind hmiddle
    rw [signed, signed] at hfirst hmiddle
    split at hfirst <;> split at hfirst <;> omega

/-- The two ports prefetch the same lines, and those below the end of the text as instructions,
exactly for ranges that do not end on a line boundary and lie on one side of `2 ^ 31`, not in its
last line. -/
theorem prefetchesRange_iff (hstart : 32 ∣ start) (hlt : start < end_) (hend : end_ < 2 ^ 32)
    (htext : start ≤ textEnd ∧ textEnd ≤ end_) :
    PrefetchesRange start end_ textEnd ↔
      ¬ 32 ∣ end_ ∧ (end_ < 2 ^ 31 - 32 ∨ 2 ^ 31 ≤ start) :=
  ⟨fun h => ⟨h.not_dvd hstart hlt hend, h.side hstart hlt hend htext⟩,
    fun h => prefetchesRange hstart hlt hend htext h.1 h.2⟩

theorem prefetchesRange_iff_word : PrefetchesRange 0x10000 0x10FFC 0x10800 :=
  (prefetchesRange_iff (by decide) (by decide) (by decide) (by decide)).mpr (by decide)

/-- A component of one line. The line that follows it is prefetched too. -/
theorem not_prefetchesRange_line :
    prefetchDataToWay 0x10000 0x10020 0x10020 =
        .ok [(0x10000, .instruction), (0x10020, .data)] ∧
      X86CacheManagement.prefetchDataToWay 32 0x10000 0x10020 = .ok [0x10000] ∧
      ¬ PrefetchesRange 0x10000 0x10020 0x10020 := by
  refine ⟨by rfl, by rfl, fun h => ?_⟩
  exact h.not_dvd (by decide) (by decide) (by decide) (by decide)

/-- A range that ends in the last line below `2 ^ 31` is never left. -/
theorem prefetchLoop_hangs (hr0 : 32 ∣ r0) (hend : 2 ^ 31 - 32 ≤ end_) (hbelow : end_ < 2 ^ 31) :
    prefetchLoop end_ textEnd fuel r0 = .error .hang := by
  induction fuel generalizing r0 with
  | zero => rfl
  | succ fuel ih =>
    have hdvd : 32 ∣ nextLine r0 := by
      rw [nextLine]
      omega
    have hlt : nextLine r0 < 2 ^ 32 := Nat.mod_lt _ (by decide)
    have hgo : signed end_ ≥ signed (nextLine r0) := by
      rw [signed, signed]
      split <;> split <;> omega
    rw [prefetchLoop, if_pos hgo, ih hdvd]
    rfl

end PL310CacheManagement
end CyPhOS
