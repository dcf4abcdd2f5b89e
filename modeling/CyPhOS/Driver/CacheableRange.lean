import CyPhOS.Driver.PageMapping
import CyPhOS.Common.Exec

/-! # Making a range of addresses cacheable

`setRangeCacheable` steps through a range page by page, from the address it is given and not from
the start of its page. On x86 the loop tests at its end. So both ports miss the last page if the
range starts later in its page than it ends in its last one, and the x86 port changes a page even if
the range is empty.

`rounds` is the number of rounds of the loops. What they change is compared with the pages that
meet the range by `RadixTable.changesExactly_changeEntries_stray`.
-/

namespace CyPhOS

open RadixTable

/-- The pages of 4 kB that meet `[from, to)`. -/
def Intersects (from' to' page : Nat) : Prop := ∃ a, from' ≤ a ∧ a < to' ∧ a / 0x1000 = page

theorem intersects_iff {from' to' page : Nat} :
    Intersects from' to' page ↔ from' < to' ∧ from' / 0x1000 ≤ page ∧ page ≤ (to' - 1) / 0x1000 := by
  constructor
  · rintro ⟨a, hfrom, hto, rfl⟩
    omega
  · rintro ⟨hlt, hfirst, hlast⟩
    exact ⟨max from' (page * 0x1000), by omega, by omega, by omega⟩

/-- The range starts no later in its first page than it ends in its last one. -/
def StepsReachEnd (from' to' : Nat) : Prop := from' % 0x1000 ≤ (to' - 1) % 0x1000

instance {from' to' : Nat} : Decidable (StepsReachEnd from' to') :=
  inferInstanceAs (Decidable (_ ≤ _))

/-- How often a loop with steps of a page goes round before it is at the end. -/
def rounds (from' to' : Nat) : Nat := (to' - from' + 0xFFF) / 0x1000

/-- The page of a range that the steps miss, or of an empty range. -/
def strayPage (from' to' : Nat) : Nat :=
  if from' = to' then from' / 0x1000 else (to' - 1) / 0x1000

/-- The pages that the loop with the test at its end should not have changed or should have. -/
theorem doWhile_differs_iff {from' to' i : Nat} (hle : from' ≤ to') :
    ¬ (Intersects from' to' i ↔
        from' / 0x1000 ≤ i ∧ i < from' / 0x1000 + max 1 (rounds from' to')) ↔
      ¬ (from' < to' ∧ StepsReachEnd from' to') ∧ i = strayPage from' to' := by
  rw [intersects_iff, StepsReachEnd, strayPage, rounds]
  split <;> omega

/-- The loop with the test at its start is wrong about the last page only. -/
theorem while_differs_iff {from' to' i : Nat} (hle : from' ≤ to') :
    ¬ (Intersects from' to' i ↔
        from' / 0x1000 ≤ i ∧ i < from' / 0x1000 + rounds from' to') ↔
      ¬ (from' = to' ∨ StepsReachEnd from' to') ∧ i = strayPage from' to' := by
  rw [intersects_iff, StepsReachEnd, strayPage, rounds]
  split <;> omega

/-! ## x86 -/

namespace X86Paging

/-- The body of the loop. -/
def setUncached (cacheable : Bool) (entry : BitVec 64) : BitVec 64 :=
  BitField.set 3 (BitVec.ofBool !cacheable) (BitField.set 4 (BitVec.ofBool !cacheable) entry)

/-- The `do … while` loop. Addresses have 64 bits, so it has met every address that it can meet
after `2 ^ 52` rounds. -/
def setRangeLoop (p : Placement) (to' : Nat) (cacheable : Bool) : Nat → Nat → Memory → Exec Memory
  | 0, _, _ => .error .hang
  | fuel + 1, from', m =>
    let entry := getPTEEntryFromAddress p m from'
    let m := modify m entry (BitField.set 4 (BitVec.ofBool !cacheable))
    let m := modify m entry (BitField.set 3 (BitVec.ofBool !cacheable))
    let from' := (from' + X86MMU.cPAGESIZE) % 2 ^ 64
    if from' < to' then setRangeLoop p to' cacheable fuel from' m
    else .ok m

def setRangeCacheable (p : Placement) (m : Memory) (from' to' : Nat) (cacheable : Bool) :
    Exec Memory :=
  setRangeLoop p to' cacheable (2 ^ 52) from' m

/-- The call returns, and exactly the entries of the pages that meet the range have changed. -/
def SetsRange (p : Placement) (m : Memory) (from' to' : Nat) (cacheable : Bool) : Prop :=
  ∃ m', setRangeCacheable p m from' to' cacheable = .ok m' ∧
    ChangesExactly 8 p.pte (setUncached cacheable) (Intersects from' to') m m'

variable {p : Placement} {m : Memory} {t : X86MMU.X86Pagetable} {from' to' : Nat}
  {cacheable : Bool}

theorem present_setUncached {entry : BitVec 64} :
    present (setUncached cacheable entry) = present entry := by
  simp only [present, setUncached, BitField.getLsbD_set, Nat.reduceLeDiff]
  simp

/-- In a range that the table covers the loop changes an entry in each round. -/
theorem Tables.setRangeLoop_eq (h : Tables p m t) {n fuel : Nat}
    (hn : n + 1 = max 1 (rounds from' to')) (hfuel : n < fuel)
    (hfrom : from' < cMAX_MEMORY_SIZE * 2 ^ 30) (hto : to' ≤ cMAX_MEMORY_SIZE * 2 ^ 30) :
    setRangeLoop p to' cacheable fuel from' m =
      .ok (changeEntries 8 p.pte (setUncached cacheable) (from' / 0x1000) (n + 1) m) := by
  have hsize : cMAX_MEMORY_SIZE * 2 ^ 30 = 2 ^ 32 := by decide
  have hpage : X86MMU.cPAGESIZE = 0x1000 := rfl
  induction n generalizing from' fuel m t with
  | zero =>
    obtain ⟨fuel, rfl⟩ := Nat.exists_eq_succ_of_ne_zero (Nat.ne_zero_of_lt hfuel)
    have hend : ¬ (from' + X86MMU.cPAGESIZE) % 2 ^ 64 < to' := by
      simp only [rounds] at hn
      omega
    simp only [setRangeLoop, modify_modify, h.getPTEEntryFromAddress_eq hfrom, if_neg hend]
    rfl
  | succ n ih =>
    obtain ⟨fuel, rfl⟩ := Nat.exists_eq_succ_of_ne_zero (Nat.ne_zero_of_lt hfuel)
    simp only [rounds] at hn
    have hnext : (from' + X86MMU.cPAGESIZE) % 2 ^ 64 = from' + 0x1000 := by omega
    have hmore : from' + 0x1000 < to' := by omega
    have hstep := h.modify (i := from' / 0x1000) (f := setUncached cacheable)
      fun _ => present_setUncached
    have hrounds : n + 1 = max 1 (rounds (from' + 0x1000) to') := by
      simp only [rounds]
      omega
    have hrest := ih hstep hrounds (show n < fuel by omega) (by omega)
    rw [Nat.add_div_right _ (by decide)] at hrest
    simp only [setRangeLoop, modify_modify, h.getPTEEntryFromAddress_eq hfrom, hnext, if_pos hmore]
    exact hrest

/-- The x86 port sets a range exactly if it is not empty and the steps reach its last page, or the
page at issue has these attributes already. -/
theorem setsRange_iff (h : Tables p m t) (hle : from' ≤ to')
    (hfrom : from' < cMAX_MEMORY_SIZE * 2 ^ 30) (hto : to' ≤ cMAX_MEMORY_SIZE * 2 ^ 30) :
    SetsRange p m from' to' cacheable ↔ from' < to' ∧ StepsReachEnd from' to' ∨
      setUncached cacheable (m (p.pte + 8 * strayPage from' to')) =
        m (p.pte + 8 * strayPage from' to') := by
  obtain ⟨n, hn⟩ : ∃ n, n + 1 = max 1 (rounds from' to') := ⟨max 1 (rounds from' to') - 1, by omega⟩
  have hfuel : n < 2 ^ 52 := by
    simp only [cMAX_MEMORY_SIZE] at hto
    simp only [rounds] at hn
    omega
  have hloop : setRangeCacheable p m from' to' cacheable = _ :=
    h.setRangeLoop_eq hn hfuel hfrom hto
  simp only [SetsRange, hloop, Except.ok.injEq, exists_eq_left']
  rw [hn]
  exact changesExactly_changeEntries_stray (by decide) fun i => doWhile_differs_iff hle

end X86Paging

/-! ## ARMv7 -/

namespace ARMPaging

/-- The body of the loop. -/
def setUncached (cacheable : Bool) (entry : BitVec 32) : BitVec 32 :=
  BitField.set 2 (BitVec.ofBool cacheable) (BitField.set 3 (BitVec.ofBool cacheable) entry)

/-- The `while` loop. Addresses have 32 bits, so it has met every address that it can meet after
`2 ^ 20` rounds. -/
def setRangeLoop (p : Placement) (to' : Nat) (cacheable : Bool) : Nat → Nat → Memory → Exec Memory
  | 0, from', m => if from' < to' then .error .hang else .ok m
  | fuel + 1, from', m =>
    if from' < to' then
      let pageEntry := getSecondLevelPageTableEntryFromAddress p m from'
      let m := modify m pageEntry (BitField.set 3 (BitVec.ofBool cacheable))
      let m := modify m pageEntry (BitField.set 2 (BitVec.ofBool cacheable))
      setRangeLoop p to' cacheable fuel ((from' + ARMMMU.cPAGE_SIZE) % 2 ^ 32) m
    else .ok m

def setRangeCacheable (p : Placement) (m : Memory) (from' to' : Nat) (cacheable : Bool) :
    Exec Memory :=
  setRangeLoop p to' cacheable (2 ^ 20) from' m

/-- The call returns, and exactly the descriptors of the pages that meet the range have changed. -/
def SetsRange (p : Placement) (m : Memory) (from' to' : Nat) (cacheable : Bool) : Prop :=
  ∃ m', setRangeCacheable p m from' to' cacheable = .ok m' ∧
    ChangesExactly 4 p.secondLevelTable (setUncached cacheable) (Intersects from' to') m m'

/-- The address that the steps come to an end at is one of 32 bits. -/
def NoWrap (from' to' : Nat) : Prop := from' + 0x1000 * rounds from' to' < 2 ^ 32

variable {p : Placement} {m : Memory} {t : ARMMMU.ARMv7PageTable} {from' to' : Nat}
  {cacheable : Bool}

theorem present_setUncached {entry : BitVec 32} :
    present (setUncached cacheable entry) = present entry := by
  simp only [present, setUncached, BitField.getLsbD_set, Nat.reduceLeDiff]
  simp

/-- Without a wrap the loop changes a descriptor in each round. -/
theorem Tables.setRangeLoop_eq (h : Tables p m t) {n fuel : Nat} (hn : n = rounds from' to')
    (hfuel : n ≤ fuel) (hwrap : NoWrap from' to') :
    setRangeLoop p to' cacheable fuel from' m =
      .ok (changeEntries 4 p.secondLevelTable (setUncached cacheable) (from' / 0x1000) n m) := by
  have hpage : ARMMMU.cPAGE_SIZE = 0x1000 := rfl
  simp only [NoWrap] at hwrap
  induction n generalizing from' fuel m t with
  | zero =>
    have hend : ¬ from' < to' := by
      simp only [rounds] at hn
      omega
    cases fuel <;> rw [setRangeLoop, if_neg hend, changeEntries]
  | succ n ih =>
    obtain ⟨fuel, rfl⟩ := Nat.exists_eq_succ_of_ne_zero (Nat.ne_zero_of_lt hfuel)
    simp only [rounds] at hn hwrap
    have hnext : (from' + ARMMMU.cPAGE_SIZE) % 2 ^ 32 = from' + 0x1000 := by omega
    have hmore : from' < to' := by omega
    have hstep := h.modify (i := from' / 0x1000) (f := setUncached cacheable)
      fun _ => present_setUncached
    have hrounds : n = rounds (from' + 0x1000) to' := by
      simp only [rounds]
      omega
    have hrest := ih hstep hrounds (show n ≤ fuel by omega) (by simp only [rounds]; omega)
    rw [Nat.add_div_right _ (by decide)] at hrest
    rw [setRangeLoop, if_pos hmore]
    simp only [modify_modify, h.getSecondLevelPageTableEntryFromAddress_eq (a := from') (by omega),
      hnext]
    exact hrest

/-- If every address that the steps can meet lies in front of the end, the loop never ends. -/
theorem setRangeLoop_hang {fuel : Nat}
    (hbelow : ∀ a < 2 ^ 32, a % 0x1000 = from' % 0x1000 → a < to') (hfrom : from' < 2 ^ 32) :
    setRangeLoop p to' cacheable fuel from' m = .error .hang := by
  have hpage : ARMMMU.cPAGE_SIZE = 0x1000 := rfl
  induction fuel generalizing from' m with
  | zero => rw [setRangeLoop, if_pos (hbelow _ hfrom rfl)]
  | succ fuel ih =>
    rw [setRangeLoop, if_pos (hbelow _ hfrom rfl)]
    have hnext : (from' + ARMMMU.cPAGE_SIZE) % 2 ^ 32 % 0x1000 = from' % 0x1000 := by omega
    exact ih (fun a ha hmod => hbelow a ha (hmod.trans hnext)) (Nat.mod_lt _ (by decide))

/-- The ARMv7 port sets a range exactly if the steps do not wrap and the range is empty, the steps
reach its last page, or this page has these attributes already. -/
theorem setsRange_iff (h : Tables p m t) (hle : from' ≤ to') (hto : to' < 2 ^ 32) :
    SetsRange p m from' to' cacheable ↔ NoWrap from' to' ∧
      ((from' = to' ∨ StepsReachEnd from' to') ∨
        setUncached cacheable (m (p.secondLevelTable + 4 * strayPage from' to')) =
          m (p.secondLevelTable + 4 * strayPage from' to')) := by
  by_cases hwrap : NoWrap from' to'
  · have hfuel : rounds from' to' ≤ 2 ^ 20 := by
      simp only [rounds]
      omega
    have hloop : setRangeCacheable p m from' to' cacheable = _ :=
      h.setRangeLoop_eq rfl hfuel hwrap
    simp only [SetsRange, hloop, Except.ok.injEq, exists_eq_left', hwrap, true_and]
    exact changesExactly_changeEntries_stray (by decide) fun i => while_differs_iff hle
  · have hhang : setRangeCacheable p m from' to' cacheable = .error .hang := by
      refine setRangeLoop_hang (fun a ha hmod => ?_) (by omega)
      simp only [NoWrap, rounds] at hwrap
      omega
    simp [SetsRange, hhang, hwrap]

end ARMPaging

/-! ## Both ports -/

/-- For every table and every range of addresses that it covers: when exactly the attributes of the
pages that meet the range are set. -/
theorem setRangeCacheable_iff (from' to' : Nat) (cacheable : Bool) (hle : from' ≤ to') :
    (∀ (p : X86Paging.Placement) (m : X86Paging.Memory) (t : X86MMU.X86Pagetable),
      X86Paging.Tables p m t → x86MMU.IsVirtual from' →
        to' ≤ X86Paging.cMAX_MEMORY_SIZE * 2 ^ 30 →
      (X86Paging.SetsRange p m from' to' cacheable ↔ from' < to' ∧ StepsReachEnd from' to' ∨
        X86Paging.setUncached cacheable (m (p.pte + 8 * strayPage from' to')) =
          m (p.pte + 8 * strayPage from' to'))) ∧
    ∀ (p : ARMPaging.Placement) (m : ARMPaging.Memory) (t : ARMMMU.ARMv7PageTable),
      ARMPaging.Tables p m t → armMMU.IsVirtual to' →
      (ARMPaging.SetsRange p m from' to' cacheable ↔ ARMPaging.NoWrap from' to' ∧
        ((from' = to' ∨ StepsReachEnd from' to') ∨
          ARMPaging.setUncached cacheable (m (p.secondLevelTable + 4 * strayPage from' to')) =
            m (p.secondLevelTable + 4 * strayPage from' to'))) :=
  ⟨fun _ _ _ h hfrom hto => X86Paging.setsRange_iff h hle hfrom hto,
    fun _ _ _ h hto => ARMPaging.setsRange_iff h hle hto⟩

/-- A whole page and a half, which the steps cover. -/
theorem setRangeCacheable_iff_pageAndHalf :
    X86Paging.SetsRange x86Placement (X86Paging.fillLinear x86Placement fun _ => 0) 0x3000 0x4800
        true ∧
      ARMPaging.SetsRange armPlacement (ARMPaging.fillLinear armPlacement fun _ => 0) 0x3000 0x4800
        true := by
  have hreach : StepsReachEnd 0x3000 0x4800 := by decide
  have hwrap : ARMPaging.NoWrap 0x3000 0x4800 := by
    unfold ARMPaging.NoWrap
    decide
  have hiff := setRangeCacheable_iff 0x3000 0x4800 true (by decide)
  exact ⟨(hiff.1 _ _ _ (X86Paging.fillLinear_tables _ _) (by decide) (by decide)).mpr
      (.inl ⟨by decide, hreach⟩),
    (hiff.2 _ _ _ (ARMPaging.fillLinear_tables _ _) (by decide)).mpr ⟨hwrap, .inl (.inr hreach)⟩⟩

namespace X86Paging

theorem setUncached_ne {p : Placement} {m : Memory} {i : Nat} (hi : i < pteEntries) :
    setUncached true (fillLinear p m (p.pte + 8 * i)) ≠ fillLinear p m (p.pte + 8 * i) := by
  intro heq
  have hpte := congrArg X86MMU.PteEntry.pwt ((fillLinear_tables p m).pte i hi)
  rw [pteEntry, ← heq] at hpte
  simp only [setUncached, BitField.getLsbD_set, Nat.reduceLeDiff] at hpte
  simp [X86MMU.fillLinear] at hpte

end X86Paging

namespace ARMPaging

theorem setUncached_ne {p : Placement} {m : Memory} {i : Nat} (hi : i < pages) :
    setUncached true (fillLinear p m (p.secondLevelTable + 4 * i)) ≠
      fillLinear p m (p.secondLevelTable + 4 * i) := by
  intro heq
  have hentry := congrArg ARMMMU.SecondLevelDescriptor.b
    ((fillLinear_tables p m).secondLevel i hi)
  rw [secondLevelDescriptor, ← heq] at hentry
  simp only [setUncached, BitField.getLsbD_set, Nat.reduceLeDiff] at hentry
  simp [ARMMMU.fillLinear] at hentry

end ARMPaging

/-- On x86 the page of an empty range is made cacheable; on ARMv7 the second page of a range that
ends with its first byte is not. -/
theorem setRangeCacheable_misses :
    (¬ ∀ from' to' : Nat, from' ≤ to' → x86MMU.IsVirtual to' → X86Paging.SetsRange x86Placement
        (X86Paging.fillLinear x86Placement fun _ => 0) from' to' true) ∧
      ¬ ∀ from' to' : Nat, from' ≤ to' → armMMU.IsVirtual to' → ARMPaging.SetsRange armPlacement
        (ARMPaging.fillLinear armPlacement fun _ => 0) from' to' true := by
  constructor
  · intro h
    rcases (X86Paging.setsRange_iff (X86Paging.fillLinear_tables _ _) (by decide) (by decide)
      (by decide)).mp (h 0x3000 0x3000 (by decide) (by decide)) with ⟨hlt, -⟩ | hstray
    · omega
    · exact X86Paging.setUncached_ne (by decide) hstray
  · intro h
    rcases (ARMPaging.setsRange_iff (ARMPaging.fillLinear_tables _ _) (by decide)
      (by decide)).mp (h 0x3800 0x4001 (by decide) (by decide)) with ⟨-, (heq | hreach) | hstray⟩
    · omega
    · exact absurd hreach (by decide)
    · exact ARMPaging.setUncached_ne (by decide) hstray

end CyPhOS
