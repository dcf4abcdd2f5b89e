import Mathlib.Algebra.GroupWithZero.Nat
import CyPhOS.CacheManagement.WayExclusivity
import CyPhOS.Lib.Recency

/-! # Which way is replaced

`getLRUWay` ages the ways with a count that goes up with each miss, as long as the way is idle, and
that a use resets. A `Recency` records the uses of the ways over a run, with the misses as epochs:
the count of an idle way is its age up to `lruMaxValue` (`AgeInv.age`). The way that `getLRUWay`
replaces has the greatest count, and the greatest index of those (`lruLoop_max`), which is the least
recently used one only up to ties (`replaces_oldest`).
-/

namespace CyPhOS

open Transition

namespace GenericCacheManagement

variable {O : Type} {c c' : GenericCacheManagement O} {v way dataStart : Nat}

/-! ## The loop -/

/-- A way that the loop looks at. -/
def Candidate (c : GenericCacheManagement O) (way : Nat) : Prop :=
  (c.mCacheWays way).permanentLocked = false ∧ (c.mCacheWays way).inUse = false

/-- A candidate that records nothing. -/
def Empty (c : GenericCacheManagement O) (way : Nat) : Prop :=
  c.Candidate way ∧ (c.mCacheWays way).dataStart = 0

instance (way : Nat) : Decidable (c.Candidate way) := inferInstanceAs (Decidable (_ ∧ _))

instance (way : Nat) : Decidable (c.Empty way) := inferInstanceAs (Decidable (_ ∧ _))

/-- A count that goes up, but not beyond its greatest value. -/
def agedCount (lruCount : Nat) : Nat :=
  if lruCount ≠ lruMaxValue then lruCount + 1 else lruCount

theorem agedCount_min (n : Nat) : agedCount (min lruMaxValue n) = min lruMaxValue (n + 1) := by
  rw [agedCount]
  split <;> omega

/-- What the loop does with a candidate on record. -/
def ageWay (c : GenericCacheManagement O) (way : Nat) : GenericCacheManagement O :=
  if (c.mCacheWays way).lruCount ≠ lruMaxValue then
    c.modifyWay way fun w => { w with lruCount := w.lruCount + 1 }
  else c

theorem ages_ageWay (c : GenericCacheManagement O) (way : Nat) : Ages c (c.ageWay way) := by
  rw [ageWay]
  split
  · exact Ages.modifyWay c way _
  · exact Ages.refl c

theorem ageWay_lruCount (way v : Nat) : ((c.ageWay way).mCacheWays v).lruCount =
    if v = way then agedCount (c.mCacheWays v).lruCount else (c.mCacheWays v).lruCount := by
  rw [ageWay, agedCount]
  rcases eq_or_ne v way with rfl | hne
  · split <;> simp_all
  · rw [if_neg hne]
    split
    · rw [modifyWay_of_ne hne]
    · rfl

theorem Ages.candidate_iff (h : Ages c c') : c'.Candidate v ↔ c.Candidate v := by
  obtain ⟨hlocked, -, -, -, hinUse⟩ := CacheWayState.unaged_eq_iff.mp (h.way v)
  rw [Candidate, Candidate, hlocked, hinUse]

theorem Ages.empty_iff (h : Ages c c') : c'.Empty v ↔ c.Empty v := by
  obtain ⟨-, hstart, -⟩ := CacheWayState.unaged_eq_iff.mp (h.way v)
  rw [Empty, Empty, h.candidate_iff, hstart]

/-- One round of the loop. -/
theorem lruLoop_cons (way : Nat) (ways : List Nat) (n : Nat) (best : Option Nat) :
    lruLoop (way :: ways) c n best =
      if c.Empty way then (some way, c)
      else if c.Candidate way then
        if (c.mCacheWays way).lruCount ≥ n then
          lruLoop ways (c.ageWay way) (c.mCacheWays way).lruCount (some way)
        else lruLoop ways (c.ageWay way) n best
      else lruLoop ways c n best := by
  rw [lruLoop]
  by_cases hcand : c.Candidate way
  · rw [if_pos (show _ ∧ _ from hcand)]
    by_cases hstart : (c.mCacheWays way).dataStart = 0
    · rw [if_pos hstart, if_pos ⟨hcand, hstart⟩]
    · have hempty : ¬ c.Empty way := fun h => hstart h.2
      rw [if_neg hstart, if_neg hempty, if_pos hcand]
      by_cases hge : (c.mCacheWays way).lruCount ≥ n
      · simp only [if_pos hge, ageWay]
      · simp only [if_neg hge, ageWay]
  · have hempty : ¬ c.Empty way := fun h => hcand h.1
    rw [if_neg (show ¬ (_ ∧ _) from hcand), if_neg hempty, if_neg hcand]

/-- The loop ages the candidates in front of the first empty way. -/
theorem lruLoop_lruCount {ways : List Nat} (hnodup : ways.Nodup) (n : Nat) (best : Option Nat)
    (v : Nat) : ((lruLoop ways c n best).2.mCacheWays v).lruCount =
      if v ∈ ways.takeWhile (fun w => ¬ c.Empty w) ∧ c.Candidate v then
        agedCount (c.mCacheWays v).lruCount
      else (c.mCacheWays v).lruCount := by
  induction ways generalizing c n best with
  | nil => rfl
  | cons way ways ih =>
    obtain ⟨hway, hnodup⟩ := List.nodup_cons.mp hnodup
    rw [lruLoop_cons]
    by_cases hempty : c.Empty way
    · simp [hempty]
    rw [if_neg hempty, List.takeWhile_cons_of_pos (by simpa using hempty)]
    by_cases hcand : c.Candidate way
    · have hages := ages_ageWay c way
      have hsame : (fun w => decide ¬ (c.ageWay way).Empty w) = fun w => decide ¬ c.Empty w :=
        funext fun w => decide_eq_decide.mpr (not_congr hages.empty_iff)
      have hrest : ∀ n best, ((lruLoop ways (c.ageWay way) n best).2.mCacheWays v).lruCount =
          if v ∈ way :: ways.takeWhile (fun w => ¬ c.Empty w) ∧ c.Candidate v then
            agedCount (c.mCacheWays v).lruCount
          else (c.mCacheWays v).lruCount := by
        intro n best
        rw [ih hnodup, hsame, ageWay_lruCount]
        simp only [hages.candidate_iff]
        rcases eq_or_ne v way with rfl | hne
        · have hnot : v ∉ ways.takeWhile fun w => ¬ c.Empty w := fun h =>
            hway (List.takeWhile_sublist _ |>.subset h)
          rw [if_neg fun h => hnot h.1, if_pos rfl, if_pos ⟨List.mem_cons_self, hcand⟩]
        · simp [hne]
      rw [if_pos hcand]
      split <;> exact hrest _ _
    · rw [if_neg hcand, ih hnodup]
      rcases eq_or_ne v way with rfl | hne
      · simp [hcand]
      · simp [hne]

/-- The first empty way is taken. -/
theorem lruLoop_empty {ways : List Nat} (h : ∃ w ∈ ways, c.Empty w) (n : Nat) (best : Option Nat) :
    (lruLoop ways c n best).1 = ways.find? fun w => c.Empty w := by
  induction ways generalizing c n best with
  | nil => simp at h
  | cons way ways ih =>
    rw [lruLoop_cons]
    by_cases hempty : c.Empty way
    · simp [hempty]
    have hrest : ∃ w ∈ ways, c.Empty w := by simpa [hempty] using h
    have hages := ages_ageWay c way
    have hsame : (fun w => decide ((c.ageWay way).Empty w)) = fun w => decide (c.Empty w) :=
      funext fun w => decide_eq_decide.mpr hages.empty_iff
    have hrest₁ : ∃ w ∈ ways, (c.ageWay way).Empty w := by simpa only [hages.empty_iff] using hrest
    rw [if_neg hempty, List.find?_cons_of_neg (by simpa using hempty)]
    split
    · split
      · rw [ih hrest₁, hsame]
      · rw [ih hrest₁, hsame]
    · exact ih hrest n best

/-- Without an empty way the loop finds a candidate with the greatest count, and the greatest index
of those, unless no candidate has a count of at least `n`. -/
theorem lruLoop_max {ways : List Nat} (hsorted : ways.Pairwise (· < ·))
    (hfull : ∀ w ∈ ways, ¬ c.Empty w) (n : Nat) (best : Option Nat) :
    (∃ b ∈ ways, (lruLoop ways c n best).1 = some b ∧ c.Candidate b ∧
      n ≤ (c.mCacheWays b).lruCount ∧ ∀ v ∈ ways, c.Candidate v →
        (c.mCacheWays v).lruCount < (c.mCacheWays b).lruCount ∨
          (c.mCacheWays v).lruCount = (c.mCacheWays b).lruCount ∧ v ≤ b) ∨
    (lruLoop ways c n best).1 = best ∧ ∀ v ∈ ways, c.Candidate v → (c.mCacheWays v).lruCount < n := by
  induction ways generalizing c n best with
  | nil => exact .inr ⟨rfl, by simp⟩
  | cons way ways ih =>
    obtain ⟨hlt, hsorted⟩ := List.pairwise_cons.mp hsorted
    obtain ⟨hempty, hfull⟩ := List.forall_mem_cons.mp hfull
    rw [lruLoop_cons, if_neg hempty]
    by_cases hcand : c.Candidate way
    · have hages := ages_ageWay c way
      -- the counts of the ways that remain are the ones the loop started with
      have hcount : ∀ v ∈ ways, ((c.ageWay way).mCacheWays v).lruCount =
          (c.mCacheWays v).lruCount := fun v hv => by
        rw [ageWay_lruCount, if_neg (hlt v hv).ne']
      have hfull₁ : ∀ w ∈ ways, ¬ (c.ageWay way).Empty w := fun w hw h =>
        hfull w hw (hages.empty_iff.mp h)
      rw [if_pos hcand]
      split
      · next hge =>
        rcases ih hsorted hfull₁ (c.mCacheWays way).lruCount (some way) with
          ⟨b, hb, hloop, hcandb, hmin, hmax⟩ | ⟨hloop, hless⟩
        · rw [hcount b hb] at hmin hmax
          refine .inl ⟨b, .tail _ hb, hloop, hages.candidate_iff.mp hcandb, hge.trans hmin, ?_⟩
          refine List.forall_mem_cons.mpr ⟨fun _ => ?_, fun v hv hcandv => ?_⟩
          · exact hmin.lt_or_eq.imp_right fun heq => ⟨heq, (hlt b hb).le⟩
          · have := hmax v hv (hages.candidate_iff.mpr hcandv)
            rwa [hcount v hv] at this
        · refine .inl ⟨way, .head _, hloop, hcand, hge, ?_⟩
          refine List.forall_mem_cons.mpr ⟨fun _ => .inr ⟨rfl, le_rfl⟩, fun v hv hcandv => .inl ?_⟩
          have := hless v hv (hages.candidate_iff.mpr hcandv)
          rwa [hcount v hv] at this
      · next hless₀ =>
        rcases ih hsorted hfull₁ n best with ⟨b, hb, hloop, hcandb, hmin, hmax⟩ | ⟨hloop, hless⟩
        · rw [hcount b hb] at hmin hmax
          refine .inl ⟨b, .tail _ hb, hloop, hages.candidate_iff.mp hcandb, hmin, ?_⟩
          refine List.forall_mem_cons.mpr ⟨fun _ => .inl (by omega), fun v hv hcandv => ?_⟩
          have := hmax v hv (hages.candidate_iff.mpr hcandv)
          rwa [hcount v hv] at this
        · refine .inr ⟨hloop, List.forall_mem_cons.mpr ⟨fun _ => by omega, fun v hv hcandv => ?_⟩⟩
          have := hless v hv (hages.candidate_iff.mpr hcandv)
          rwa [hcount v hv] at this
    · rw [if_neg hcand]
      rcases ih hsorted hfull n best with ⟨b, hb, hloop, hcandb, hmin, hmax⟩ | ⟨hloop, hless⟩
      · exact .inl ⟨b, .tail _ hb, hloop, hcandb, hmin,
          List.forall_mem_cons.mpr ⟨fun h => absurd h hcand, hmax⟩⟩
      · exact .inr ⟨hloop, List.forall_mem_cons.mpr ⟨fun h => absurd h hcand, hless⟩⟩

theorem mem_takeWhile_range {p : Nat → Bool} {n : Nat} (hv : v < n) (hp : ∀ w ≤ v, p w = true) :
    v ∈ (List.range n).takeWhile p := by
  obtain ⟨k, rfl⟩ : ∃ k, n = v + 1 + k := Nat.exists_eq_add_of_le hv
  have hfirst : ∀ w ∈ List.range (v + 1), p w = true := fun w hw =>
    hp w (Nat.lt_succ_iff.mp (List.mem_range.mp hw))
  rw [List.range_add, List.takeWhile_append_of_pos hfirst]
  exact List.mem_append_left _ (List.mem_range.mpr (Nat.lt_succ_self v))

/-! ## What a run says about the counts -/

/-- The counts are the ages of the ways. The empty ways are the last ones, so that the loop, which
ends at the first of them, ages all ways on record. -/
structure AgeInv (c : GenericCacheManagement O) (r : Recency Nat) : Prop where
  ordered : r.Ordered
  empty_up : ∀ v w, v < w → w < c.mCacheWayCount → c.Empty v →
    (c.mCacheWays w).permanentLocked = false → c.Empty w
  age : ∀ v < c.mCacheWayCount, c.Candidate v → (c.mCacheWays v).dataStart ≠ 0 →
    (c.mCacheWays v).lruCount = min lruMaxValue (r.age v)

variable {r : Recency Nat}

theorem SameUse.candidate_iff (h : SameUse c c' v) : c'.Candidate v ↔ c.Candidate v := by
  rw [Candidate, Candidate, h.permanentLocked, h.inUse]

theorem SameUse.empty_iff (h : SameUse c c' v) : c'.Empty v ↔ c.Empty v := by
  rw [Empty, Empty, h.candidate_iff, h.dataStart]

/-- A write to the record that leaves the count of the way. -/
theorem modifyWay_lruCount {f : CacheWayState O → CacheWayState O}
    (hf : ∀ w, (f w).lruCount = w.lruCount) :
    ((c.modifyWay way f).mCacheWays v).lruCount = (c.mCacheWays v).lruCount := by
  rcases eq_or_ne v way with rfl | hne
  · rw [modifyWay_self, hf]
  · rw [modifyWay_of_ne hne]

/-- Nothing changes but ways that are in use before and after. -/
theorem AgeInv.frame (h : AgeInv c r) (hcount : c'.mCacheWayCount = c.mCacheWayCount)
    (hsame : ∀ v, SameUse c c' v ∧ (c'.mCacheWays v).lruCount = (c.mCacheWays v).lruCount ∨
      (c'.mCacheWays v).permanentLocked = (c.mCacheWays v).permanentLocked ∧
        (c.mCacheWays v).inUse = true ∧ (c'.mCacheWays v).inUse = true) : AgeInv c' r.tick := by
  have hempty : ∀ v, c'.Empty v ↔ c.Empty v := by
    intro v
    rcases hsame v with ⟨hsame, -⟩ | ⟨-, hbusy, hbusy'⟩
    · exact hsame.empty_iff
    · simp [Empty, Candidate, hbusy, hbusy']
  refine ⟨h.ordered.tick, fun v w hlt hw hv hunlocked => ?_, fun v hv hcand hstart => ?_⟩
  · have hunlocked' : (c.mCacheWays w).permanentLocked = false := by
      rcases hsame w with ⟨hsame, -⟩ | ⟨hlocked, -⟩
      · rwa [hsame.permanentLocked] at hunlocked
      · rwa [hlocked] at hunlocked
    exact (hempty w).mpr (h.empty_up v w hlt (hcount ▸ hw) ((hempty v).mp hv) hunlocked')
  · rcases hsame v with ⟨hsame, hage⟩ | ⟨-, -, hbusy⟩
    · rw [hsame.dataStart] at hstart
      rw [hage, Recency.age_tick]
      exact h.age v (hcount ▸ hv) (hsame.candidate_iff.mp hcand) hstart
    · rw [hcand.2] at hbusy
      cases hbusy

/-- A way on record has no empty way in front of it. -/
theorem AgeInv.not_empty (h : AgeInv c r) (hv : v < c.mCacheWayCount) (hcand : c.Candidate v)
    (hstart : (c.mCacheWays v).dataStart ≠ 0) : ∀ w ≤ v, ¬ c.Empty w := by
  intro w hw hempty
  rcases hw.lt_or_eq with hlt | rfl
  · exact hstart (h.empty_up w v hlt hv hempty hcand.1).2
  · exact hstart hempty.2

/-- A miss ages all candidates on record. -/
theorem AgeInv.loop_age (h : AgeInv c r) (hv : v < c.mCacheWayCount) (hcand : c.Candidate v)
    (hstart : (c.mCacheWays v).dataStart ≠ 0) :
    ((lruLoop (List.range c.mCacheWayCount) c 0 none).2.mCacheWays v).lruCount =
      min lruMaxValue (r.nextEpoch.age v) := by
  have hmem : v ∈ (List.range c.mCacheWayCount).takeWhile fun w => ¬ c.Empty w :=
    mem_takeWhile_range hv fun w hw => by simpa using h.not_empty hv hcand hstart w hw
  rw [lruLoop_lruCount List.nodup_range, if_pos ⟨hmem, hcand⟩, h.age v hv hcand hstart,
    agedCount_min, h.ordered.age_nextEpoch]

theorem AgeInv.hit (h : AgeInv c r) (hstart : dataStart ≠ 0)
    (hfound : c.findWay dataStart = some way) :
    AgeInv (c.modifyWay way fun w => { w with lruCount := 0, inUse := true })
      (r.tick.use (· = way)) := by
  obtain ⟨-, hway⟩ := findWay_eq_some hfound
  have hempty : ∀ v, (c.modifyWay way fun w => { w with lruCount := 0, inUse := true }).Empty v ↔
      c.Empty v := by
    intro v
    rcases eq_or_ne v way with rfl | hne
    · simp [Empty, hway, hstart]
    · simp [Empty, Candidate, modifyWay_of_ne hne]
  refine ⟨h.ordered.tick.use _, fun v w hlt hw hv hunlocked => ?_, fun v hv hcand hs => ?_⟩
  · have hunlocked' : (c.mCacheWays w).permanentLocked = false := by
      rcases eq_or_ne w way with rfl | hne
      · simpa using hunlocked
      · rwa [modifyWay_of_ne hne] at hunlocked
    exact (hempty w).mpr (h.empty_up v w hlt hw ((hempty v).mp hv) hunlocked')
  · rcases eq_or_ne v way with rfl | hne
    · simp [Candidate] at hcand
    · rw [Candidate, modifyWay_of_ne hne] at hcand
      rw [modifyWay_of_ne hne] at hs ⊢
      rw [Recency.age_use_of_neg (p := (· = way)) hne]
      exact h.age v hv hcand hs

theorem AgeInv.miss (h : AgeInv c r)
    (hway : (lruLoop (List.range c.mCacheWayCount) c 0 none).1 = some way) :
    AgeInv ((lruLoop (List.range c.mCacheWayCount) c 0 none).2.takeWay way)
      (r.tick.nextEpoch.use (· = way)) := by
  obtain ⟨hages, -⟩ := lruLoop_spec (c := c) (List.range c.mCacheWayCount) 0 none (by simp)
    fun v hv => List.mem_range.mp hv
  have hage := fun v hv hcand hs => h.loop_age (v := v) hv hcand hs
  have hfirst : ∀ v < c.mCacheWayCount, c.Empty v → way ≤ v := by
    intro v hv hempty
    rw [lruLoop_empty ⟨v, List.mem_range.mpr hv, hempty⟩] at hway
    by_contra hlt
    have := (List.find?_range_eq_some.mp hway).2.2 v (Nat.lt_of_not_le hlt)
    simp [hempty] at this
  generalize (lruLoop (List.range c.mCacheWayCount) c 0 none).2 = c₁ at hages hage ⊢
  have hbusy : ((c₁.takeWay way).mCacheWays way).inUse = true := by rw [takeWay_self]
  have hcand_iff : ∀ v ≠ way, (c₁.takeWay way).Candidate v ↔ c.Candidate v := fun v hne => by
    rw [← hages.candidate_iff, Candidate, takeWay_of_ne hne, ← Candidate]
  have hempty_iff : ∀ v ≠ way, (c₁.takeWay way).Empty v ↔ c.Empty v := fun v hne => by
    rw [← hages.empty_iff, Empty, Candidate, takeWay_of_ne hne, ← Candidate, ← Empty]
  refine ⟨h.ordered.tick.nextEpoch.use _, fun v w hlt hw hv hunlocked => ?_,
    fun v hv hcand hs => ?_⟩
  · rw [takeWay_count, hages.count] at hw
    have hvway : v ≠ way := by
      rintro rfl
      rw [hv.1.2] at hbusy
      cases hbusy
    have hv := (hempty_iff v hvway).mp hv
    -- the way that was taken is the first empty one
    have hwway : w ≠ way := ((hfirst v (hlt.trans hw) hv).trans_lt hlt).ne'
    rw [takeWay_of_ne hwway, (CacheWayState.unaged_eq_iff.mp (hages.way w)).1] at hunlocked
    exact (hempty_iff w hwway).mpr (h.empty_up v w hlt hw hv hunlocked)
  · rw [takeWay_count, hages.count] at hv
    have hvway : v ≠ way := by
      rintro rfl
      rw [hcand.2] at hbusy
      cases hbusy
    have hcand := (hcand_iff v hvway).mp hcand
    rw [takeWay_of_ne hvway] at hs ⊢
    rw [(CacheWayState.unaged_eq_iff.mp (hages.way v)).2.1] at hs
    rw [Recency.age_use_of_neg (p := (· = way)) hvway, hage v hv hcand hs]
    rfl

/-- After a lookup that hands out no way there is no candidate. -/
theorem AgeInv.noWay (h : AgeInv c r) (hway : c.getLRUWay dataStart = (none, c')) :
    AgeInv c' r.tick.nextEpoch := by
  have hages := getLRUWay_none hway
  have hnone : (GenericCacheManagement.lruLoop (List.range c.mCacheWayCount) c 0 none).1 = none := by
    rw [getLRUWay] at hway
    split at hway
    · cases hway
    · split at hway
      · next hloop => rw [hloop]
      · cases hway
  have hfull : ∀ w ∈ List.range c.mCacheWayCount, ¬ c.Empty w := by
    intro w hw hempty
    rw [lruLoop_empty ⟨w, hw, hempty⟩] at hnone
    simpa [hempty] using List.find?_eq_none.mp hnone w hw
  have hcand : ∀ v < c.mCacheWayCount, ¬ c.Candidate v := by
    rcases lruLoop_max (List.pairwise_lt_range) hfull 0 none with ⟨b, -, hb, -⟩ | ⟨-, hless⟩
    · rw [hnone] at hb
      cases hb
    · exact fun v hv hcand => Nat.not_lt_zero _ (hless v (List.mem_range.mpr hv) hcand)
  refine ⟨h.ordered.tick.nextEpoch, fun v w hlt hw hv _ => ?_, fun v hv hcandv _ => ?_⟩
  · have hv' := hages.empty_iff.mp hv
    exact (hcand v (hlt.trans (hages.count ▸ hw)) hv'.1).elim
  · exact (hcand v (hages.count ▸ hv) (hages.candidate_iff.mp hcandv)).elim

section
variable [DecidableEq O] {layout : MemoryLayout O}

theorem AgeInv.freeOSC (h : AgeInv c r) (hlayout : layout.Disjoint) (osc : O) :
    AgeInv (c.freeOSC layout osc) (r.tick.use (c.contains layout osc)) := by
  have hstart : ∀ v, c.contains layout osc v → (c.mCacheWays v).dataStart ≠ 0 := fun v hv =>
    ((hlayout.start_pos osc).trans_le hv.1).ne'
  have hcount := freeOSC_count layout c osc
  have hway : ∀ v < c.mCacheWayCount, (c.freeOSC layout osc).mCacheWays v =
      if c.contains layout osc v then { c.mCacheWays v with inUse := false, lruCount := 0 }
      else c.mCacheWays v := fun v hv => freeOSC_mCacheWays hv
  have hempty : ∀ v < c.mCacheWayCount, (c.freeOSC layout osc).Empty v ↔ c.Empty v := by
    intro v hv
    rw [Empty, Empty, Candidate, Candidate, hway v hv]
    split
    · next hcontains => simp [hstart v hcontains]
    · rfl
  refine ⟨h.ordered.tick.use _, fun v w hlt hw hv hunlocked => ?_, fun v hv hcand hs => ?_⟩
  · rw [hcount] at hw
    have hunlocked' : (c.mCacheWays w).permanentLocked = false := by
      rw [hway w hw] at hunlocked
      split at hunlocked <;> exact hunlocked
    exact (hempty w hw).mpr (h.empty_up v w hlt hw ((hempty v (hlt.trans hw)).mp hv) hunlocked')
  · rw [hcount] at hv
    by_cases hcontains : c.contains layout osc v
    · rw [hway v hv, if_pos hcontains, Recency.age_use_of_pos hcontains]
      rfl
    · rw [Candidate, hway v hv, if_neg hcontains] at hcand
      rw [hway v hv, if_neg hcontains] at hs ⊢
      rw [Recency.age_use_of_neg hcontains]
      exact h.age v hv hcand hs

/-! ## Runs -/

/-- What a step means for the uses of the ways. A way is used when it is handed out and when it is
released. -/
def noteUse {C : Type} (layout : MemoryLayout O) (m : SharedState C O) (l : SharedLabel C O)
    (r : Recency Nat) : Recency Nat :=
  match l with
  | .getLRUWay _ _ dataStart way =>
    (if m.cache.findWay dataStart = none then r.tick.nextEpoch else r.tick).use (· = way)
  | .noWay _ => r.tick.nextEpoch
  | .freeOSC _ osc => r.tick.use (m.cache.contains layout osc)
  | _ => r.tick

variable {C : Type} [DecidableEq C]

/-- A step of the machine, and its uses of the ways. -/
def UseStep (layout : MemoryLayout O) (s : SharedState C O × Recency Nat) (l : SharedLabel C O)
    (s' : SharedState C O × Recency Nat) : Prop :=
  SharedStep layout s.1 l s'.1 ∧ s'.2 = noteUse layout s.1 l s.2

variable {m m' : SharedState C O} {l : SharedLabel C O}

theorem AgeInv.step (hlayout : layout.Disjoint) (hex : Exclusive layout m) (h : AgeInv m.cache r)
    (hstep : SharedStep layout m l m') : AgeInv m'.cache (noteUse layout m l r) := by
  cases hstep with
  | activate | preloadSingleOSC | skipPreload | prefetchDataToWay | preloaded | lookupAndEvictOSC =>
    exact h.frame rfl fun v => .inl ⟨.of_eq rfl, rfl⟩
  | @getLRUWay cpu osc oscStart skipPreload way c hcontrol _ hway =>
    have hle := ((hex.cpu cpu).preload osc oscStart skipPreload hcontrol).2
    have hstart : oscStart ≠ 0 := ((hlayout.start_pos osc).trans_le hle).ne'
    rw [GenericCacheManagement.getLRUWay] at hway
    simp only [noteUse]
    split at hway
    · next found hfound =>
      obtain ⟨rfl, rfl⟩ : found = way ∧ _ = c := by simpa using hway
      rw [hfound, if_neg (by simp)]
      exact h.hit hstart hfound
    · next hnone =>
      rw [if_pos hnone]
      split at hway
      · simp at hway
      · next best c₁ hloop =>
        obtain ⟨rfl, rfl⟩ : best = way ∧ c₁.takeWay best = c := by simpa using hway
        have hfound : (lruLoop (List.range m.cache.mCacheWayCount) m.cache 0 none).1 = some best := by
          rw [hloop]
        have hmiss := h.miss hfound
        rwa [hloop] at hmiss
  | noWay _ _ hway => exact h.noWay hway
  | @setDataStart cpu osc oscStart skipPreload way hcontrol =>
    obtain ⟨hholds, -⟩ := (hex.cpu cpu).holds osc oscStart way false (by rw [hcontrol]; rfl)
    refine h.frame rfl fun v => ?_
    rcases eq_or_ne v way with rfl | hne
    · refine .inr ⟨?_, hholds.inUse, ?_⟩
      · simp [GenericCacheManagement.setDataStart]
      · simpa [GenericCacheManagement.setDataStart]
          using hholds.inUse
    · have hway : (m.cache.setDataStart way oscStart).mCacheWays v = m.cache.mCacheWays v :=
        modifyWay_of_ne hne
      simp only [SharedState.goto_cache]
      exact .inl ⟨⟨by rw [hway], by rw [hway], by rw [hway]⟩, by rw [hway]⟩
  | @setDataEnd cpu osc oscStart skipPreload way hcontrol =>
    refine h.frame rfl fun v => .inl ?_
    have hsame : SameUse m.cache (m.cache.setDataEnd way (preloadEnd layout oscStart (layout.getOSCEnd osc))) v :=
      .modifyWay fun _ => ⟨rfl, rfl, rfl⟩
    have hcount : ((m.cache.setDataEnd way (preloadEnd layout oscStart (layout.getOSCEnd osc))).mCacheWays
        v).lruCount = (m.cache.mCacheWays v).lruCount := modifyWay_lruCount fun _ => rfl
    exact ⟨hsame, hcount⟩
  | @setOsc cpu osc oscStart skipPreload way hcontrol =>
    refine h.frame rfl fun v => .inl ?_
    have hsame : SameUse m.cache (m.cache.setOsc way osc) v :=
      .modifyWay fun _ => ⟨rfl, rfl, rfl⟩
    have hcount : ((m.cache.setOsc way osc).mCacheWays v).lruCount =
        (m.cache.mCacheWays v).lruCount := modifyWay_lruCount fun _ => rfl
    exact ⟨hsame, hcount⟩
  | @evictCacheWay cpu osc way hcontrol _ =>
    refine h.frame (evictOne_count ..) fun v => .inl ⟨.evictOne .., ?_⟩
    simp only [SharedState.goto_cache, evictOne]
    split <;> rfl
  | @freeOSC cpu osc way hcontrol _ => exact h.freeOSC hlayout osc

omit [DecidableEq O] in
theorem AgeInv.booted (h : Booted layout c) : AgeInv c Recency.start := by
  refine ⟨.start, fun v w _ _ _ hunlocked => ?_, fun v _ _ hstart => ?_⟩
  · exact ⟨⟨hunlocked, (h.unused w).inUse⟩, (h.unused w).dataStart⟩
  · exact absurd (h.unused v).dataStart hstart

theorem AgeInv.run (hlayout : layout.Disjoint) (hboot : Booted layout c)
    {ls : List (SharedLabel C O)}
    (hrun : Run (UseStep layout) (.initial c, Recency.start) ls (m, r)) : AgeInv m.cache r := by
  have hinv : Exclusive layout m ∧ AgeInv m.cache r := by
    refine hrun.invariant (motive := fun s => Exclusive layout s.1 ∧ AgeInv s.1.cache s.2)
      ⟨.initial hboot, .booted hboot⟩ ?_
    rintro ⟨m, r⟩ l ⟨m', r'⟩ ⟨hex, h⟩ ⟨hstep, hr⟩
    dsimp only at hstep hr
    rw [hr]
    exact ⟨hex.step hlayout hstep, h.step hlayout hex hstep⟩
  exact hinv.2

/-- If a way on record has to be replaced, it is one with the most misses since its last use, of
which `lruMaxValue` are counted, and the last one of these. A candidate whose last use lies further
back was last used between the same two misses, or both have reached the greatest count. -/
theorem replaces_oldest (hlayout : layout.Disjoint) (hboot : Booted layout c)
    {ls : List (SharedLabel C O)}
    (hrun : Run (UseStep layout) (.initial c, Recency.start) ls (m, r))
    (hmiss : m.cache.findWay dataStart = none)
    (hfull : ∀ v < m.cache.mCacheWayCount, m.cache.Candidate v →
      (m.cache.mCacheWays v).dataStart ≠ 0)
    (hway : m.cache.getLRUWay dataStart = (some way, c')) :
    m.cache.Candidate way ∧ ∀ v < m.cache.mCacheWayCount, m.cache.Candidate v →
      (min lruMaxValue (r.age v) < min lruMaxValue (r.age way) ∨
        min lruMaxValue (r.age v) = min lruMaxValue (r.age way) ∧ v ≤ way) ∧
      (r.lastUse v < r.lastUse way →
        r.usedIn v = r.usedIn way ∨ lruMaxValue ≤ r.age way) := by
  have h := AgeInv.run hlayout hboot hrun
  have hnoEmpty : ∀ w ∈ List.range m.cache.mCacheWayCount, ¬ m.cache.Empty w := fun w hw hempty =>
    hfull w (List.mem_range.mp hw) hempty.1 hempty.2
  have hfound : (lruLoop (List.range m.cache.mCacheWayCount) m.cache 0 none).1 = some way := by
    rw [getLRUWay, hmiss] at hway
    dsimp only at hway
    split at hway
    · simp at hway
    · next best c₁ hloop =>
      obtain ⟨rfl, -⟩ : best = way ∧ _ = c' := by simpa using hway
      rw [hloop]
  rcases lruLoop_max List.pairwise_lt_range hnoEmpty 0 none with
    ⟨b, hb, hloop, hcand, -, hmax⟩ | ⟨hnone, -⟩
  · obtain rfl : b = way := Option.some.inj (hloop.symm.trans hfound)
    refine ⟨hcand, fun v hv hcandv => ?_⟩
    have hbw := List.mem_range.mp hb
    have hle := hmax v (List.mem_range.mpr hv) hcandv
    rw [h.age v hv hcandv (hfull v hv hcandv), h.age b hbw hcand (hfull b hbw hcand)] at hle
    refine ⟨hle, fun hlt => h.ordered.tie hlt ?_⟩
    exact hle.elim Nat.le_of_lt fun h => h.1.le
  · rw [hfound] at hnone
    cases hnone

end

/-! ## Two components that are released one after the other -/

/-- For the numbers of the components. -/
local instance three_components : NeZero 3 := ⟨Nat.succ_ne_zero 2⟩

/-- Three components of one page, each smaller than a way. -/
def threePages : MemoryLayout (Fin 3) where
  getOSCStart osc := 0x1000 * (osc.val + 1)
  getOSCTextEnd osc := 0x1000 * (osc.val + 1) + 0x800
  getOSCEnd osc := 0x1000 * (osc.val + 2)
  getCacheWaySize := 0x8000
  four_le := four_le_way

theorem threePages_disjoint : threePages.Disjoint := by
  refine ⟨fun _ => Nat.mul_pos (by decide) (Nat.succ_pos _), fun {osc osc' a} h₁ h₂ h₃ h₄ => ?_⟩
  simp only [threePages] at h₁ h₂ h₃ h₄
  exact Fin.ext (by omega)

/-- One CPU, on which all three may be active. -/
def onOneCpu (c : GenericCacheManagement (Fin 3)) (preloaded : List (Fin 3))
    (control : Control (Fin 3)) : SharedState Unit (Fin 3) :=
  ⟨c, fun _ => ⟨[0, 1, 2], preloaded, control⟩⟩

variable {c c' : GenericCacheManagement (Fin 3)} {pre pre' : List (Fin 3)}
  {control control' : Control (Fin 3)} {osc : Fin 3}

theorem onOneCpu_step {l : SharedLabel Unit (Fin 3)}
    (h : SharedStep threePages (onOneCpu c pre control) l
      ((onOneCpu c pre control).set c' () ⟨[0, 1, 2], pre', control'⟩)) (r : Recency Nat) :
    UseStep threePages (onOneCpu c pre control, r) l
      (onOneCpu c' pre' control', noteUse threePages (onOneCpu c pre control) l r) := by
  refine ⟨?_, rfl⟩
  have hset : (onOneCpu c pre control).set c' () ⟨[0, 1, 2], pre', control'⟩ =
      onOneCpu c' pre' control' :=
    congrArg (SharedState.mk c') (funext fun _ => Function.update_self ..)
  rwa [hset] at h

theorem mem_active : ∀ osc : Fin 3, osc ∈ [(0 : Fin 3), 1, 2] := by
  decide

/-- The cache management after a component has been preloaded to a way. -/
def loaded (c : GenericCacheManagement (Fin 3)) (osc : Fin 3) (way : Nat) :
    GenericCacheManagement (Fin 3) :=
  let start := threePages.getOSCStart osc
  let end_ := preloadEnd threePages start (threePages.getOSCEnd osc)
  ((((c.getLRUWay start).2.prefetchDataToWay start end_
    (if threePages.getOSCTextEnd osc ≤ end_ then threePages.getOSCTextEnd osc else end_)
    way).setDataStart way start).setDataEnd way end_).setOsc way osc

def preloadLabels (osc : Fin 3) (way : Nat) : List (SharedLabel Unit (Fin 3)) :=
  let start := threePages.getOSCStart osc
  [.preloadSingleOSC () osc, .getLRUWay () osc start way, .prefetchDataToWay () way,
    .setDataStart () osc start way, .setDataEnd () osc start way, .setOsc () osc start way,
    .preloaded ()]

theorem threePages_preloadEnd : ∀ osc : Fin 3, preloadEnd threePages
    (threePages.getOSCStart osc) (threePages.getOSCEnd osc) = threePages.getOSCEnd osc := by
  decide

theorem preload_run (pre : List (Fin 3)) (osc : Fin 3) (way : Nat) (r : Recency Nat)
    (hway : (c.getLRUWay (threePages.getOSCStart osc)).1 = some way)
    (hnew : (false || ((c.getLRUWay (threePages.getOSCStart osc)).2.mCacheWays way).dataStart ==
      threePages.getOSCStart osc) = false) :
    ∃ r', Run (UseStep threePages) (onOneCpu c pre .idle, r) (preloadLabels osc way)
      (onOneCpu (loaded c osc way) (osc :: pre) .idle, r') := by
  have hlt : threePages.getOSCStart osc < threePages.getOSCEnd osc := by
    simp only [threePages]
    omega
  have hpair : c.getLRUWay (threePages.getOSCStart osc) =
      (some way, (c.getLRUWay (threePages.getOSCStart osc)).2) := Prod.ext hway rfl
  have hdone : ¬ nextStart (preloadEnd threePages (threePages.getOSCStart osc)
      (threePages.getOSCEnd osc)) (threePages.getOSCEnd osc) < threePages.getOSCEnd osc := by
    rw [threePages_preloadEnd]
    simp [nextStart]
  exact ⟨_, Run.nil
    |>.snoc (onOneCpu_step (.preloadSingleOSC rfl (mem_active osc)) r)
    |>.snoc (onOneCpu_step (.getLRUWay rfl hlt hpair) _)
    |>.snoc (onOneCpu_step (.prefetchDataToWay rfl hnew rfl) _)
    |>.snoc (onOneCpu_step (.setDataStart rfl) _)
    |>.snoc (onOneCpu_step (.setDataEnd rfl) _)
    |>.snoc (onOneCpu_step (.setOsc rfl) _)
    |>.snoc (onOneCpu_step (.preloaded rfl hdone) _)⟩

/-- The cache management after a component has been evicted from two ways. -/
def evicted (c : GenericCacheManagement (Fin 3)) (osc : Fin 3) : GenericCacheManagement (Fin 3) :=
  (evictOne threePages osc (evictOne threePages osc c 0) 1).freeOSC threePages osc

def evictLabels (osc : Fin 3) : List (SharedLabel Unit (Fin 3)) :=
  [.lookupAndEvictOSC () osc, .evictCacheWay () 0, .evictCacheWay () 1, .freeOSC () osc]

theorem evictOne_mCacheWays (way : Nat) :
    (evictOne threePages osc c way).mCacheWays = c.mCacheWays := by
  rw [evictOne]
  split <;> rfl

theorem contains_evicted (v : Nat) :
    (evictOne threePages osc (evictOne threePages osc c 0) 1).contains threePages osc v ↔
      c.contains threePages osc v := by
  rw [contains, contains, evictOne_mCacheWays, evictOne_mCacheWays]

theorem evict_run (pre : List (Fin 3)) (osc : Fin 3) (r : Recency Nat)
    (hcount : c.mCacheWayCount = 2) :
    ∃ r', Run (UseStep threePages) (onOneCpu c pre .idle, r) (evictLabels osc)
      (onOneCpu (evicted c osc) (pre.filter (· ≠ osc)) .idle, r') ∧ r.now < r'.now ∧
      ∀ v, r'.lastUse v = if c.contains threePages osc v then r'.now else r.lastUse v := by
  have h₀ : 0 < c.mCacheWayCount := by omega
  have h₁ : 1 < (evictOne threePages osc c 0).mCacheWayCount := by rw [evictOne_count]; omega
  have h₂ : ¬ 2 < (evictOne threePages osc (evictOne threePages osc c 0) 1).mCacheWayCount := by
    rw [evictOne_count, evictOne_count]; omega
  refine ⟨_, Run.nil
    |>.snoc (onOneCpu_step (.lookupAndEvictOSC rfl (mem_active osc)) r)
    |>.snoc (onOneCpu_step (.evictCacheWay rfl h₀) _)
    |>.snoc (onOneCpu_step (.evictCacheWay rfl h₁) _)
    |>.snoc (onOneCpu_step (.freeOSC rfl h₂) _), ?_, fun v => ?_⟩
  · simp only [noteUse, Recency.tick, Recency.use]
    omega
  · show (if contains threePages (evictOne threePages osc (evictOne threePages osc c 0) 1) osc v
      then _ else _) = _
    simp only [contains_evicted]
    rfl

/-- Two ways, after components 0 and 1 have been preloaded and then evicted in this order. -/
def twoReleased : GenericCacheManagement (Fin 3) :=
  evicted (evicted (loaded (loaded (new 2) 0 0) 1 1) 0) 1

def releaseLabels : List (SharedLabel Unit (Fin 3)) :=
  [.activate () [0, 1, 2]] ++ preloadLabels 0 0 ++ preloadLabels 1 1 ++ evictLabels 0 ++
    evictLabels 1

theorem release_run : ∃ r, Run (UseStep threePages) (.initial (new 2), Recency.start) releaseLabels
    (onOneCpu twoReleased [] .idle, r) ∧ r.lastUse 0 < r.lastUse 1 := by
  have hactivate : Run (UseStep threePages) (.initial (new 2), Recency.start)
      [.activate () [0, 1, 2]] (onOneCpu (new 2) [] .idle, Recency.start.tick) := by
    refine .single ⟨?_, rfl⟩
    have hstep : SharedStep threePages (.initial (new 2)) (.activate () [0, 1, 2])
        ((SharedState.initial (new 2)).set (new 2) () ⟨[0, 1, 2], [], .idle⟩) :=
      .activate rfl (by simp [SharedState.initial]) (by simp)
    have hset : (SharedState.initial (new 2)).set (new 2) () ⟨[0, 1, 2], [], .idle⟩ =
        onOneCpu (new 2) [] .idle :=
      congrArg (SharedState.mk _) (funext fun _ => Function.update_self ..)
    rwa [hset] at hstep
  obtain ⟨r₀, h₀⟩ := preload_run (c := new 2) [] 0 0 Recency.start.tick (by decide) (by decide)
  obtain ⟨r₁, h₁⟩ := preload_run (c := loaded (new 2) 0 0) [0] 1 1 r₀ (by decide) (by decide)
  obtain ⟨r₂, h₂, -, huse₂⟩ := evict_run (c := loaded (loaded (new 2) 0 0) 1 1) [1, 0] 0 r₁ (by decide)
  obtain ⟨r₃, h₃, hlt, huse₃⟩ := evict_run (c := evicted (loaded (loaded (new 2) 0 0) 1 1) 0) [1] 1 r₂ (by decide)
  refine ⟨r₃, (((hactivate.append h₀).append h₁).append h₂).append h₃, ?_⟩
  have h0 : r₃.lastUse 0 = r₂.now := by
    rw [huse₃, if_neg (by decide), huse₂, if_pos (by decide)]
  have h1 : r₃.lastUse 1 = r₃.now := by
    rw [huse₃, if_pos (by decide)]
  omega

/-- The way of component 1, which was released last, is the one that is replaced. -/
theorem getLRUWay_replaces_newer : ∃ (m : SharedState Unit (Fin 3)) (r : Recency Nat)
    (ls : List (SharedLabel Unit (Fin 3))),
    Run (UseStep threePages) (.initial (new 2), Recency.start) ls (m, r) ∧
      m.cache.findWay 0x3000 = none ∧ (m.cache.mCacheWays 0).dataStart ≠ 0 ∧
      (m.cache.mCacheWays 1).dataStart ≠ 0 ∧ m.cache.Candidate 0 ∧ m.cache.Candidate 1 ∧
      (m.cache.getLRUWay 0x3000).1 = some 1 ∧ r.lastUse 0 < r.lastUse 1 := by
  obtain ⟨r, hrun, hlt⟩ := release_run
  exact ⟨_, r, _, hrun, by decide, by decide, by decide, by decide, by decide, by decide, hlt⟩

theorem replaces_oldest_released : ∃ r : Recency Nat, twoReleased.Candidate 1 ∧
    ∀ v < 2, twoReleased.Candidate v →
      (min lruMaxValue (r.age v) < min lruMaxValue (r.age 1) ∨
        min lruMaxValue (r.age v) = min lruMaxValue (r.age 1) ∧ v ≤ 1) ∧
      (r.lastUse v < r.lastUse 1 → r.usedIn v = r.usedIn 1 ∨ lruMaxValue ≤ r.age 1) := by
  obtain ⟨r, hrun, -⟩ := release_run
  have hfull : ∀ v < 2, twoReleased.Candidate v → (twoReleased.mCacheWays v).dataStart ≠ 0 := by
    decide
  have hway : twoReleased.getLRUWay 0x3000 = (some 1, (twoReleased.getLRUWay 0x3000).2) :=
    Prod.ext (by decide) rfl
  exact ⟨r, replaces_oldest threePages_disjoint (.new 2) hrun (by decide) hfull hway⟩

end GenericCacheManagement
end CyPhOS
