import CyPhOS.Common.Exec
import Mathlib.Data.List.Range
import Mathlib.Logic.Function.Basic

/-! # The cache management

`GenericCacheManagement` records for each way of the cache which part of which component it holds,
and which ways are in use. What a port does to a way is `prefetchDataToWay` and `evictCacheWay`; here
only the last of these operations on a way is kept, next to the record.

`getLRUWay_cases` says everything `getLRUWay` can do: it finds the way that records the data, hands
out another one, or none.
-/

namespace CyPhOS

/-- The addresses of the components, and the size of a way of the port. -/
structure MemoryLayout (O : Type) where
  getOSCStart : O → Nat
  getOSCTextEnd : O → Nat
  getOSCEnd : O → Nat
  getCacheWaySize : Nat
  four_le : 4 ≤ getCacheWaySize

structure CacheWayState (O : Type) where
  permanentLocked : Bool
  lruCount : Nat
  dataStart : Nat
  dataEnd : Nat
  osc : Option O
  inUse : Bool

/-- The state of a way but for the count that ages it. -/
def CacheWayState.unaged {O : Type} (w : CacheWayState O) : CacheWayState O :=
  { w with lruCount := 0 }

theorem CacheWayState.unaged_eq_iff {O : Type} {w w' : CacheWayState O} :
    w'.unaged = w.unaged ↔ w'.permanentLocked = w.permanentLocked ∧ w'.dataStart = w.dataStart ∧
      w'.dataEnd = w.dataEnd ∧ w'.osc = w.osc ∧ w'.inUse = w.inUse := by
  cases w
  cases w'
  simp [CacheWayState.unaged]

/-- What is on record of a way and whether it is used. -/
def CacheWayState.record {O : Type} (w : CacheWayState O) : Nat × Option O × Bool :=
  (w.dataStart, w.osc, w.inUse)

theorem CacheWayState.record_eq_of_unaged_eq {O : Type} {w w' : CacheWayState O}
    (h : w'.unaged = w.unaged) : w'.record = w.record := by
  obtain ⟨-, hstart, -, hosc, hinUse⟩ := CacheWayState.unaged_eq_iff.mp h
  rw [record, record, hstart, hosc, hinUse]

/-- What a port does to a way. -/
inductive CacheOperation
  | prefetchDataToWay (start end_ textEnd : Nat)
  | evictCacheWay
  deriving DecidableEq

structure GenericCacheManagement (O : Type) where
  mCacheWayCount : Nat
  mCriticalWayPointer : Nat
  mCacheWays : Nat → CacheWayState O
  lastOperation : Nat → Option CacheOperation

namespace GenericCacheManagement

variable {O : Type}

def lruMaxValue : Nat := 0xFF

/-- The constructor. The count is the one the port sets. -/
def new (mCacheWayCount : Nat) : GenericCacheManagement O where
  mCacheWayCount := mCacheWayCount
  mCriticalWayPointer := 0
  mCacheWays := fun _ =>
    { permanentLocked := false, lruCount := 0, dataStart := 0, dataEnd := 0, osc := none,
      inUse := false }
  lastOperation := fun _ => none

def modifyWay (c : GenericCacheManagement O) (way : Nat)
    (f : CacheWayState O → CacheWayState O) : GenericCacheManagement O :=
  { c with mCacheWays := Function.update c.mCacheWays way (f (c.mCacheWays way)) }

def prefetchDataToWay (c : GenericCacheManagement O) (start end_ textEnd way : Nat) :
    GenericCacheManagement O :=
  { c with lastOperation :=
      Function.update c.lastOperation way (some (.prefetchDataToWay start end_ textEnd)) }

def evictCacheWay (c : GenericCacheManagement O) (way : Nat) : GenericCacheManagement O :=
  { c with lastOperation := Function.update c.lastOperation way (some .evictCacheWay) }

/-! ## Choosing a way -/

/-- The first loop of `getLRUWay`. -/
def findWay (c : GenericCacheManagement O) (dataStart : Nat) : Option Nat :=
  (List.range c.mCacheWayCount).find? fun way => (c.mCacheWays way).dataStart == dataStart

/-- The second loop of `getLRUWay`, over the ways that remain. `maxCacheWay` is empty as long as
`validWay` is false. -/
def lruLoop : List Nat → GenericCacheManagement O → Nat → Option Nat →
    Option Nat × GenericCacheManagement O
  | [], c, _, maxCacheWay => (maxCacheWay, c)
  | way :: ways, c, maxLRUcount, maxCacheWay =>
    let lruCount := (c.mCacheWays way).lruCount
    if (c.mCacheWays way).permanentLocked = false ∧ (c.mCacheWays way).inUse = false then
      if (c.mCacheWays way).dataStart = 0 then (some way, c)
      else
        let (maxLRUcount, maxCacheWay) :=
          if lruCount ≥ maxLRUcount then (lruCount, some way) else (maxLRUcount, maxCacheWay)
        let c :=
          if lruCount ≠ lruMaxValue then
            c.modifyWay way fun w => { w with lruCount := w.lruCount + 1 }
          else c
        lruLoop ways c maxLRUcount maxCacheWay
    else lruLoop ways c maxLRUcount maxCacheWay

/-- The end of `getLRUWay`: what the way holds is evicted, and the way is taken. -/
def takeWay (c : GenericCacheManagement O) (way : Nat) : GenericCacheManagement O :=
  let c := if (c.mCacheWays way).dataStart ≠ 0 then c.evictCacheWay way else c
  c.modifyWay way fun w => { w with lruCount := 0, dataStart := 0, inUse := true }

/-- The way to use for the data at an address; none is the constant `cMaxCacheWays`. -/
def getLRUWay (c : GenericCacheManagement O) (dataStart : Nat) :
    Option Nat × GenericCacheManagement O :=
  match c.findWay dataStart with
  | some way => (some way, c.modifyWay way fun w => { w with lruCount := 0, inUse := true })
  | none =>
    match lruLoop (List.range c.mCacheWayCount) c 0 none with
    | (none, c) => (none, c)
    | (some maxCacheWay, c) => (some maxCacheWay, c.takeWay maxCacheWay)

/-! ## Preloading -/

/-- The end of the part of a component that is loaded from an address on. -/
def preloadEnd (layout : MemoryLayout O) (oscStart oscEnd : Nat) : Nat :=
  let preloadEnd := oscStart + (layout.getCacheWaySize - 4)
  if preloadEnd > oscEnd then oscEnd else preloadEnd

def nextStart (preloadEnd oscEnd : Nat) : Nat :=
  let oscStart := preloadEnd + 4
  if oscStart > oscEnd then oscEnd else oscStart

def setDataStart (c : GenericCacheManagement O) (way dataStart : Nat) : GenericCacheManagement O :=
  c.modifyWay way fun w => { w with dataStart }

def setDataEnd (c : GenericCacheManagement O) (way dataEnd : Nat) : GenericCacheManagement O :=
  c.modifyWay way fun w => { w with dataEnd }

def setOsc (c : GenericCacheManagement O) (way : Nat) (osc : O) : GenericCacheManagement O :=
  c.modifyWay way fun w => { w with osc := some osc }

/-- One round of the loop of `preloadSingleOSC`. -/
def preloadChunk (layout : MemoryLayout O) (c : GenericCacheManagement O) (osc : O)
    (oscStart : Nat) (skipPreload : Bool) : Exec (GenericCacheManagement O × Nat × Bool) :=
  match c.getLRUWay oscStart with
  | (none, _) => .error .hang
  | (some lruCacheWay, c) =>
    let skipPreload := skipPreload || (c.mCacheWays lruCacheWay).dataStart == oscStart
    let preloadEnd := preloadEnd layout oscStart (layout.getOSCEnd osc)
    let oscTextEnd := layout.getOSCTextEnd osc
    let c :=
      if skipPreload then c
      else c.prefetchDataToWay oscStart preloadEnd
        (if oscTextEnd ≤ preloadEnd then oscTextEnd else preloadEnd) lruCacheWay
    let c := ((c.setDataStart lruCacheWay oscStart).setDataEnd lruCacheWay preloadEnd).setOsc
      lruCacheWay osc
    .ok (c, nextStart preloadEnd (layout.getOSCEnd osc), skipPreload)

def preloadLoop (layout : MemoryLayout O) (osc : O) :
    Nat → GenericCacheManagement O → Nat → Bool → Exec (GenericCacheManagement O)
  | 0, c, oscStart, _ => if oscStart < layout.getOSCEnd osc then .error .hang else .ok c
  | fuel + 1, c, oscStart, skipPreload =>
    if oscStart < layout.getOSCEnd osc then do
      let (c, oscStart, skipPreload) ← c.preloadChunk layout osc oscStart skipPreload
      preloadLoop layout osc fuel c oscStart skipPreload
    else .ok c

/-- Every round moves on by at least one address. -/
def preloadSingleOSC (layout : MemoryLayout O) (c : GenericCacheManagement O) (osc : O) :
    Exec (GenericCacheManagement O) :=
  preloadLoop layout osc (layout.getOSCEnd osc - layout.getOSCStart osc) c
    (layout.getOSCStart osc) false

/-- The component of a trigger and then its dependencies. -/
def preloadOSC (layout : MemoryLayout O) (c : GenericCacheManagement O) (osc : O)
    (pDeps : List O) : Exec (GenericCacheManagement O) :=
  (osc :: pDeps).foldlM (preloadSingleOSC layout) c

/-- One round of the loop of `preloadCriticalData`. -/
def preloadCriticalChunk (layout : MemoryLayout O) (c : GenericCacheManagement O)
    (oscStart oscEnd textEnd : Nat) : GenericCacheManagement O × Nat :=
  let preloadEnd := preloadEnd layout oscStart oscEnd
  let way := c.mCriticalWayPointer
  let c := c.prefetchDataToWay oscStart preloadEnd
    (if textEnd ≤ preloadEnd then textEnd else preloadEnd) way
  let c := c.modifyWay way fun w => { w with permanentLocked := true }
  ({ c with mCriticalWayPointer := way + 1 }, nextStart preloadEnd oscEnd)

def criticalLoop (layout : MemoryLayout O) (oscEnd textEnd : Nat) :
    Nat → GenericCacheManagement O → Nat → GenericCacheManagement O
  | 0, c, _ => c
  | fuel + 1, c, oscStart =>
    if oscStart < oscEnd then
      let (c, oscStart) := c.preloadCriticalChunk layout oscStart oscEnd textEnd
      criticalLoop layout oscEnd textEnd fuel c oscStart
    else c

def preloadCriticalData (layout : MemoryLayout O) (c : GenericCacheManagement O)
    (start end_ textEnd : Nat) : GenericCacheManagement O :=
  criticalLoop layout end_ textEnd (end_ - start) c start

/-! ## Evicting -/

section
variable [DecidableEq O]

/-- The way records data of the component. -/
def contains (layout : MemoryLayout O) (c : GenericCacheManagement O) (osc : O) (way : Nat) :
    Prop :=
  (c.mCacheWays way).dataStart ≥ layout.getOSCStart osc ∧
    (c.mCacheWays way).dataStart < layout.getOSCEnd osc ∧ some osc = (c.mCacheWays way).osc

instance (layout : MemoryLayout O) (c : GenericCacheManagement O) (osc : O) (way : Nat) :
    Decidable (c.contains layout osc way) :=
  inferInstanceAs (Decidable (_ ∧ _ ∧ _))

/-- One round of the first loop of `lookupAndEvictOSC`. -/
def evictOne (layout : MemoryLayout O) (osc : O) (c : GenericCacheManagement O) (way : Nat) :
    GenericCacheManagement O :=
  if c.contains layout osc way then c.evictCacheWay way else c

/-- One round of the second loop of `lookupAndEvictOSC`, without
`CONFIG_CACHE_CONTROL_EVICT_AFTER_USE`. -/
def freeOne (layout : MemoryLayout O) (osc : O) (c : GenericCacheManagement O) (way : Nat) :
    GenericCacheManagement O :=
  if c.contains layout osc way then
    c.modifyWay way fun w => { w with inUse := false, lruCount := 0 }
  else c

/-- The second loop, which runs under the lock. -/
def freeOSC (layout : MemoryLayout O) (c : GenericCacheManagement O) (osc : O) :
    GenericCacheManagement O :=
  (List.range c.mCacheWayCount).foldl (freeOne layout osc) c

def lookupAndEvictOSC (layout : MemoryLayout O) (c : GenericCacheManagement O) (osc : O) :
    GenericCacheManagement O :=
  freeOSC layout ((List.range c.mCacheWayCount).foldl (evictOne layout osc) c) osc

def evictOSC (layout : MemoryLayout O) (c : GenericCacheManagement O) (osc : O)
    (pDeps : List O) : GenericCacheManagement O :=
  (osc :: pDeps).foldl (lookupAndEvictOSC layout) c

end

/-! ## What the operations change -/

/-- Nothing changes but the counts that age the ways. -/
structure Ages (c c' : GenericCacheManagement O) : Prop where
  count : c'.mCacheWayCount = c.mCacheWayCount
  operation : c'.lastOperation = c.lastOperation
  way : ∀ v, (c'.mCacheWays v).unaged = (c.mCacheWays v).unaged

/-- `getLRUWay` hands out a way for the data at an address: one that records it, or one that is free
for it. Nothing else changes but the counts that age the ways. -/
structure HandsOut (c : GenericCacheManagement O) (dataStart way : Nat)
    (c' : GenericCacheManagement O) : Prop where
  lt : way < c.mCacheWayCount
  count : c'.mCacheWayCount = c.mCacheWayCount
  other : ∀ v ≠ way, (c'.mCacheWays v).unaged = (c.mCacheWays v).unaged ∧
    c'.lastOperation v = c.lastOperation v
  locked : (c'.mCacheWays way).permanentLocked = (c.mCacheWays way).permanentLocked
  osc : (c'.mCacheWays way).osc = (c.mCacheWays way).osc
  inUse : (c'.mCacheWays way).inUse = true
  cases : (c.findWay dataStart = some way ∧
      (c'.mCacheWays way).dataStart = dataStart ∧
      (c'.mCacheWays way).dataEnd = (c.mCacheWays way).dataEnd ∧
      c'.lastOperation way = c.lastOperation way) ∨
    (c.findWay dataStart = none ∧
      (c.mCacheWays way).permanentLocked = false ∧ (c.mCacheWays way).inUse = false ∧
      (c'.mCacheWays way).dataStart = 0 ∧
      c'.lastOperation way = if (c.mCacheWays way).dataStart = 0 then c.lastOperation way
        else some .evictCacheWay)

variable {c c' c'' : GenericCacheManagement O} {way dataStart : Nat}

@[simp] theorem modifyWay_self {f : CacheWayState O → CacheWayState O} :
    (c.modifyWay way f).mCacheWays way = f (c.mCacheWays way) := Function.update_self ..

theorem modifyWay_of_ne {f : CacheWayState O → CacheWayState O} {v : Nat} (h : v ≠ way) :
    (c.modifyWay way f).mCacheWays v = c.mCacheWays v := Function.update_of_ne h ..

@[simp] theorem modifyWay_count {f : CacheWayState O → CacheWayState O} :
    (c.modifyWay way f).mCacheWayCount = c.mCacheWayCount := rfl

@[simp] theorem modifyWay_lastOperation {f : CacheWayState O → CacheWayState O} :
    (c.modifyWay way f).lastOperation = c.lastOperation := rfl

@[simp] theorem prefetchDataToWay_mCacheWays {start end_ textEnd : Nat} :
    (c.prefetchDataToWay start end_ textEnd way).mCacheWays = c.mCacheWays := rfl

theorem takeWay_self : (c.takeWay way).mCacheWays way =
    { c.mCacheWays way with lruCount := 0, dataStart := 0, inUse := true } := by
  rw [takeWay, modifyWay_self]
  split <;> rfl

theorem takeWay_of_ne {v : Nat} (h : v ≠ way) : (c.takeWay way).mCacheWays v = c.mCacheWays v := by
  rw [takeWay, modifyWay_of_ne h]
  split <;> rfl

theorem takeWay_count : (c.takeWay way).mCacheWayCount = c.mCacheWayCount := by
  rw [takeWay, modifyWay_count]
  split <;> rfl

theorem takeWay_lastOperation (v : Nat) : (c.takeWay way).lastOperation v =
    if v = way ∧ (c.mCacheWays way).dataStart ≠ 0 then some .evictCacheWay
    else c.lastOperation v := by
  rw [takeWay, modifyWay_lastOperation]
  rcases eq_or_ne v way with rfl | hne
  · split
    · next hused => simp [evictCacheWay, hused]
    · next hfree => simp [hfree]
  · have hother : ¬ (v = way ∧ (c.mCacheWays way).dataStart ≠ 0) := fun h => hne h.1
    rw [if_neg hother]
    split
    · exact Function.update_of_ne hne ..
    · rfl

theorem Ages.refl (c : GenericCacheManagement O) : Ages c c := ⟨rfl, rfl, fun _ => rfl⟩

theorem Ages.trans (h : Ages c c') (h' : Ages c' c'') : Ages c c'' :=
  ⟨h'.count.trans h.count, h'.operation.trans h.operation, fun v => (h'.way v).trans (h.way v)⟩

theorem Ages.modifyWay (c : GenericCacheManagement O) (way n : Nat) :
    Ages c (c.modifyWay way fun w => { w with lruCount := n }) := by
  refine ⟨rfl, rfl, fun v => ?_⟩
  rcases eq_or_ne v way with rfl | hne
  · rw [modifyWay_self]
    rfl
  · rw [modifyWay_of_ne hne]

/-- The loop only ages ways, and what it finds is neither locked nor in use. -/
theorem lruLoop_spec (ways : List Nat) (n : Nat) (best : Option Nat)
    (hbest : ∀ b, best = some b → b < c.mCacheWayCount ∧
      (c.mCacheWays b).permanentLocked = false ∧ (c.mCacheWays b).inUse = false)
    (hways : ∀ v ∈ ways, v < c.mCacheWayCount) :
    Ages c (lruLoop ways c n best).2 ∧ ∀ way, (lruLoop ways c n best).1 = some way →
      way < c.mCacheWayCount ∧ (c.mCacheWays way).permanentLocked = false ∧
        (c.mCacheWays way).inUse = false := by
  induction ways generalizing c n best with
  | nil => exact ⟨Ages.refl c, hbest⟩
  | cons v ways ih =>
    obtain ⟨hv, hways⟩ := List.forall_mem_cons.mp hways
    rw [lruLoop]
    split
    · next hfree =>
      split
      · refine ⟨Ages.refl c, fun way h => ?_⟩
        obtain rfl := Option.some.inj h
        exact ⟨hv, hfree⟩
      · -- the way is a candidate and may be aged
        have hages : Ages c (if (c.mCacheWays v).lruCount ≠ lruMaxValue then
            c.modifyWay v fun w => { w with lruCount := w.lruCount + 1 } else c) := by
          split
          · exact Ages.modifyWay c v _
          · exact Ages.refl c
        generalize (if (c.mCacheWays v).lruCount ≠ lruMaxValue then
            c.modifyWay v fun w => { w with lruCount := w.lruCount + 1 } else c) = c₁ at hages ⊢
        have hfree₁ : ∀ b, (c₁.mCacheWays b).permanentLocked = (c.mCacheWays b).permanentLocked ∧
            (c₁.mCacheWays b).inUse = (c.mCacheWays b).inUse := by
          intro b
          obtain ⟨hlocked, -, -, -, hinUse⟩ := CacheWayState.unaged_eq_iff.mp (hages.way b)
          exact ⟨hlocked, hinUse⟩
        have hbest₁ : ∀ b, (if (c.mCacheWays v).lruCount ≥ n then ((c.mCacheWays v).lruCount, some v)
            else (n, best)).2 = some b → b < c₁.mCacheWayCount ∧
              (c₁.mCacheWays b).permanentLocked = false ∧ (c₁.mCacheWays b).inUse = false := by
          intro b hb
          rw [hages.count, (hfree₁ b).1, (hfree₁ b).2]
          split at hb
          · obtain rfl := Option.some.inj hb
            exact ⟨hv, hfree⟩
          · exact hbest b hb
        obtain ⟨hrest, hfound⟩ := ih _ _ hbest₁ fun v hv => hages.count ▸ hways v hv
        refine ⟨hages.trans hrest, fun way hway => ?_⟩
        have := hfound way hway
        rwa [hages.count, (hfree₁ way).1, (hfree₁ way).2] at this
    · exact ih n best hbest hways

theorem findWay_eq_some (h : c.findWay dataStart = some way) :
    way < c.mCacheWayCount ∧ (c.mCacheWays way).dataStart = dataStart :=
  ⟨List.mem_range.mp (List.mem_of_find?_eq_some h), by simpa using List.find?_some h⟩

theorem findWay_eq_none (h : c.findWay dataStart = none) :
    ∀ v < c.mCacheWayCount, (c.mCacheWays v).dataStart ≠ dataStart := fun v hv => by
  simpa using List.find?_eq_none.mp h v (List.mem_range.mpr hv)

theorem getLRUWay_some (h : c.getLRUWay dataStart = (some way, c')) :
    HandsOut c dataStart way c' := by
  rw [getLRUWay] at h
  split at h
  · next found hfound =>
    obtain ⟨rfl, rfl⟩ : found = way ∧ _ = c' := by simpa using h
    obtain ⟨hlt, hstart⟩ := findWay_eq_some hfound
    refine ⟨hlt, rfl, fun v hv => ?_, ?_, ?_, ?_, .inl ⟨hfound, ?_, ?_, rfl⟩⟩
    · exact ⟨by rw [modifyWay_of_ne hv], rfl⟩
    all_goals simp [hstart]
  · next hnone =>
    obtain ⟨hages, hfree⟩ := lruLoop_spec (c := c) (List.range c.mCacheWayCount) 0 none (by simp)
      fun v hv => List.mem_range.mp hv
    split at h
    · simp at h
    · next best c₁ hloop =>
      rw [hloop] at hages hfree
      obtain ⟨rfl, rfl⟩ : best = way ∧ c₁.takeWay best = c' := by simpa using h
      obtain ⟨hlt, hlocked, hinUse⟩ := hfree best rfl
      obtain ⟨hlocked₁, hstart₁, -, hosc₁, -⟩ := CacheWayState.unaged_eq_iff.mp (hages.way best)
      refine ⟨hlt, ?_, fun v hv => ⟨?_, ?_⟩, ?_, ?_, ?_,
        .inr ⟨hnone, hlocked, hinUse, ?_, ?_⟩⟩
      · rw [takeWay_count]
        exact hages.count
      · rw [takeWay_of_ne hv]
        exact hages.way v
      · rw [takeWay_lastOperation, if_neg fun h => hv h.1]
        exact congrFun hages.operation v
      · rw [takeWay_self]
        exact hlocked₁
      · rw [takeWay_self]
        exact hosc₁
      · rw [takeWay_self]
      · rw [takeWay_self]
      · have hop := congrFun hages.operation best
        simp only at hstart₁ hop
        rw [takeWay_lastOperation, hstart₁, hop]
        simp

/-- Without a free way nothing changes but the counts that age the ways. -/
theorem getLRUWay_none (h : c.getLRUWay dataStart = (none, c')) : Ages c c' := by
  rw [getLRUWay] at h
  split at h
  · simp at h
  · obtain ⟨hages, -⟩ := lruLoop_spec (c := c) (List.range c.mCacheWayCount) 0 none (by simp)
      fun v hv => List.mem_range.mp hv
    split at h
    · next c₁ hloop =>
      obtain rfl : c₁ = c' := by simpa using h
      rwa [hloop] at hages
    · simp at h

/-- Every round of a preload moves on, so that the rounds of `preloadLoop` suffice. -/
theorem lt_nextStart (layout : MemoryLayout O) {oscStart oscEnd : Nat} (h : oscStart < oscEnd) :
    oscStart < nextStart (preloadEnd layout oscStart oscEnd) oscEnd := by
  have := layout.four_le
  rw [nextStart, preloadEnd]
  split <;> split <;> omega

section
variable [DecidableEq O] {layout : MemoryLayout O} {osc : O}

omit [DecidableEq O] in
theorem contains_congr {v : Nat} (hstart : (c'.mCacheWays v).dataStart = (c.mCacheWays v).dataStart)
    (hosc : (c'.mCacheWays v).osc = (c.mCacheWays v).osc) :
    c'.contains layout osc v ↔ c.contains layout osc v := by
  rw [contains, contains, hstart, hosc]

variable (layout osc) in
theorem evictLoop_eq (c : GenericCacheManagement O) (ways : List Nat) :
    (ways.foldl (evictOne layout osc) c).mCacheWays = c.mCacheWays ∧
      (ways.foldl (evictOne layout osc) c).mCacheWayCount = c.mCacheWayCount ∧
      ∀ v, (ways.foldl (evictOne layout osc) c).lastOperation v =
        if v ∈ ways ∧ c.contains layout osc v then some .evictCacheWay
        else c.lastOperation v := by
  induction ways generalizing c with
  | nil => simp
  | cons w ways ih =>
    have hsame : (evictOne layout osc c w).mCacheWays = c.mCacheWays ∧
        (evictOne layout osc c w).mCacheWayCount = c.mCacheWayCount := by
      rw [evictOne]
      split <;> exact ⟨rfl, rfl⟩
    obtain ⟨hways, hcount, hop⟩ := ih (evictOne layout osc c w)
    refine ⟨hways.trans hsame.1, hcount.trans hsame.2, fun v => ?_⟩
    have hcontains : (evictOne layout osc c w).contains layout osc v ↔ c.contains layout osc v :=
      contains_congr (by rw [hsame.1]) (by rw [hsame.1])
    have hone : (evictOne layout osc c w).lastOperation v =
        if v = w ∧ c.contains layout osc v then some .evictCacheWay else c.lastOperation v := by
      rw [evictOne]
      rcases eq_or_ne v w with rfl | hne
      · split
        · next hv => simp [evictCacheWay, hv]
        · next hv => simp [hv]
      · split
        · simp [evictCacheWay, hne]
        · simp [hne]
    rw [List.foldl_cons, hop, hone]
    simp only [hcontains, List.mem_cons]
    split
    · next hv => rw [if_pos ⟨.inr hv.1, hv.2⟩]
    · next hv => exact if_congr (by tauto) rfl rfl

variable (layout osc) in
theorem freeLoop_eq (c : GenericCacheManagement O) (ways : List Nat) :
    (ways.foldl (freeOne layout osc) c).lastOperation = c.lastOperation ∧
      (ways.foldl (freeOne layout osc) c).mCacheWayCount = c.mCacheWayCount ∧
      ∀ v, (ways.foldl (freeOne layout osc) c).mCacheWays v =
        if v ∈ ways ∧ c.contains layout osc v then
          { c.mCacheWays v with inUse := false, lruCount := 0 }
        else c.mCacheWays v := by
  induction ways generalizing c with
  | nil => simp
  | cons w ways ih =>
    have hsame : (freeOne layout osc c w).lastOperation = c.lastOperation ∧
        (freeOne layout osc c w).mCacheWayCount = c.mCacheWayCount := by
      rw [freeOne]
      split <;> exact ⟨rfl, rfl⟩
    have hone : ∀ v, (freeOne layout osc c w).mCacheWays v =
        if v = w ∧ c.contains layout osc v then
          { c.mCacheWays v with inUse := false, lruCount := 0 }
        else c.mCacheWays v := by
      intro v
      rw [freeOne]
      rcases eq_or_ne v w with rfl | hne
      · split
        · next hv => simp [hv]
        · next hv => simp [hv]
      · split
        · simp [modifyWay_of_ne hne, hne]
        · simp [hne]
    obtain ⟨hop, hcount, hways⟩ := ih (freeOne layout osc c w)
    refine ⟨hop.trans hsame.1, hcount.trans hsame.2, fun v => ?_⟩
    have hcontains : (freeOne layout osc c w).contains layout osc v ↔ c.contains layout osc v := by
      refine contains_congr ?_ ?_
      · rw [hone]
        split <;> rfl
      · rw [hone]
        split <;> rfl
    rw [List.foldl_cons, hways, hone]
    simp only [hcontains, List.mem_cons]
    rcases Decidable.em (c.contains layout osc v) with hv | hv
    · rcases eq_or_ne v w with rfl | hne
      · simp [hv]
      · simp [hv, hne]
    · simp [hv]

/-- `freeOSC` frees the ways that record data of the component and changes no others. -/
theorem freeOSC_mCacheWays {v : Nat} (hv : v < c.mCacheWayCount) :
    (c.freeOSC layout osc).mCacheWays v = if c.contains layout osc v then
      { c.mCacheWays v with inUse := false, lruCount := 0 } else c.mCacheWays v := by
  rw [freeOSC, (freeLoop_eq layout osc _ _).2.2 v]
  simp [hv]

variable (layout osc) in
theorem lookupAndEvictOSC_count (c : GenericCacheManagement O) :
    (c.lookupAndEvictOSC layout osc).mCacheWayCount = c.mCacheWayCount := by
  rw [lookupAndEvictOSC, freeOSC, (freeLoop_eq layout osc _ _).2.1,
    (evictLoop_eq layout osc _ _).2.1]

/-- The ways that record data of the component are evicted and freed, and stay on record. -/
theorem lookupAndEvictOSC_way (layout : MemoryLayout O) (osc : O) {v : Nat} (hv : v < c.mCacheWayCount) :
    ((c.lookupAndEvictOSC layout osc).mCacheWays v).permanentLocked =
        (c.mCacheWays v).permanentLocked ∧
      ((c.lookupAndEvictOSC layout osc).mCacheWays v).dataStart = (c.mCacheWays v).dataStart ∧
      ((c.lookupAndEvictOSC layout osc).mCacheWays v).dataEnd = (c.mCacheWays v).dataEnd ∧
      (c.lookupAndEvictOSC layout osc).lastOperation v =
        if c.contains layout osc v then some .evictCacheWay else c.lastOperation v := by
  obtain ⟨hways, hcount, hop⟩ :=
    evictLoop_eq layout osc c (List.range c.mCacheWayCount)
  rw [lookupAndEvictOSC]
  generalize (List.range c.mCacheWayCount).foldl (evictOne layout osc) c = c₁ at *
  rw [freeOSC_mCacheWays (hcount ▸ hv), freeOSC, (freeLoop_eq layout osc _ _).1, hop, hways]
  refine ⟨?_, ?_, ?_, ?_⟩
  · split <;> rfl
  · split <;> rfl
  · split <;> rfl
  · simp [hv]

end

/-! ## After booting -/

/-- The cache management after the critical data has been loaded. -/
inductive Booted (layout : MemoryLayout O) : GenericCacheManagement O → Prop
  | new (mCacheWayCount : Nat) : Booted layout (new mCacheWayCount)
  | preloadCriticalData {c : GenericCacheManagement O} (start end_ textEnd : Nat) :
    Booted layout c → Booted layout (c.preloadCriticalData layout start end_ textEnd)

/-- A way that no component has used. -/
structure Unused (c : GenericCacheManagement O) (way : Nat) : Prop where
  dataStart : (c.mCacheWays way).dataStart = 0
  inUse : (c.mCacheWays way).inUse = false
  lastOperation : (c.mCacheWays way).permanentLocked = false → c.lastOperation way = none

theorem Unused.preloadCriticalChunk {layout : MemoryLayout O} (h : c.Unused way)
    (oscStart oscEnd textEnd : Nat) :
    (c.preloadCriticalChunk layout oscStart oscEnd textEnd).1.Unused way := by
  rw [GenericCacheManagement.preloadCriticalChunk]
  rcases eq_or_ne way c.mCriticalWayPointer with rfl | hne
  · exact ⟨by simpa using h.dataStart, by simpa using h.inUse, by simp⟩
  · refine ⟨?_, ?_, fun hlocked => ?_⟩
    · simpa [modifyWay_of_ne hne] using h.dataStart
    · simpa [modifyWay_of_ne hne] using h.inUse
    · have hfree : (c.mCacheWays way).permanentLocked = false := by
        simpa [modifyWay_of_ne hne] using hlocked
      simpa [GenericCacheManagement.prefetchDataToWay, hne] using h.lastOperation hfree

theorem Unused.criticalLoop {layout : MemoryLayout O} {oscEnd textEnd fuel oscStart : Nat}
    (h : c.Unused way) : (criticalLoop layout oscEnd textEnd fuel c oscStart).Unused way := by
  induction fuel generalizing c oscStart with
  | zero => exact h
  | succ fuel ih =>
    rw [GenericCacheManagement.criticalLoop]
    split
    · exact ih (h.preloadCriticalChunk oscStart oscEnd textEnd)
    · exact h

theorem Booted.unused {layout : MemoryLayout O} (h : Booted layout c) (way : Nat) :
    c.Unused way := by
  induction h with
  | new mCacheWayCount => exact ⟨rfl, rfl, fun _ => rfl⟩
  | preloadCriticalData start end_ textEnd _ ih => exact ih.criticalLoop

end GenericCacheManagement
end CyPhOS
