import CyPhOS.ARMv7.InterruptFields

/-! # Initialising the interrupt controller

Each loop of `distributorInit` goes through the interrupts and writes one of the banks, so that what
one has written the others leave (`distributorInit_spec`). Three of the functions that are called
do not do what the comments say: the upper half of an old priority stays, nothing is written by
`clearPending`, and the bits of the configuration that the first loop sets are those of other
interrupts. The second configuration of a row makes the first interrupt of the row edge-triggered.
-/

namespace CyPhOS

namespace ARMGIC

namespace Distributor

variable {d : Distributor} {i n lo hi : Nat}

/-! ## Loops over the interrupts -/

theorem mem_interrupts : i ∈ List.range' lo (hi - lo) ↔ lo ≤ i ∧ i < hi := by
  rw [List.mem_range'_1]
  omega

theorem forInterrupts_update {β : Type} {body : Distributor → Nat → Distributor}
    (view : Distributor → Nat → β) (g : Nat → β → β)
    (h : ∀ d i, view (body d i) = Function.update (view d) i (g i (view d i))) :
    view (d.forInterrupts lo hi body) i =
      if lo ≤ i ∧ i < hi then g i (view d i) else view d i := by
  rw [forInterrupts, FieldArray.foldl_update h List.nodup_range']
  exact if_congr mem_interrupts rfl rfl

theorem forInterrupts_frame {β : Type} {body : Distributor → Nat → Distributor}
    (view : Distributor → β) (h : ∀ d i, view (body d i) = view d) :
    view (d.forInterrupts lo hi body) = view d :=
  FieldArray.foldl_frame view fun d i _ => h d i

/-- What `distributorInit` leaves. -/
theorem distributorInit_spec {mNumLines : Nat} {d' : Distributor}
    (h : d.distributorInit = (mNumLines, d')) :
    mNumLines = (0x1F#32 &&& d.typer).toNat ∧
      (∀ i < (mNumLines + 1) * 32, d'.enabled i = false ∧ d'.pending i = d.pending i ∧
        d'.priority i = (d.priority i &&& 0xF0#8) ||| 0xa0#8) ∧
      (∀ i, 32 ≤ i → i < (mNumLines + 1) * 32 → d'.target i = 0x0#8) ∧
      d'.icfgr = ((d.write 0x0#32 .GICD_CTLR).forInterrupts 32 ((mNumLines + 1) * 32)
        fun d i => (d.configureInterruptTrigger i true).configureInterruptHandling i false).icfgr := by
  simp only [distributorInit, Prod.mk.injEq] at h
  obtain ⟨rfl, rfl⟩ := h
  refine ⟨rfl, ?_⟩
  generalize ((0x1F#32 &&& (d.write 0x00000000#32 .GICD_CTLR).read .GICD_TYPER).toNat + 1) * 32 = n
  generalize hd₁ : (d.write 0x00000000#32 .GICD_CTLR).forInterrupts 32 n (fun d i =>
    (d.configureInterruptTrigger i true).configureInterruptHandling i false) = d₁
  generalize hd₂ : d₁.forInterrupts 32 n (fun d i => d.setInterruptTarget i 0x0#8) = d₂
  generalize hd₃ : d₂.forInterrupts 0 n (fun d i => d.setInterruptPriority i 0xa0#8) = d₃
  generalize hd₄ : d₃.forInterrupts 0 n (fun d i => d.disableInterrupt i) = d₄
  have hd₅ : (d₄.forInterrupts 0 n fun d i => d.clearPending i) = d₄ :=
    forInterrupts_frame id fun _ _ => rfl
  rw [hd₅]
  refine ⟨fun i hi => ⟨?_, ?_, ?_⟩, fun i hlo hi => ?_, ?_⟩
  · calc d₄.enabled i = if 0 ≤ i ∧ i < n then false else d₃.enabled i :=
        hd₄ ▸ forInterrupts_update enabled (fun _ _ => false) fun _ _ => disableInterrupt_enabled
      _ = false := if_pos ⟨Nat.zero_le i, hi⟩
  · calc d₄.pending i = d₃.pending i := congrFun (hd₄ ▸ forInterrupts_frame pending fun _ _ => rfl) i
      _ = d₂.pending i := congrFun (hd₃ ▸ forInterrupts_frame pending fun _ _ => rfl) i
      _ = d₁.pending i := congrFun (hd₂ ▸ forInterrupts_frame pending fun _ _ => rfl) i
      _ = d.pending i := congrFun (hd₁ ▸ forInterrupts_frame pending fun _ _ => rfl) i
  · calc d₄.priority i = d₃.priority i := congrFun (hd₄ ▸ forInterrupts_frame priority fun _ _ => rfl) i
      _ = if 0 ≤ i ∧ i < n then (d₂.priority i &&& 0xF0#8) ||| 0xa0#8 else d₂.priority i :=
        hd₃ ▸ forInterrupts_update priority (fun _ b => (b &&& 0xF0#8) ||| 0xa0#8)
          fun _ _ => setInterruptPriority_priority
      _ = (d₂.priority i &&& 0xF0#8) ||| 0xa0#8 := if_pos ⟨Nat.zero_le i, hi⟩
      _ = (d.priority i &&& 0xF0#8) ||| 0xa0#8 := by
        have h₂ : d₂.priority = d₁.priority := hd₂ ▸ forInterrupts_frame priority fun _ _ => rfl
        have h₁ : d₁.priority = d.priority := hd₁ ▸ forInterrupts_frame priority fun _ _ => rfl
        rw [h₂, h₁]
  · calc d₄.target i = d₃.target i := congrFun (hd₄ ▸ forInterrupts_frame target fun _ _ => rfl) i
      _ = d₂.target i := congrFun (hd₃ ▸ forInterrupts_frame target fun _ _ => rfl) i
      _ = if 32 ≤ i ∧ i < n then 0x0#8 else d₁.target i :=
        hd₂ ▸ forInterrupts_update target (fun _ _ => 0x0#8) fun _ _ => setInterruptTarget_target
      _ = 0x0#8 := if_pos ⟨hlo, hi⟩
  · calc d₄.icfgr = d₃.icfgr := hd₄ ▸ forInterrupts_frame icfgr fun _ _ => rfl
      _ = d₂.icfgr := hd₃ ▸ forInterrupts_frame icfgr fun _ _ => rfl
      _ = d₁.icfgr := hd₂ ▸ forInterrupts_frame icfgr fun _ _ => rfl

/-- What the first loop does to the first interrupt of row 2 at the interrupts behind the second. -/
theorem configure_row_frame (hi : 34 ≤ i) :
    (((d.configureInterruptTrigger i true).configureInterruptHandling i false).icfgr 2).getLsbD 1 =
      (d.icfgr 2).getLsbD 1 := by
  rw [configureInterruptTrigger_eq, configureInterruptHandling_eq]
  by_cases hrow : i / 16 = 2
  · rw [← hrow, setRowBit_row, getLsbD_setbit (by omega), if_neg (by omega), setRowBit_row,
      getLsbD_setbit (by omega), if_neg (by omega)]
  · rw [setRowBit_of_ne (Ne.symm hrow), setRowBit_of_ne (Ne.symm hrow)]

/-- The handling of interrupt 33 is written where the trigger of interrupt 32 is. -/
theorem forInterrupts_configure (hn : 34 ≤ n) :
    ((d.forInterrupts 32 n fun d i =>
      (d.configureInterruptTrigger i true).configureInterruptHandling i false).icfgr 2).getLsbD 1 =
      true := by
  have hsplit : List.range' 32 (n - 32) = 32 :: 33 :: List.range' 34 (n - 34) := by
    rw [show n - 32 = n - 34 + 1 + 1 by omega, List.range'_succ, List.range'_succ]
  rw [forInterrupts, hsplit, List.foldl_cons, List.foldl_cons]
  -- bit 1 of row 2 is not touched behind interrupt 33
  refine (FieldArray.foldl_frame (fun d : Distributor => (d.icfgr 2).getLsbD 1) fun d i hi =>
    configure_row_frame (List.mem_range'_1.mp hi).1).trans ?_
  rw [configureInterruptHandling_eq (i := 33)]
  exact (congrArg (BitVec.getLsbD · 1) setRowBit_row).trans (getLsbD_setbit (by decide))

/-- What the comments in `distributorInit` say. -/
structure Initialised (d : Distributor) (numInts : Nat) : Prop where
  disabled : ∀ i < numInts, d.enabled i = false
  pending : ∀ i < numInts, d.pending i = false
  priority : ∀ i < numInts, d.priority i = 0xa0#8
  target : ∀ i, 32 ≤ i → i < numInts → d.target i = 0x0#8
  levelTriggered : ∀ i, 32 ≤ i → i < numInts → d.levelTriggered i = true

theorem priority_eq_iff {b : BitVec 8} :
    (b &&& 0xF0#8) ||| 0xa0#8 = 0xa0#8 ↔ b &&& 0x50#8 = 0#8 := by
  rw [BitField.write_eq_iff, BitField.Within, BitVec.and_assoc]
  rfl

/-- When `distributorInit` leaves every interrupt as it should: if the controller has the banked
interrupts only, none of them is pending, and no bit of an old priority is in the way. -/
theorem distributorInit_iff (d : Distributor) :
    Initialised d.distributorInit.2 ((d.distributorInit.1 + 1) * 32) ↔
      0x1F#32 &&& d.typer = 0#32 ∧
        ∀ i < 32, d.pending i = false ∧ d.priority i &&& 0x50#8 = 0#8 := by
  rcases hd : d.distributorInit with ⟨mNumLines, d'⟩
  obtain ⟨hlines, hbanks, -, hconf⟩ := distributorInit_spec hd
  dsimp only
  have hzero : 0x1F#32 &&& d.typer = 0#32 ↔ mNumLines = 0 := by
    rw [hlines, ← BitVec.toNat_inj]
    rfl
  rw [hzero]
  constructor
  · intro h
    refine ⟨by_contra fun hne => ?_, fun i hi => ?_⟩
    · have hlevel := h.levelTriggered 32 le_rfl (by omega)
      rw [Distributor.levelTriggered, configuration_bit (by decide), hconf,
        forInterrupts_configure (by omega)] at hlevel
      cases hlevel
    · have hi' : i < (mNumLines + 1) * 32 := by omega
      obtain ⟨-, hpending, hpriority⟩ := hbanks i hi'
      exact ⟨hpending ▸ h.pending i hi', priority_eq_iff.mp (hpriority ▸ h.priority i hi')⟩
  · rintro ⟨rfl, h⟩
    refine ⟨fun i hi => (hbanks i hi).1, fun i hi => ?_, fun i hi => ?_, ?_, ?_⟩
    · rw [(hbanks i hi).2.1]
      exact (h i (by omega)).1
    · rw [(hbanks i hi).2.2]
      exact priority_eq_iff.mpr (h i (by omega)).2
    · intro i hlo hi
      omega
    · intro i hlo hi
      omega

/-- A controller with 64 interrupts, where all registers are zero. -/
theorem distributorInit_edge_triggered :
    ¬ ∀ d : Distributor,
      Initialised d.distributorInit.2 ((d.distributorInit.1 + 1) * 32) := by
  intro h
  have hlevel := (h { zeroed with typer := 1#32 }).levelTriggered 32 le_rfl (by decide)
  revert hlevel
  decide

end Distributor

end ARMGIC

end CyPhOS
