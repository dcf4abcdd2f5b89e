import CyPhOS.Common.BitManipulation

/-! # The control register of the SPI controller

The setters of `IMX6ECSPI` change the fields of one register. `selectChannel` does not clear its
field first, so that channels that are selected one after another are combined
(`setters_exact_iff`).
-/

namespace CyPhOS

namespace IMX6ECSPI

def SPI_MAX_CHANNEL_COUNT : Nat := 4

def SPI_MAX_BURST_LENGTH : Nat := 4096

def SPI_BURST_LENGTH_MASK : BitVec 32 := 0xFFF

def SPI_CLOCK_PREDIVIDER_MASK : BitVec 32 := 0xF

def ECSPI_CONREG_CHANNEL_MODE : Nat := 0x4

def ECSPI_CONREG_PRE_DIVIDER : Nat := 0xC

def ECSPI_CONREG_CHANNEL_SELECT : Nat := 0x12

def ECSPI_CONREG_BURST_LENGTH : Nat := 0x14

/-! ## The setters of the control register -/

def selectChannel (conreg : BitVec 32) (channel : BitVec 8) : BitVec 32 :=
  if SPI_MAX_CHANNEL_COUNT ≤ channel.toNat then conreg
  else
    let regTmp := conreg
    let regTmp := regTmp ||| (channel.setWidth 32 <<< ECSPI_CONREG_CHANNEL_SELECT)
    regTmp

def selectBurstLength (conreg : BitVec 32) (burstLength : BitVec 16) : BitVec 32 :=
  if burstLength.toNat ≥ SPI_MAX_BURST_LENGTH then conreg
  else
    let regTmp := conreg
    let regTmp := regTmp &&& ~~~(SPI_BURST_LENGTH_MASK <<< ECSPI_CONREG_BURST_LENGTH)
    let regTmp := regTmp ||| ((burstLength.setWidth 32 - 1) <<< ECSPI_CONREG_BURST_LENGTH)
    regTmp

def selectChannelMode (conreg : BitVec 32) (channel : BitVec 8) (master : Bool) : BitVec 32 :=
  if SPI_MAX_CHANNEL_COUNT ≤ channel.toNat then conreg
  else
    let regTmp := conreg
    let regTmp := regTmp &&& ~~~(1#32 <<< (ECSPI_CONREG_CHANNEL_MODE + channel.toNat))
    if master then regTmp ||| (1#32 <<< (ECSPI_CONREG_CHANNEL_MODE + channel.toNat)) else regTmp

def setClockPreDivider (conreg : BitVec 32) (divider : BitVec 16) : BitVec 32 :=
  if divider.toNat > SPI_CLOCK_PREDIVIDER_MASK.toNat then conreg
  else
    let regTmp := conreg
    let regTmp := regTmp &&& ~~~(SPI_CLOCK_PREDIVIDER_MASK <<< ECSPI_CONREG_PRE_DIVIDER)
    let regTmp := regTmp ||| ((divider.setWidth 32 - 1) <<< ECSPI_CONREG_PRE_DIVIDER)
    regTmp

/-! ## The setters as writes of fields -/

section
variable {conreg : BitVec 32} {channel : BitVec 8} {burstLength divider : BitVec 16} {i : Nat}

/-- A small number is not changed by the width of the field. -/
theorem setWidth_setWidth_of_lt {w len : Nat} {x : BitVec w} (hx : x.toNat < 2 ^ len) :
    (x.setWidth len).setWidth w = x := by
  apply BitVec.eq_of_toNat_eq
  rw [BitVec.toNat_setWidth, BitVec.toNat_setWidth, Nat.mod_eq_of_lt hx, Nat.mod_eq_of_lt x.isLt]

theorem toNat_sub_one {n : BitVec 16} (hn : 1 ≤ n.toNat) :
    (n.setWidth 32 - 1#32).toNat = n.toNat - 1 := by
  have hwidth : (n.setWidth 32).toNat = n.toNat := BitVec.toNat_setWidth_of_le (by decide)
  have hle : 1#32 ≤ n.setWidth 32 := by rwa [BitVec.le_def, hwidth]
  rw [BitVec.toNat_sub_of_le hle, hwidth]
  rfl

/-- The code of a length or of a divider in a field of `len` bits. -/
theorem setWidth_sub_one {n : BitVec 16} {len : Nat} (hn : 1 ≤ n.toNat) :
    (n.setWidth 32 - 1#32).setWidth len = BitVec.ofNat len (n.toNat - 1) := by
  apply BitVec.eq_of_toNat_eq
  rw [BitVec.toNat_setWidth, toNat_sub_one hn, BitVec.toNat_ofNat]

theorem selectChannel_eq (hchannel : channel.toNat < SPI_MAX_CHANNEL_COUNT) :
    selectChannel conreg channel =
      BitField.insert ECSPI_CONREG_CHANNEL_SELECT 0#2 (channel.setWidth 2) conreg := by
  have hwidth : (channel.setWidth 2).setWidth 32 = channel.setWidth 32 := by
    apply BitVec.eq_of_toNat_eq
    rw [BitVec.toNat_setWidth, BitVec.toNat_setWidth, BitVec.toNat_setWidth,
      Nat.mod_eq_of_lt (show channel.toNat < 2 ^ 2 from hchannel)]
  rw [selectChannel, if_neg (Nat.not_le.mpr hchannel), BitField.insert_zero, hwidth]

theorem selectBurstLength_eq (hpos : 1 ≤ burstLength.toNat)
    (hlt : burstLength.toNat < SPI_MAX_BURST_LENGTH) :
    selectBurstLength conreg burstLength = BitField.set ECSPI_CONREG_BURST_LENGTH
      (BitVec.ofNat 12 (burstLength.toNat - 1)) conreg := by
  have hsmall : (burstLength.setWidth 32 - 1#32).toNat < 2 ^ 12 := by
    rw [toNat_sub_one hpos]
    exact (Nat.sub_le _ 1).trans_lt hlt
  rw [← setWidth_sub_one hpos, BitField.set, setWidth_setWidth_of_lt hsmall, selectBurstLength,
    if_neg (Nat.not_le.mpr hlt)]
  rfl

theorem selectBurstLength_large (hge : SPI_MAX_BURST_LENGTH ≤ burstLength.toNat) :
    selectBurstLength conreg burstLength = conreg :=
  if_pos hge

theorem setClockPreDivider_eq (hpos : 1 ≤ divider.toNat)
    (hle : divider.toNat ≤ SPI_CLOCK_PREDIVIDER_MASK.toNat) :
    setClockPreDivider conreg divider = BitField.set ECSPI_CONREG_PRE_DIVIDER
      (BitVec.ofNat 4 (divider.toNat - 1)) conreg := by
  have hsmall : (divider.setWidth 32 - 1#32).toNat < 2 ^ 4 := by
    rw [toNat_sub_one hpos]
    exact (Nat.sub_le _ 1).trans_lt (Nat.lt_succ_of_le hle)
  rw [← setWidth_sub_one hpos, BitField.set, setWidth_setWidth_of_lt hsmall, setClockPreDivider,
    if_neg (Nat.not_lt.mpr hle)]
  rfl

theorem selectChannelMode_eq {master : Bool} (hchannel : channel.toNat < SPI_MAX_CHANNEL_COUNT) :
    selectChannelMode conreg channel master =
      setbit conreg (ECSPI_CONREG_CHANNEL_MODE + channel.toNat) master := by
  rw [selectChannelMode, if_neg (Nat.not_le.mpr hchannel), setbit]
  cases master with
  | false => rfl
  | true =>
    simp only [if_true]
    apply BitVec.eq_of_getLsbD_eq
    intro i hi
    simp only [BitVec.getLsbD_or, BitVec.getLsbD_and, BitVec.getLsbD_not, hi, decide_true,
      Bool.true_and]
    cases (1#32 <<< (ECSPI_CONREG_CHANNEL_MODE + channel.toNat)).getLsbD i <;> simp

end

/-! ## Sequences of calls -/

abbrev Channel := { channel : BitVec 8 // channel.toNat < SPI_MAX_CHANNEL_COUNT }

abbrev BurstLength :=
  { burstLength : BitVec 16 // 1 ≤ burstLength.toNat ∧ burstLength.toNat < SPI_MAX_BURST_LENGTH }

abbrev PreDivider :=
  { divider : BitVec 16 // 1 ≤ divider.toNat ∧ divider.toNat ≤ SPI_CLOCK_PREDIVIDER_MASK.toNat }

/-- A call that sets a field of the control register. -/
inductive Op
  | selectChannel (channel : Channel)
  | selectChannelMode (channel : Channel) (master : Bool)
  | selectBurstLength (burstLength : BurstLength)
  | setClockPreDivider (divider : PreDivider)

def apply (conreg : BitVec 32) : Op → BitVec 32
  | .selectChannel channel => IMX6ECSPI.selectChannel conreg channel
  | .selectChannelMode channel master => IMX6ECSPI.selectChannelMode conreg channel master
  | .selectBurstLength burstLength => IMX6ECSPI.selectBurstLength conreg burstLength
  | .setClockPreDivider divider => IMX6ECSPI.setClockPreDivider conreg divider

namespace Op

/-- What a call sets a field to, as the field encodes it. -/
def channel : Op → Option (BitVec 2)
  | selectChannel channel => some (channel.val.setWidth 2)
  | _ => none

def burstLength : Op → Option (BitVec 12)
  | selectBurstLength burstLength => some (BitVec.ofNat 12 (burstLength.val.toNat - 1))
  | _ => none

def preDivider : Op → Option (BitVec 4)
  | setClockPreDivider divider => some (BitVec.ofNat 4 (divider.val.toNat - 1))
  | _ => none

def mode (channel : Channel) : Op → Option Bool
  | selectChannelMode channel' master => if channel' = channel then some master else none
  | _ => none

/-- The field that the call is about has bit `i`. -/
def Names (i : Nat) : Op → Prop
  | selectChannel _ => ECSPI_CONREG_CHANNEL_SELECT ≤ i ∧ i < ECSPI_CONREG_CHANNEL_SELECT + 2
  | selectChannelMode channel _ => i = ECSPI_CONREG_CHANNEL_MODE + channel.val.toNat
  | selectBurstLength _ => ECSPI_CONREG_BURST_LENGTH ≤ i ∧ i < ECSPI_CONREG_BURST_LENGTH + 12
  | setClockPreDivider _ => ECSPI_CONREG_PRE_DIVIDER ≤ i ∧ i < ECSPI_CONREG_PRE_DIVIDER + 4

end Op

def channelSelect (conreg : BitVec 32) : BitVec 2 :=
  BitField.get ECSPI_CONREG_CHANNEL_SELECT 2 conreg

def burstField (conreg : BitVec 32) : BitVec 12 := BitField.get ECSPI_CONREG_BURST_LENGTH 12 conreg

def preDividerField (conreg : BitVec 32) : BitVec 4 :=
  BitField.get ECSPI_CONREG_PRE_DIVIDER 4 conreg

def modeBit (conreg : BitVec 32) (channel : Channel) : Bool :=
  conreg.getLsbD (ECSPI_CONREG_CHANNEL_MODE + channel.val.toNat)

/-- The last value that the calls set. -/
def lastSet {α : Type} (value : Op → Option α) (ops : List Op) : Option α :=
  (ops.filterMap value).getLast?

/-- Every field has the value that was set last, and the bits that no call is about are the old
ones. -/
structure SetsExactly (conreg conreg' : BitVec 32) (ops : List Op) : Prop where
  channel : ∀ channel, lastSet Op.channel ops = some channel → channelSelect conreg' = channel
  burstLength : ∀ length, lastSet Op.burstLength ops = some length → burstField conreg' = length
  preDivider : ∀ divider, lastSet Op.preDivider ops = some divider →
    preDividerField conreg' = divider
  mode : ∀ channel master, lastSet (Op.mode channel) ops = some master →
    modeBit conreg' channel = master
  frame : ∀ i, (∀ op ∈ ops, ¬op.Names i) → conreg'.getLsbD i = conreg.getLsbD i

section
variable {conreg : BitVec 32} {op : Op} {ops : List Op} {i : Nat}

/-- The mode bits are below the other fields. -/
theorem Channel.mode_lt (channel : Channel) :
    ECSPI_CONREG_CHANNEL_MODE + channel.val.toNat < 8 :=
  Nat.add_lt_add_left channel.property 4

theorem Channel.ext_mode {a b : Channel}
    (h : ECSPI_CONREG_CHANNEL_MODE + a.val.toNat = ECSPI_CONREG_CHANNEL_MODE + b.val.toNat) :
    a = b :=
  Subtype.ext (BitVec.eq_of_toNat_eq (Nat.add_left_cancel h))

/-- A call changes the bits of its own field only. -/
theorem getLsbD_apply (h : ¬op.Names i) : (apply conreg op).getLsbD i = conreg.getLsbD i := by
  cases op with
  | selectChannel channel =>
    rw [apply, selectChannel_eq channel.property, BitField.getLsbD_insert (by decide)]
    exact if_neg h
  | selectChannelMode channel master =>
    rw [apply, selectChannelMode_eq channel.property,
      getLsbD_setbit (channel.mode_lt.trans (by decide))]
    exact if_neg h
  | selectBurstLength burstLength =>
    rw [apply, selectBurstLength_eq burstLength.property.1 burstLength.property.2,
      BitField.getLsbD_set (by decide)]
    exact if_neg h
  | setClockPreDivider divider =>
    rw [apply, setClockPreDivider_eq divider.property.1 divider.property.2,
      BitField.getLsbD_set (by decide)]
    exact if_neg h

theorem get_apply {lo len : Nat} (h : ∀ i, lo ≤ i → i < lo + len → ¬op.Names i) :
    BitField.get lo len (apply conreg op) = BitField.get lo len conreg := by
  apply BitVec.eq_of_getLsbD_eq
  intro i hi
  rw [BitField.getLsbD_get, BitField.getLsbD_get,
    getLsbD_apply (h _ (Nat.le_add_right lo i) (Nat.add_lt_add_left hi lo))]

theorem Op.not_names_of_mode {channel : Channel} {master : Bool} (hi : 8 ≤ i) :
    ¬Names i (.selectChannelMode channel master) :=
  (channel.mode_lt.trans_le hi).ne'

theorem channelSelect_apply : channelSelect (apply conreg op) =
    match op.channel with
    | some channel => channelSelect conreg ||| channel
    | none => channelSelect conreg := by
  cases op with
  | selectChannel channel =>
    rw [apply, selectChannel_eq channel.property, channelSelect,
      BitField.get_insert (by decide), BitVec.not_zero, BitVec.and_allOnes]
    rfl
  | selectChannelMode =>
    exact get_apply fun i hlo _ => Op.not_names_of_mode (le_trans (by decide) hlo)
  | selectBurstLength =>
    exact get_apply fun i _ hhi h => absurd (hhi.trans_le (le_trans (by decide) h.1)) (lt_irrefl i)
  | setClockPreDivider =>
    exact get_apply fun i hlo _ h => absurd (h.2.trans_le (le_trans (by decide) hlo)) (lt_irrefl i)

theorem burstField_apply :
    burstField (apply conreg op) = op.burstLength.getD (burstField conreg) := by
  cases op with
  | selectBurstLength burstLength =>
    rw [apply, selectBurstLength_eq burstLength.property.1 burstLength.property.2]
    exact BitField.get_set (by decide)
  | selectChannelMode =>
    exact get_apply fun i hlo _ => Op.not_names_of_mode (le_trans (by decide) hlo)
  | selectChannel | setClockPreDivider =>
    exact get_apply fun i hlo _ h => absurd (h.2.trans_le (le_trans (by decide) hlo)) (lt_irrefl i)

theorem preDividerField_apply :
    preDividerField (apply conreg op) = op.preDivider.getD (preDividerField conreg) := by
  cases op with
  | setClockPreDivider divider =>
    rw [apply, setClockPreDivider_eq divider.property.1 divider.property.2]
    exact BitField.get_set (by decide)
  | selectChannelMode =>
    exact get_apply fun i hlo _ => Op.not_names_of_mode (le_trans (by decide) hlo)
  | selectChannel | selectBurstLength =>
    exact get_apply fun i _ hhi h => absurd (hhi.trans_le (le_trans (by decide) h.1)) (lt_irrefl i)

theorem modeBit_apply {channel : Channel} :
    modeBit (apply conreg op) channel = (op.mode channel).getD (modeBit conreg channel) := by
  cases op with
  | selectChannelMode channel' master =>
    rw [apply, selectChannelMode_eq channel'.property, modeBit,
      getLsbD_setbit (channel'.mode_lt.trans (by decide)), Op.mode]
    by_cases h : channel' = channel
    · rw [if_pos h, if_pos (by rw [h])]
      rfl
    · rw [if_neg h, if_neg fun heq => h (Channel.ext_mode heq.symm)]
      rfl
  | selectChannel | selectBurstLength | setClockPreDivider =>
    exact getLsbD_apply fun h =>
      absurd (channel.mode_lt.trans_le (le_trans (by decide) h.1)) (lt_irrefl _)

/-! What a sequence does to them: the last call that sets a field decides, but the channels are
combined. -/

theorem channelSelect_foldl : channelSelect (ops.foldl apply conreg) =
    (ops.filterMap Op.channel).foldl (fun old channel => (old &&& BitVec.allOnes 2) ||| channel)
      (channelSelect conreg) := by
  rw [List.foldl_filterMap]
  refine (List.foldl_hom channelSelect fun conreg op => ?_).symm
  rw [channelSelect_apply, BitVec.and_allOnes]
  cases op.channel <;> rfl

theorem burstField_foldl : burstField (ops.foldl apply conreg) =
    (lastSet Op.burstLength ops).getD (burstField conreg) := by
  rw [lastSet, ← BitField.foldl_getD]
  exact (List.foldl_hom burstField fun _ _ => burstField_apply.symm).symm

theorem preDividerField_foldl : preDividerField (ops.foldl apply conreg) =
    (lastSet Op.preDivider ops).getD (preDividerField conreg) := by
  rw [lastSet, ← BitField.foldl_getD]
  exact (List.foldl_hom preDividerField fun _ _ => preDividerField_apply.symm).symm

theorem modeBit_foldl {channel : Channel} : modeBit (ops.foldl apply conreg) channel =
    (lastSet (Op.mode channel) ops).getD (modeBit conreg channel) := by
  rw [lastSet, ← BitField.foldl_getD]
  exact (List.foldl_hom (fun conreg => modeBit conreg channel) fun _ _ => modeBit_apply.symm).symm

theorem getLsbD_foldl (h : ∀ op ∈ ops, ¬op.Names i) :
    (ops.foldl apply conreg).getLsbD i = conreg.getLsbD i := by
  induction ops generalizing conreg with
  | nil => rfl
  | cons op ops ih =>
    obtain ⟨hop, hops⟩ := List.forall_mem_cons.mp h
    rw [List.foldl_cons, ih hops, getLsbD_apply hop]

end

/-- Which sequences of calls set the fields exactly: the channel in the register and all that are
selected are within the one that is selected last. -/
theorem setters_exact_iff (conreg : BitVec 32) (ops : List Op) :
    SetsExactly conreg (ops.foldl apply conreg) ops ↔
      ∀ last, lastSet Op.channel ops = some last →
        ∀ channel ∈ channelSelect conreg :: ops.filterMap Op.channel, channel ||| last = last := by
  have hchannel : ∀ last, lastSet Op.channel ops = some last →
      (channelSelect (ops.foldl apply conreg) = last ↔
        ∀ channel ∈ channelSelect conreg :: ops.filterMap Op.channel, channel ||| last = last) := by
    intro last hlast
    rw [channelSelect_foldl, BitField.foldl_eq_last_iff hlast]
    simp only [← BitField.write_eq_iff, BitVec.and_allOnes]
  constructor
  · intro h last hlast
    exact (hchannel last hlast).mp (h.channel last hlast)
  · intro h
    refine ⟨fun last hlast => (hchannel last hlast).mpr (h last hlast), fun length hlength => ?_,
      fun divider hdivider => ?_, fun channel master hmode => ?_, fun i => getLsbD_foldl⟩
    · rw [burstField_foldl, hlength]
      rfl
    · rw [preDividerField_foldl, hdivider]
      rfl
    · rw [modeBit_foldl, hmode]
      rfl

/-- Channel 1 and then channel 2 select channel 3. -/
theorem selectChannel_combines :
    ¬ ∀ (conreg : BitVec 32) (ops : List Op), SetsExactly conreg (ops.foldl apply conreg) ops := by
  intro h
  have hchannel := (h 0#32 [.selectChannel ⟨1#8, by decide⟩,
    .selectChannel ⟨2#8, by decide⟩]).channel 2#2 rfl
  revert hchannel
  decide

end IMX6ECSPI

end CyPhOS
