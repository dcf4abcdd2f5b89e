import CyPhOS.IMX6.IMX6ECSPI
import CyPhOS.Common.Exec

/-! # Transfers of the SPI controller

`writeOutputBuffer` fills the transmit FIFO from a buffer of 32 words, starts the exchange, waits
for its end and empties the receive FIFO. It sends as many words as the FIFO has room for, also
those behind the buffer, and the largest length does not reach the control register
(`writeOutputBuffer_iff`). The words that were received are read in order
(`writeOutputBuffer_received`).
-/

namespace CyPhOS

namespace IMX6ECSPI

def ECSPI_CONREG_XCH : Nat := 0x2

def ECSPI_STATREG_TF : Nat := 0x2

def ECSPI_STATREG_RR : Nat := 0x3

def SPI_OUTPUT_BUFFER_SIZE : Nat := 32

abbrev SPI_INPUT_BUFFER_SIZE : Nat := 32

/-- What the `n`-th read of a register gives: the status register, whether an exchange is going on,
and the words of the receive FIFO. -/
structure Hardware where
  statreg : Nat → BitVec 32
  xch : Nat → Bool
  rxdata : Nat → BitVec 32

/-- The driver, the control register, the words that have been written to the transmit FIFO, and
how often the registers have been read. A word that does not come from the buffer is `none`. -/
structure State where
  mOutputBuffer : Vector (BitVec 32) SPI_OUTPUT_BUFFER_SIZE
  mInputBuffer : Vector (BitVec 32) SPI_INPUT_BUFFER_SIZE
  mReadBufferRPtr : Fin SPI_INPUT_BUFFER_SIZE
  mReadBufferWPtr : Fin SPI_INPUT_BUFFER_SIZE
  conreg : BitVec 32
  txdata : List (Option (BitVec 32))
  statReads : Nat
  conReads : Nat
  rxReads : Nat

section
variable (hw : Hardware)

/-- The `n`-th read of the status register finds the transmit FIFO full. -/
def Hardware.TxFull (n : Nat) : Prop := hw.statreg n &&& (1#32 <<< ECSPI_STATREG_TF) ≠ 0

instance {n : Nat} : Decidable (hw.TxFull n) := inferInstanceAs (Decidable (_ ≠ _))

/-- `READ_REGISTER(ECSPIX_STATREG(mECSPIBase))` -/
def State.readStatreg (s : State) : BitVec 32 × State :=
  (hw.statreg s.statReads, { s with statReads := s.statReads + 1 })

/-- The loop that writes the output buffer to the transmit FIFO. -/
def transmitLoop (length mWritePtr : Nat) (s : State) : State :=
  if length = 0 then s
  else
    let (statreg, s) := s.readStatreg hw
    if statreg &&& (1#32 <<< ECSPI_STATREG_TF) ≠ 0 then s
    else
      let s : State := { s with txdata := s.txdata ++ [s.mOutputBuffer[mWritePtr]?] }
      transmitLoop (if length < 32 then 0 else length - 32) (mWritePtr + 1) s
termination_by length
decreasing_by split <;> omega

/-- `writeOutputBuffer` up to the start of the transmission. -/
def State.transmit (s : State) (length : BitVec 16) : State :=
  let s : State := { s with conreg := selectBurstLength s.conreg length }
  let s : State := { s with mReadBufferRPtr := 0, mReadBufferWPtr := 0 }
  let s := transmitLoop hw length.toNat 0 s
  let regTmp := s.conreg ||| (1#32 <<< ECSPI_CONREG_XCH)
  { s with conreg := regTmp }

/-- The loop that waits for the end of the transmission. -/
def waitForTransmission : Nat → State → Exec State
  | 0, _ => .error .hang
  | fuel + 1, s =>
    let conreg := setbit s.conreg ECSPI_CONREG_XCH (hw.xch s.conReads)
    let s : State := { s with conreg, conReads := s.conReads + 1 }
    if conreg &&& (1#32 <<< ECSPI_CONREG_XCH) ≠ 0 then waitForTransmission fuel s else .ok s

/-- The loop that empties the receive FIFO. -/
def receiveLoop : Nat → BitVec 16 → State → Exec (BitVec 16 × State)
  | 0, _, _ => .error .hang
  | fuel + 1, readSize, s =>
    let (statreg, s) := s.readStatreg hw
    if statreg &&& (1#32 <<< ECSPI_STATREG_RR) ≠ 0 then
      let s : State :=
        { s with
          mInputBuffer := s.mInputBuffer.set s.mReadBufferWPtr (hw.rxdata s.rxReads)
          rxReads := s.rxReads + 1
          mReadBufferWPtr := s.mReadBufferWPtr + 1 }
      receiveLoop fuel (readSize + 1) s
    else .ok (readSize, s)

def State.writeOutputBuffer (fuel : Nat) (s : State) (length : BitVec 16) :
    Exec (BitVec 32 × State) := do
  let s := s.transmit hw length
  let s ← waitForTransmission hw fuel s
  let (readSize, s) ← receiveLoop hw fuel 0 s
  pure (readSize.setWidth 32, s)

end

def State.readInputBuffer (s : State) : BitVec 32 × State :=
  let dataWord := s.mInputBuffer[s.mReadBufferRPtr]
  (dataWord, { s with mReadBufferRPtr := s.mReadBufferRPtr + 1 })

variable {hw : Hardware} {s s' : State} {length : BitVec 16}

/-! ## Filling the transmit FIFO -/

/-- The words of a transfer of `length` bits. -/
def wordCount (length : Nat) : Nat := (length + 31) / 32

/-- The state after a word has been written. -/
def State.sendWord (s : State) (mWritePtr : Nat) : State :=
  { s with
    statReads := s.statReads + 1
    txdata := s.txdata ++ [s.mOutputBuffer[mWritePtr]?] }

section
variable {bits mWritePtr : Nat}

theorem transmitLoop_zero : transmitLoop hw 0 mWritePtr s = s := by
  rw [transmitLoop, if_pos rfl]

theorem transmitLoop_full (hbits : bits ≠ 0) (hfull : hw.TxFull s.statReads) :
    transmitLoop hw bits mWritePtr s = { s with statReads := s.statReads + 1 } := by
  rw [transmitLoop, if_neg hbits, State.readStatreg]
  exact if_pos hfull

theorem transmitLoop_room (hbits : bits ≠ 0) (hroom : ¬hw.TxFull s.statReads) :
    transmitLoop hw bits mWritePtr s =
      transmitLoop hw (if bits < 32 then 0 else bits - 32) (mWritePtr + 1)
        (s.sendWord mWritePtr) := by
  rw [transmitLoop, if_neg hbits, State.readStatreg]
  exact if_neg hroom

theorem wordCount_rest (hbits : bits ≠ 0) :
    wordCount (if bits < 32 then 0 else bits - 32) + 1 = wordCount bits := by
  simp only [wordCount]
  split <;> omega

end

/-- What the loop leaves after `n` words. -/
structure Fills (hw : Hardware) (s s' : State) (mWritePtr words n : Nat) : Prop where
  le : n ≤ words
  stops : n < words → hw.TxFull (s.statReads + n)
  room : ∀ k < n, ¬hw.TxFull (s.statReads + k)
  state : ∃ reads, s' =
    { s with
      txdata := s.txdata ++ (List.range' mWritePtr n).map fun i => s.mOutputBuffer[i]?
      statReads := reads }

theorem Fills.nothing {mWritePtr words reads : Nat} (hstops : 0 < words → hw.TxFull s.statReads) :
    Fills hw s { s with statReads := reads } mWritePtr words 0 where
  le := Nat.zero_le words
  stops := hstops
  room _ hk := absurd hk (Nat.not_lt_zero _)
  state := ⟨reads, by rw [List.range'_zero, List.map_nil, List.append_nil]⟩

theorem Fills.word {mWritePtr words n : Nat} (hroom : ¬hw.TxFull s.statReads)
    (h : Fills hw (s.sendWord mWritePtr) s' (mWritePtr + 1) words n) :
    Fills hw s s' mWritePtr (words + 1) (n + 1) where
  le := Nat.add_le_add_right h.le 1
  stops hlt := by
    have hrest := h.stops (Nat.lt_of_add_lt_add_right hlt)
    rwa [State.sendWord, Nat.add_assoc, Nat.add_comm 1 n] at hrest
  room k hk := by
    cases k with
    | zero => exact hroom
    | succ k =>
      have hrest := h.room k (Nat.lt_of_add_lt_add_right hk)
      rwa [State.sendWord, Nat.add_assoc, Nat.add_comm 1 k] at hrest
  state := by
    obtain ⟨reads, hstate⟩ := h.state
    refine ⟨reads, ?_⟩
    rw [hstate, List.range'_succ, List.map_cons, State.sendWord]
    dsimp only
    rw [List.append_assoc]
    rfl

theorem Fills.conreg {mWritePtr words n : Nat} (h : Fills hw s s' mWritePtr words n) :
    s'.conreg = s.conreg := by
  obtain ⟨reads, rfl⟩ := h.state
  rfl

theorem Fills.txdata {mWritePtr words n : Nat} (h : Fills hw s s' mWritePtr words n) :
    s'.txdata = s.txdata ++ (List.range' mWritePtr n).map fun i => s.mOutputBuffer[i]? := by
  obtain ⟨reads, rfl⟩ := h.state
  rfl

/-- The loop writes the words of the transfer one after another until the FIFO is full. -/
theorem transmitLoop_fills (hw : Hardware) (bits mWritePtr : Nat) (s : State) :
    ∃ n, Fills hw s (transmitLoop hw bits mWritePtr s) mWritePtr (wordCount bits) n := by
  induction bits using Nat.strong_induction_on generalizing mWritePtr s with
  | _ bits ih =>
    by_cases hbits : bits = 0
    · subst hbits
      rw [transmitLoop_zero]
      exact ⟨0, .nothing fun h => absurd h (by decide)⟩
    · by_cases hfull : hw.TxFull s.statReads
      · rw [transmitLoop_full hbits hfull]
        exact ⟨0, .nothing fun _ => hfull⟩
      · rw [transmitLoop_room hbits hfull, ← wordCount_rest hbits]
        have hless : (if bits < 32 then 0 else bits - 32) < bits := by split <;> omega
        obtain ⟨n, hn⟩ := ih _ hless (mWritePtr + 1) (s.sendWord mWritePtr)
        exact ⟨n + 1, hn.word hfull⟩

/-! ## The burst length -/

theorem burstField_or_xch {conreg : BitVec 32} :
    burstField (conreg ||| (1#32 <<< ECSPI_CONREG_XCH)) = burstField conreg := by
  have hset : burstField (setbit conreg ECSPI_CONREG_XCH true) = burstField conreg :=
    get_setbit_of_disjoint (by decide) (.inl (by decide))
  exact hset

/-- The setter ignores the largest length. -/
theorem burstField_selectBurstLength_iff {conreg : BitVec 32} (hpos : 1 ≤ length.toNat)
    (hle : length.toNat ≤ SPI_MAX_BURST_LENGTH) :
    (burstField (selectBurstLength conreg length)).toNat = length.toNat - 1 ↔
      length.toNat < SPI_MAX_BURST_LENGTH ∨ burstField conreg = 0xFFF#12 := by
  rcases hle.lt_or_eq with hlt | heq
  · refine iff_of_true ?_ (.inl hlt)
    have hsmall : length.toNat - 1 < 2 ^ 12 := (Nat.sub_le _ 1).trans_lt hlt
    rw [selectBurstLength_eq hpos hlt, burstField, BitField.get_set (by decide),
      BitVec.toNat_ofNat, Nat.mod_eq_of_lt hsmall]
  · rw [selectBurstLength_large heq.ge, heq, ← BitVec.toNat_inj]
    exact ⟨.inr, fun h => h.resolve_left (lt_irrefl _)⟩

/-! ## What a transfer sends -/

/-- The words that have been written to the transmit FIFO between two states. -/
def written (s s' : State) : List (Option (BitVec 32)) := s'.txdata.drop s.txdata.length

/-- The words are those of the buffer, and as many as the length has unless the FIFO was full. The
controller knows the length. -/
structure Sends (hw : Hardware) (s s' : State) (length : BitVec 16) : Prop where
  inside : ∀ k word, (written s s')[k]? = some word →
    ∃ h : k < SPI_OUTPUT_BUFFER_SIZE, word = some s.mOutputBuffer[k]
  count : (written s s').length = wordCount length.toNat ∨
    (written s s').length < wordCount length.toNat ∧
      hw.TxFull (s.statReads + (written s s').length)
  burst : (burstField s'.conreg).toNat = length.toNat - 1

/-- The transfer fits into the output buffer, or the FIFO is full when the buffer is sent. -/
def Fits (hw : Hardware) (s : State) (length : BitVec 16) : Prop :=
  length.toNat ≤ 32 * SPI_OUTPUT_BUFFER_SIZE ∨
    ∃ k ≤ SPI_OUTPUT_BUFFER_SIZE, hw.TxFull (s.statReads + k)

/-- `transmit` before the loop. -/
def State.prepare (s : State) (length : BitVec 16) : State :=
  { s with
    conreg := selectBurstLength s.conreg length
    mReadBufferRPtr := 0
    mReadBufferWPtr := 0 }

theorem Fills.written {words n : Nat} (h : Fills hw (s.prepare length) s' 0 words n) :
    written s s' = (List.range n).map fun i => s.mOutputBuffer[i]? := by
  rw [IMX6ECSPI.written, h.txdata, List.range_eq_range']
  exact List.drop_left

theorem Fills.inside_iff {words n : Nat} (h : Fills hw (s.prepare length) s' 0 words n) :
    (∀ k word, (IMX6ECSPI.written s s')[k]? = some word →
      ∃ h : k < SPI_OUTPUT_BUFFER_SIZE, word = some s.mOutputBuffer[k]) ↔
      n ≤ SPI_OUTPUT_BUFFER_SIZE := by
  have hget : ∀ k < n, (IMX6ECSPI.written s s')[k]? = some s.mOutputBuffer[k]? := by
    intro k hk
    rw [h.written, List.getElem?_map, List.getElem?_range hk]
    rfl
  constructor
  · intro hinside
    by_contra hn
    -- the word behind the buffer
    obtain ⟨hlt, -⟩ := hinside _ _ (hget SPI_OUTPUT_BUFFER_SIZE (Nat.not_le.mp hn))
    exact lt_irrefl _ hlt
  · intro hn k word hword
    have hk : k < n := by
      have hlength := (List.getElem?_eq_some_iff.mp hword).1
      rwa [h.written, List.length_map, List.length_range] at hlength
    rw [hget k hk] at hword
    exact ⟨hk.trans_le hn, by rw [← Option.some.inj hword, Vector.getElem?_eq_getElem]⟩

theorem Fills.fits_iff {n : Nat}
    (h : Fills hw (s.prepare length) s' 0 (wordCount length.toNat) n) :
    n ≤ SPI_OUTPUT_BUFFER_SIZE ↔ Fits hw s length := by
  have hwords : wordCount length.toNat ≤ SPI_OUTPUT_BUFFER_SIZE ↔
      length.toNat ≤ 32 * SPI_OUTPUT_BUFFER_SIZE := by
    simp only [wordCount, SPI_OUTPUT_BUFFER_SIZE]
    omega
  constructor
  · intro hn
    rcases h.le.lt_or_eq with hlt | heq
    · exact .inr ⟨n, hn, h.stops hlt⟩
    · exact .inl (hwords.mp (heq ▸ hn))
  · rintro (hlength | ⟨k, hk, hfull⟩)
    · exact h.le.trans (hwords.mpr hlength)
    · by_contra hn
      exact h.room k (hk.trans_lt (Nat.not_le.mp hn)) hfull

theorem transmit_sends_iff (hpos : 1 ≤ length.toNat)
    (hle : length.toNat ≤ SPI_MAX_BURST_LENGTH) :
    Sends hw s (s.transmit hw length) length ↔
      (length.toNat < SPI_MAX_BURST_LENGTH ∨ burstField s.conreg = 0xFFF#12) ∧
        Fits hw s length := by
  obtain ⟨n, hn⟩ := transmitLoop_fills hw length.toNat 0 (s.prepare length)
  have hwritten : written s (s.transmit hw length) =
      written s (transmitLoop hw length.toNat 0 (s.prepare length)) := rfl
  have hconreg : burstField (s.transmit hw length).conreg =
      burstField (selectBurstLength s.conreg length) := by
    rw [State.transmit]
    exact burstField_or_xch.trans (congrArg burstField hn.conreg)
  rw [← burstField_selectBurstLength_iff hpos hle, ← hn.fits_iff, ← hn.inside_iff]
  constructor
  · intro h
    exact ⟨hconreg ▸ h.burst, h.inside⟩
  · rintro ⟨hburst, hinside⟩
    refine ⟨hinside, ?_, hconreg ▸ hburst⟩
    have hlength : (written s (s.transmit hw length)).length = n := by
      rw [hwritten, hn.written, List.length_map, List.length_range]
    rw [hlength]
    exact hn.le.eq_or_lt.imp_right fun hlt => ⟨hlt, hn.stops hlt⟩

/-! ## The end of the transfer -/

/-- The words that were sent, and the burst length. -/
def SameTransfer (s s' : State) : Prop :=
  s'.txdata = s.txdata ∧ burstField s'.conreg = burstField s.conreg

theorem SameTransfer.trans {s'' : State} (h : SameTransfer s s') (h' : SameTransfer s' s'') :
    SameTransfer s s'' :=
  ⟨h'.1.trans h.1, h'.2.trans h.2⟩

theorem SameTransfer.sends_iff {s₀ : State} (h : SameTransfer s s') :
    Sends hw s₀ s' length ↔ Sends hw s₀ s length := by
  have hwritten : written s₀ s' = written s₀ s := by rw [written, written, h.1]
  constructor
  · rintro ⟨hinside, hcount, hburst⟩
    exact ⟨hwritten ▸ hinside, hwritten ▸ hcount, h.2 ▸ hburst⟩
  · rintro ⟨hinside, hcount, hburst⟩
    exact ⟨hwritten ▸ hinside, hwritten ▸ hcount, h.2 ▸ hburst⟩

/-- The control register after a read during the exchange. -/
def State.readConreg (hw : Hardware) (s : State) : State :=
  { s with
    conreg := setbit s.conreg ECSPI_CONREG_XCH (hw.xch s.conReads)
    conReads := s.conReads + 1 }

section
variable {fuel : Nat}

theorem waitForTransmission_succ : waitForTransmission hw (fuel + 1) s =
    if hw.xch s.conReads = true then waitForTransmission hw fuel (s.readConreg hw)
    else .ok (s.readConreg hw) := by
  have hbit : (s.readConreg hw).conreg.getLsbD ECSPI_CONREG_XCH = hw.xch s.conReads :=
    (getLsbD_setbit (by decide)).trans (if_pos rfl)
  have hset : (s.readConreg hw).conreg &&& (1#32 <<< ECSPI_CONREG_XCH) ≠ 0 ↔
      hw.xch s.conReads = true := by
    rw [Ne, and_one_shiftLeft_eq_zero_iff (by decide), hbit, Bool.not_eq_false]
  rw [waitForTransmission]
  exact if_congr hset rfl rfl

/-- The wait changes the exchange bit and the number of reads only. -/
theorem waitForTransmission_eq_ok (h : waitForTransmission hw fuel s = .ok s') :
    ∃ conreg reads, burstField conreg = burstField s.conreg ∧
      s' = { s with conreg := conreg, conReads := reads } := by
  have hburst : burstField (s.readConreg hw).conreg = burstField s.conreg :=
    get_setbit_of_disjoint (by decide) (.inl (by decide))
  induction fuel generalizing s with
  | zero => cases h
  | succ fuel ih =>
    rw [waitForTransmission_succ] at h
    split at h
    · obtain ⟨conreg, reads, hconreg, rfl⟩ := ih h
        (get_setbit_of_disjoint (by decide) (.inl (by decide)))
      exact ⟨conreg, reads, hconreg.trans hburst, rfl⟩
    · cases h
      exact ⟨_, _, hburst, rfl⟩

/-- The state after a word has been received. -/
def State.receiveWord (hw : Hardware) (s : State) : State :=
  { s with
    statReads := s.statReads + 1
    mInputBuffer := s.mInputBuffer.set s.mReadBufferWPtr (hw.rxdata s.rxReads)
    rxReads := s.rxReads + 1
    mReadBufferWPtr := s.mReadBufferWPtr + 1 }

/-- The `n`-th read of the status register finds a word in the receive FIFO. -/
def Hardware.RxReady (hw : Hardware) (n : Nat) : Prop :=
  hw.statreg n &&& (1#32 <<< ECSPI_STATREG_RR) ≠ 0

instance {n : Nat} : Decidable (hw.RxReady n) := inferInstanceAs (Decidable (_ ≠ _))

theorem receiveLoop_succ {readSize : BitVec 16} : receiveLoop hw (fuel + 1) readSize s =
    if hw.RxReady s.statReads then receiveLoop hw fuel (readSize + 1) (s.receiveWord hw)
    else .ok (readSize, { s with statReads := s.statReads + 1 }) := rfl

theorem receiveLoop_sameTransfer {readSize n : BitVec 16}
    (h : receiveLoop hw fuel readSize s = .ok (n, s')) : SameTransfer s s' := by
  induction fuel generalizing readSize s with
  | zero => cases h
  | succ fuel ih =>
    rw [receiveLoop_succ] at h
    split at h
    · have hword : SameTransfer s (s.receiveWord hw) := ⟨rfl, rfl⟩
      exact hword.trans (ih h)
    · cases h
      exact ⟨rfl, rfl⟩

/-- A call that returns has transmitted, waited and received. -/
theorem writeOutputBuffer_eq_ok {size : BitVec 32}
    (h : s.writeOutputBuffer hw fuel length = .ok (size, s')) :
    ∃ conreg reads readSize, burstField conreg = burstField (s.transmit hw length).conreg ∧
      receiveLoop hw fuel 0 { s.transmit hw length with conreg := conreg, conReads := reads } =
        .ok (readSize, s') ∧ size = readSize.setWidth 32 := by
  rw [State.writeOutputBuffer, Exec.bind_eq_ok] at h
  obtain ⟨s₁, hwait, h⟩ := h
  obtain ⟨conreg, reads, hconreg, rfl⟩ := waitForTransmission_eq_ok hwait
  rw [Exec.bind_eq_ok] at h
  obtain ⟨⟨readSize, s₂⟩, hreceive, h⟩ := h
  cases h
  exact ⟨conreg, reads, readSize, hconreg, hreceive, rfl⟩

theorem writeOutputBuffer_sameTransfer {size : BitVec 32}
    (h : s.writeOutputBuffer hw fuel length = .ok (size, s')) :
    SameTransfer (s.transmit hw length) s' := by
  obtain ⟨conreg, reads, readSize, hconreg, hreceive, -⟩ := writeOutputBuffer_eq_ok h
  have hwait : SameTransfer (s.transmit hw length)
      { s.transmit hw length with conreg := conreg, conReads := reads } := ⟨rfl, hconreg⟩
  exact hwait.trans (receiveLoop_sameTransfer hreceive)

/-- The wait ends at the latest at a read that is known to find the exchange over. -/
theorem waitForTransmission_returns {k : Nat} (hxch : hw.xch (s.conReads + k) = false)
    (hfuel : k < fuel) :
    ∃ s', waitForTransmission hw fuel s = .ok s' ∧ s'.statReads = s.statReads := by
  obtain ⟨s', hreads, hs'⟩ := Exec.poll_returns (waitForTransmission hw)
    (fun n => hw.xch n = true) State.conReads (State.readConreg hw) (State.readConreg hw)
    (fun s' => s'.statReads = s.statReads) (fun _ _ => waitForTransmission_succ) (fun _ => rfl)
    (fun _ h => h) rfl (by rw [hxch]; decide) hfuel
  exact ⟨s'.readConreg hw, hs', hreads⟩

/-- The loop ends at the latest at a read that is known to find the receive FIFO empty. -/
theorem receiveLoop_returns {k : Nat} {readSize : BitVec 16}
    (hempty : ¬hw.RxReady (s.statReads + k)) (hfuel : k < fuel) :
    ∃ r, receiveLoop hw fuel readSize s = .ok r := by
  obtain ⟨⟨size, s'⟩, -, h⟩ := Exec.poll_returns
    (fun fuel (r : BitVec 16 × State) => receiveLoop hw fuel r.1 r.2) hw.RxReady
    (fun r => r.2.statReads) (fun r => (r.1 + 1, r.2.receiveWord hw))
    (fun r => (r.1, { r.2 with statReads := r.2.statReads + 1 })) (fun _ => True)
    (fun _ _ => receiveLoop_succ) (fun _ => rfl) (fun _ h => h)
    (s := (readSize, s)) trivial hempty hfuel
  exact ⟨_, h⟩

/-- If the exchange ends and the receive FIFO runs empty some time, the call returns. -/
theorem writeOutputBuffer_returns (hxch : ∀ n, ∃ k, hw.xch (n + k) = false)
    (hempty : ∀ n, ∃ k, ¬hw.RxReady (n + k)) (s : State) (length : BitVec 16) :
    ∃ enough, ∀ fuel ≥ enough, ∃ r, s.writeOutputBuffer hw fuel length = .ok r := by
  obtain ⟨k, hk⟩ := hxch (s.transmit hw length).conReads
  obtain ⟨m, hm⟩ := hempty (s.transmit hw length).statReads
  refine ⟨k + m + 1, fun fuel hfuel => ?_⟩
  obtain ⟨s₁, hwait, hreads⟩ := waitForTransmission_returns hk (by omega : k < fuel)
  rw [← hreads] at hm
  obtain ⟨⟨readSize, s₂⟩, hr⟩ :=
    @receiveLoop_returns hw s₁ fuel m 0 hm (by omega)
  refine ⟨(readSize.setWidth 32, s₂), ?_⟩
  rw [State.writeOutputBuffer, hwait, Exec.ok_bind, hr]
  rfl

end

/-! ## The words that are received -/

/-- A cell of the input buffer, which the pointers go around in. -/
def State.input (s : State) (i : Nat) : BitVec 32 :=
  have hi : i % SPI_INPUT_BUFFER_SIZE < SPI_INPUT_BUFFER_SIZE := Nat.mod_lt _ (by decide)
  s.mInputBuffer[i % SPI_INPUT_BUFFER_SIZE]

theorem State.input_congr {i j : Nat} (h : i % SPI_INPUT_BUFFER_SIZE = j % SPI_INPUT_BUFFER_SIZE) :
    s.input i = s.input j := by
  simp only [State.input, h]

theorem State.input_receiveWord {i : Nat} : (s.receiveWord hw).input i =
    if s.mReadBufferWPtr.val = i % SPI_INPUT_BUFFER_SIZE then hw.rxdata s.rxReads
    else s.input i := by
  simp only [State.input, State.receiveWord, Vector.getElem_set]

theorem State.val_mReadBufferWPtr_receiveWord : (s.receiveWord hw).mReadBufferWPtr.val =
    (s.mReadBufferWPtr.val + 1) % SPI_INPUT_BUFFER_SIZE :=
  Fin.val_add ..

/-- What the loop leaves after `n` words, which overwrite each other from the 33rd on. -/
structure Receives (hw : Hardware) (s s' : State) (n : Nat) : Prop where
  rptr : s'.mReadBufferRPtr = s.mReadBufferRPtr
  words : n ≤ SPI_INPUT_BUFFER_SIZE → ∀ k < n,
    s'.input (s.mReadBufferWPtr + k) = hw.rxdata (s.rxReads + k)
  others : ∀ i, (∀ k < n, i % SPI_INPUT_BUFFER_SIZE ≠
    (s.mReadBufferWPtr + k) % SPI_INPUT_BUFFER_SIZE) → s'.input i = s.input i

theorem Receives.word {n : Nat} (h : Receives hw (s.receiveWord hw) s' n) :
    Receives hw s s' (n + 1) where
  rptr := h.rptr
  words hn k hk := by
    have hwptr := s.mReadBufferWPtr.isLt
    cases k with
    | zero =>
      -- the words that follow go to other cells
      have hother : s'.input s.mReadBufferWPtr = (s.receiveWord hw).input s.mReadBufferWPtr := by
        refine h.others _ fun k hk => ?_
        rw [State.val_mReadBufferWPtr_receiveWord]
        simp only [SPI_INPUT_BUFFER_SIZE] at hn hwptr ⊢
        omega
      rw [Nat.add_zero, hother, State.input_receiveWord, Nat.mod_eq_of_lt hwptr, if_pos rfl]
      rfl
    | succ k =>
      have hword := h.words (Nat.le_of_succ_le hn) k (Nat.lt_of_succ_lt_succ hk)
      rw [State.val_mReadBufferWPtr_receiveWord] at hword
      rw [← Nat.succ_add_eq_add_succ, ← Nat.succ_add_eq_add_succ]
      exact (State.input_congr (Nat.mod_add_mod _ _ _).symm).trans hword
  others i hi := by
    have hrest : s'.input i = (s.receiveWord hw).input i := by
      refine h.others i fun k hk => ?_
      rw [State.val_mReadBufferWPtr_receiveWord, Nat.mod_add_mod, Nat.add_assoc, Nat.add_comm 1 k]
      exact hi (k + 1) (Nat.add_lt_add_right hk 1)
    rw [hrest, State.input_receiveWord, if_neg]
    have hfirst := hi 0 (Nat.zero_lt_succ n)
    rw [Nat.add_zero, Nat.mod_eq_of_lt s.mReadBufferWPtr.isLt] at hfirst
    exact hfirst.symm

theorem receiveLoop_receives {fuel : Nat} {readSize size : BitVec 16}
    (h : receiveLoop hw fuel readSize s = .ok (size, s')) :
    ∃ n, size = readSize + BitVec.ofNat 16 n ∧ Receives hw s s' n := by
  induction fuel generalizing readSize s with
  | zero => cases h
  | succ fuel ih =>
    rw [receiveLoop_succ] at h
    split at h
    · obtain ⟨n, rfl, hn⟩ := ih h
      refine ⟨n + 1, ?_, hn.word⟩
      rw [BitVec.ofNat_add, BitVec.add_comm (BitVec.ofNat 16 n), ← BitVec.add_assoc]
      rfl
    · cases h
      exact ⟨0, (BitVec.add_zero size).symm, rfl, fun _ k hk => absurd hk (Nat.not_lt_zero k),
        fun _ _ => rfl⟩

/-- The results of `n` calls of `readInputBuffer`. -/
def readWords : Nat → State → List (BitVec 32)
  | 0, _ => []
  | n + 1, s =>
    let (dataWord, s) := s.readInputBuffer
    dataWord :: readWords n s

theorem readWords_succ {n : Nat} :
    readWords (n + 1) s = s.readInputBuffer.1 :: readWords n s.readInputBuffer.2 := rfl

theorem readWords_eq (n : Nat) (s : State) :
    readWords n s = (List.range n).map fun k => s.input (s.mReadBufferRPtr + k) := by
  induction n generalizing s with
  | zero => rfl
  | succ n ih =>
    have hrest : ∀ k, s.readInputBuffer.2.input (s.readInputBuffer.2.mReadBufferRPtr + k) =
        s.input (s.mReadBufferRPtr + (k + 1)) := by
      intro k
      have hptr : (s.readInputBuffer.2.mReadBufferRPtr : Nat) =
          (s.mReadBufferRPtr + 1) % SPI_INPUT_BUFFER_SIZE := Fin.val_add ..
      rw [hptr, Nat.add_comm k 1, ← Nat.add_assoc]
      exact State.input_congr (Nat.mod_add_mod ..)
    have hfirst : s.readInputBuffer.1 = s.input (s.mReadBufferRPtr + 0) := by
      simp only [State.readInputBuffer, State.input, Nat.add_zero,
        Nat.mod_eq_of_lt s.mReadBufferRPtr.isLt]
      rfl
    rw [readWords_succ, List.range_succ_eq_map, List.map_cons, List.map_map, ih]
    exact List.cons_eq_cons.mpr ⟨hfirst, List.map_congr_left fun k _ => hrest k⟩

theorem transmit_eq (hw : Hardware) (s : State) (length : BitVec 16) :
    ∃ conreg txdata statReads, s.transmit hw length =
      { s.prepare length with conreg := conreg, txdata := txdata, statReads := statReads } := by
  obtain ⟨n, hn⟩ := transmitLoop_fills hw length.toNat 0 (s.prepare length)
  obtain ⟨reads, hstate⟩ := hn.state
  have htransmit : s.transmit hw length =
      { transmitLoop hw length.toNat 0 (s.prepare length) with
        conreg := (transmitLoop hw length.toNat 0 (s.prepare length)).conreg |||
          (1#32 <<< ECSPI_CONREG_XCH) } := rfl
  rw [htransmit, hstate]
  exact ⟨_, _, _, rfl⟩

/-- The words of the receive FIFO are read in order, if there are not more than the input buffer
holds. -/
theorem writeOutputBuffer_received {fuel : Nat} {size : BitVec 32}
    (h : s.writeOutputBuffer hw fuel length = .ok (size, s')) :
    ∃ n, size = (BitVec.ofNat 16 n).setWidth 32 ∧ (n ≤ SPI_INPUT_BUFFER_SIZE →
      readWords n s' = (List.range n).map fun k => hw.rxdata (s.rxReads + k)) := by
  obtain ⟨conreg, reads, readSize, -, hreceive, rfl⟩ := writeOutputBuffer_eq_ok h
  obtain ⟨n, rfl, hn⟩ := receiveLoop_receives hreceive
  refine ⟨n, congrArg _ (BitVec.zero_add _), fun hle => ?_⟩
  obtain ⟨conreg', txdata, statReads, htransmit⟩ := transmit_eq hw s length
  rw [htransmit] at hn
  rw [readWords_eq, hn.rptr]
  exact List.map_congr_left fun k hk => hn.words hle k (List.mem_range.mp hk)

/-- When a transfer of at most the largest length sends the right words and has the right burst
length, at the start of the transmission and when the call returns. -/
theorem writeOutputBuffer_iff (hw : Hardware) (s : State) (length : BitVec 16)
    (hpos : 1 ≤ length.toNat) (hle : length.toNat ≤ SPI_MAX_BURST_LENGTH) :
    (Sends hw s (s.transmit hw length) length ↔
      (length.toNat < SPI_MAX_BURST_LENGTH ∨ burstField s.conreg = 0xFFF#12) ∧
        Fits hw s length) ∧
    ∀ fuel n s', s.writeOutputBuffer hw fuel length = .ok (n, s') →
      (Sends hw s s' length ↔
        (length.toNat < SPI_MAX_BURST_LENGTH ∨ burstField s.conreg = 0xFFF#12) ∧
          Fits hw s length) := by
  refine ⟨transmit_sends_iff hpos hle, fun fuel n s' h => ?_⟩
  rw [(writeOutputBuffer_sameTransfer h).sends_iff, transmit_sends_iff hpos hle]

/-- The controller with empty FIFOs that is done at once. -/
def idle : Hardware where
  statreg _ := 0
  xch _ := false
  rxdata _ := 0

/-- The driver in zeroed storage. -/
def zeroed : State where
  mOutputBuffer := .replicate _ 0
  mInputBuffer := .replicate _ 0
  mReadBufferRPtr := 0
  mReadBufferWPtr := 0
  conreg := 0
  txdata := []
  statReads := 0
  conReads := 0
  rxReads := 0

/-- The 24 bits that read a register of the CAN controller. -/
theorem writeOutputBuffer_24 : Sends idle zeroed (zeroed.transmit idle 24#16) 24#16 :=
  (writeOutputBuffer_iff idle zeroed 24#16 (by decide) (by decide)).1.mpr
    ⟨.inl (by decide), .inl (by decide)⟩

/-- A transfer of 4096 bits keeps the old burst length and reads words behind the buffer. -/
theorem writeOutputBuffer_4096 : ¬ ∀ (hw : Hardware) (s : State) (length : BitVec 16),
    1 ≤ length.toNat → length.toNat ≤ SPI_MAX_BURST_LENGTH →
      Sends hw s (s.transmit hw length) length := by
  intro h
  have hsends := h idle zeroed 4096#16 (by decide) (by decide)
  rcases ((transmit_sends_iff (by decide) (by decide)).mp hsends).2 with hlength | ⟨k, -, hfull⟩
  · exact absurd hlength (by decide)
  · exact hfull (BitVec.zero_and)

end IMX6ECSPI

end CyPhOS
