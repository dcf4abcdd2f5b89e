import CyPhOS.CANBenchmark.LostMessages
import Mathlib.Data.List.ReduceOption

/-! # The receive buffer of the CAN benchmark

The driver enters a message into the receive buffer and emits an event with its line, and the receiver
reads the line when the event is handled. As long as no more than ten events wait, a line is not
overwritten before it is read (`Board.KeepsWaiting`), and the receiver counts as in `LostMessages`:
see `refines` and `lost_messages`. It is assumed that the controllers and the bus keep the order.
-/

namespace CyPhOS

open Transition

namespace CANBenchmark

/-- The lines hold the messages, in this order, and no other line is used. -/
structure Waits (rx : CanBuffer) (lines : List (Fin 10)) (ms : List CanMessage) : Prop where
  content : lines.map (fun n => (rx.mBuffer n).content) = ms.map some
  nodup : lines.Nodup
  free : ∀ n ∉ lines, (rx.mBuffer n).content = none

section
variable {rx rx' : CanBuffer} {lines : List (Fin 10)} {m : CanMessage} {ms : List CanMessage}
  {n : Fin 10}

theorem content_eq_none_iff {line : CanBufferMsg} : line.content = none ↔ line.isUsed = false := by
  rw [CanBufferMsg.content]
  cases line.isUsed <;> simp

theorem Waits.new : Waits .new [] [] := ⟨rfl, .nil, fun _ _ => rfl⟩

theorem Waits.content_ne_none (h : Waits rx lines ms) (hn : n ∈ lines) :
    (rx.mBuffer n).content ≠ none := by
  have hmem : (rx.mBuffer n).content ∈ ms.map some := h.content ▸ List.mem_map_of_mem hn
  obtain ⟨m, -, hm⟩ := List.mem_map.mp hmem
  rw [← hm]
  exact Option.some_ne_none m

theorem Waits.exists_free (h : Waits rx lines ms) (hroom : lines.length < 10) :
    ∃ i, (rx.mBuffer i).isUsed = false := by
  by_contra hfull
  have hall : List.finRange 10 ⊆ lines := by
    intro i _
    by_contra hi
    exact hfull ⟨i, content_eq_none_iff.mp (h.free i hi)⟩
  have hlength := List.Nodup.length_le_of_subset (List.nodup_finRange 10) hall
  rw [List.length_finRange] at hlength
  omega

/-- As long as there is room, a line that is not waiting is taken. -/
theorem Waits.enterMsg_notMem {message : Nat → UInt8} {dataLength messageID : Nat}
    (h : Waits rx lines ms) (hroom : lines.length < 10)
    (henter : rx.enterMsg message dataLength messageID = (some n, rx')) : n ∉ lines := by
  rcases Nat.lt_or_ge 8 dataLength with hlong | hshort
  · rw [CanBuffer.enterMsg_long message messageID hlong] at henter
    cases henter
  · obtain ⟨line, hreserve⟩ := rx.reserve_isSome
    rw [CanBuffer.enterMsg_eq message messageID hshort hreserve] at henter
    cases henter
    have hunused := (CanBuffer.reserve_free_iff hreserve).mpr (h.exists_free hroom)
    exact fun hn => h.content_ne_none hn (content_eq_none_iff.mpr hunused)

theorem Waits.enterMsg {message : Nat → UInt8} {dataLength messageID : Nat} (h : Waits rx lines ms)
    (hroom : lines.length < 10) (henter : rx.enterMsg message dataLength messageID = (some n, rx')) :
    Waits rx' (lines ++ [n]) (ms ++ [.of message dataLength messageID]) := by
  have hfree := h.enterMsg_notMem hroom henter
  have hother : ∀ i, i ≠ n → (rx'.mBuffer i).content = (rx.mBuffer i).content := by
    intro i hi
    rw [CanBuffer.content_enterMsg henter, if_neg (by simpa using hi.symm)]
  constructor
  case content =>
    have hlines : lines.map (fun i => (rx'.mBuffer i).content) = ms.map some := by
      rw [← h.content]
      exact List.map_congr_left fun i hi => hother i (ne_of_mem_of_not_mem hi hfree)
    rw [List.map_append, List.map_append, hlines, List.map_singleton,
      CanBuffer.content_enterMsg henter, if_pos rfl, List.map_singleton]
  case nodup => exact h.nodup.append (List.nodup_singleton n) (by simpa using hfree)
  case free =>
    intro i hi
    obtain ⟨hlines, hn⟩ := not_or.mp (List.mem_append.not.mp hi)
    rw [hother i (List.mem_singleton.not.mp hn), h.free i hlines]

/-- The line that is read is free again. -/
theorem Waits.freeLine (h : Waits rx (n :: lines) (m :: ms)) :
    (rx.mBuffer n).content = some m ∧ Waits (rx.freeLine n) lines ms := by
  obtain ⟨hn, hnodup⟩ := List.nodup_cons.mp h.nodup
  have hcontent := h.content
  rw [List.map_cons, List.map_cons] at hcontent
  obtain ⟨hfirst, hrest⟩ := List.cons.inj hcontent
  refine ⟨hfirst, ?_, hnodup, ?_⟩
  · rw [← hrest]
    refine List.map_congr_left fun i hi => ?_
    rw [CanBuffer.content_freeLine, if_neg (ne_of_mem_of_not_mem hi hn).symm]
  · intro i hi
    rw [CanBuffer.content_freeLine]
    split
    · rfl
    · next hin => exact h.free i (List.mem_cons.not.mpr (not_or.mpr ⟨Ne.symm hin, hi⟩))

end

/-! ## The board with the receiver -/

/-- `transit` is what has been sent and has neither arrived nor been lost, `waiting` the arguments of
the events that are still to be handled. -/
structure Board where
  talker : CANSimpleTalkerApplication
  transit : List CanMessage
  rx : CanBuffer
  waiting : List (Fin 10)
  receiver : CANSimpleReceiver

/-- `none` is the arrival of a message, for which there is room in the receive buffer. -/
inductive Board.Step : Board → Option Label → Board → Prop
  | send {s : Board} {tx tx' : CanBuffer} {talker : CANSimpleTalkerApplication} {line : Fin 10}
    {m : CanMessage} : s.talker.periodicSend tx = (talker, tx', some line) →
    (tx'.mBuffer line).content = some m →
    Step s (some .send) { s with talker, transit := s.transit ++ [m] }
  | lose {s : Board} {sooner later : List CanMessage} {m : CanMessage} :
    s.transit = sooner ++ m :: later →
    Step s (some .lose) { s with transit := sooner ++ later }
  | arrive {s : Board} {message : Nat → UInt8} {dataLength messageID : Nat} {rx : CanBuffer}
    {line : Fin 10} {later : List CanMessage} :
    s.transit = .of message dataLength messageID :: later → s.waiting.length < 10 →
    s.rx.enterMsg message dataLength messageID = (some line, rx) →
    Step s none { s with transit := later, rx, waiting := s.waiting ++ [line] }
  | receive {s : Board} {answer : CANSimpleReceiver.Answer} {line : Fin 10}
    {waiting : List (Fin 10)} (tx : CanBuffer) (recvMessage : Nat → UInt8) :
    s.waiting = line :: waiting → s.receiver.receiveMessage s.rx tx recvMessage line = answer →
    Step s (some (.receive answer.receiver.mCounter)) { s with
      rx := answer.rx
      waiting
      receiver := answer.receiver }

/-- After `start` of both components. -/
def Board.initial (first second : Nat → UInt8) : Board :=
  ⟨⟨first, 0⟩, [], .new, [], ⟨second, 0, 0⟩⟩

/-- No line is overwritten before it is read: the events name different lines, and each step leaves
the messages of those that still wait after it. -/
structure Board.KeepsWaiting (s : Board) : Prop where
  nodup : s.waiting.Nodup
  kept : ∀ l s', s.Step l s' → ∀ line ∈ s.waiting, line ∈ s'.waiting →
    (s'.rx.mBuffer line).content = (s.rx.mBuffer line).content

/-- What has arrived and is not read yet is on its way. -/
structure Refines (s : Board) (t : State) : Prop where
  talker : t.talker = s.talker
  receiver : t.receiver = s.receiver
  waits : ∃ ms, Waits s.rx s.waiting ms ∧ t.transit = ms ++ s.transit

section
variable {s s' : Board} {t : State} {ls : List (Option Label)}

theorem refines_initial (first second : Nat → UInt8) :
    Refines (.initial first second) (.initial first second) :=
  ⟨rfl, rfl, [], .new, rfl⟩

theorem Refines.step {l : Option Label} (h : Refines s t) (hstep : s.Step l s') :
    (∃ k t', l = some k ∧ Step t k t' ∧ Refines s' t') ∨ (l = none ∧ Refines s' t) := by
  obtain ⟨htalker, hreceiver, ms, hwaits, htransit⟩ := h
  cases hstep with
  | send hsend hm =>
    rw [← htalker] at hsend
    refine .inl ⟨_, _, rfl, .send hsend hm, rfl, hreceiver, ms, hwaits, ?_⟩
    rw [htransit, List.append_assoc]
  | @lose sooner later m hlose =>
    rw [hlose, ← List.append_assoc] at htransit
    exact .inl ⟨_, _, rfl, .lose htransit, htalker, hreceiver, ms, hwaits, List.append_assoc ..⟩
  | arrive harrive hroom henter =>
    refine .inr ⟨rfl, htalker, hreceiver, _, hwaits.enterMsg hroom henter, ?_⟩
    rw [htransit, harrive, List.append_assoc]
    rfl
  | @receive answer line waiting tx recvMessage hwaiting hanswer =>
    rw [hwaiting] at hwaits
    cases ms with
    | nil => cases hwaits.content
    | cons m ms =>
      obtain ⟨hcontent, hrest⟩ := hwaits.freeLine
      have hrx : answer.rx = s.rx.freeLine line := by
        rw [← hanswer, receiveMessage_rx tx recvMessage hcontent]
      rw [← hreceiver] at hanswer
      exact .inl ⟨_, _, rfl, .receive tx recvMessage htransit hcontent hanswer, htalker, rfl, ms,
        hrx ▸ hrest, rfl⟩

/-- The arrivals are steps of the board only. -/
theorem refines {first second : Nat → UInt8} (h : Run Board.Step (.initial first second) ls s) :
    ∃ t, Run Step (.initial first second) ls.reduceOption t ∧ Refines s t := by
  induction h with
  | nil => exact ⟨_, .nil, refines_initial first second⟩
  | snoc _ hstep ih =>
    obtain ⟨t, hrun, ht⟩ := ih
    rw [← List.concat_eq_append, List.reduceOption_concat]
    rcases ht.step hstep with ⟨k, t', rfl, hk, ht'⟩ | ⟨rfl, ht'⟩
    · exact ⟨t', hrun.snoc hk, ht'⟩
    · rw [Option.toList_none, List.append_nil]
      exact ⟨t, hrun, ht'⟩

theorem Waits.keepsWaiting {ms : List CanMessage} (h : Waits s.rx s.waiting ms) :
    s.KeepsWaiting := by
  refine ⟨h.nodup, fun l s' hstep n hn hn' => ?_⟩
  cases hstep with
  | send | lose => rfl
  | @arrive message dataLength messageID rx line later harrive hroom henter =>
    have hne : line ≠ n := by
      rintro rfl
      exact h.enterMsg_notMem hroom henter hn
    rw [CanBuffer.content_enterMsg henter, if_neg (by simpa using hne)]
  | @receive answer line waiting tx recvMessage hwaiting hanswer =>
    rw [hwaiting] at h
    cases ms with
    | nil => cases h.content
    | cons m ms =>
      have hne : line ≠ n := by
        rintro rfl
        exact (List.nodup_cons.mp h.nodup).1 hn'
      change (answer.rx.mBuffer n).content = _
      rw [← hanswer, receiveMessage_rx tx recvMessage h.freeLine.1, CanBuffer.content_freeLine,
        if_neg hne]

/-- What is reported, and that nothing is overwritten, while no more than ten messages wait to be
read. -/
theorem lost_messages {first second : Nat → UInt8} (h : Run Board.Step (.initial first second) ls s)
    (hlt : sent ls.reduceOption ≤ 2 ^ 54) :
    Reports ls.reduceOption s.receiver ∧ s.KeepsWaiting := by
  obtain ⟨t, hrun, ht⟩ := refines h
  obtain ⟨ms, hwaits, -⟩ := ht.waits
  exact ⟨ht.receiver ▸ reports hrun hlt, hwaits.keepsWaiting⟩

/-- The first message is reported as lost. -/
theorem lost_messages_first : ∃ counter s,
    Run Board.Step (.initial (fun _ => 0) fun _ => 0)
      [some .send, none, some (.receive counter)] s ∧ s.receiver.mLostMessages = 1 := by
  obtain ⟨_, _, hsend, hm⟩ := CANSimpleTalkerApplication.exists_periodicSend ⟨fun _ => 0, 0⟩ .new
  obtain ⟨line, hline⟩ := CanBuffer.new.reserve_isSome
  have hrun := ((Run.single (Board.Step.send (s := .initial (fun _ => 0) fun _ => 0) hsend hm)).snoc
    (.arrive rfl (by decide) (CanBuffer.enterMsg_eq _ _ (le_refl 8) hline))).snoc
    (.receive .new (fun _ => 0) rfl rfl)
  have hreports := lost_messages hrun (show 1 ≤ 2 ^ 54 by decide)
  exact ⟨_, _, hrun, hreports.1.reported.trans (congrArg UInt32.ofNat (hreports.1.gaps_eq rfl))⟩

end

end CANBenchmark

end CyPhOS
