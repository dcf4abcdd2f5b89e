import CyPhOS.CANBenchmark.CANSimpleReceiver
import CyPhOS.Lib.SequenceNumbers

/-! # The messages that the CAN benchmark reports as lost

The talker numbers its messages. As long as they reach the receiver in the order in which they have
been sent, or not at all, `reports` says what the receiver has counted at any time.
-/

namespace CyPhOS

open Transition SequenceNumbers

structure CANSimpleTalkerApplication where
  mMessage : Nat → UInt8
  mCounter : UInt64

namespace CANSimpleTalkerApplication

def TEST_MESSAGE_ID : Nat := 0xAB

/-- The assignments to `mMessage` are those of the receiver. The line is the argument of the event that
is emitted. -/
def periodicSend (t : CANSimpleTalkerApplication) (tx : CanBuffer) :
    CANSimpleTalkerApplication × CanBuffer × Option (Fin 10) :=
  let mMessage := CANSimpleReceiver.encode t.mCounter t.mMessage
  let (line, tx) := tx.enterMsg mMessage 8 TEST_MESSAGE_ID
  (⟨mMessage, t.mCounter + 1⟩, tx, line)

/-- The message in a line. -/
theorem exists_periodicSend (t : CANSimpleTalkerApplication) (tx : CanBuffer) : ∃ tx' line,
    t.periodicSend tx = (⟨CANSimpleReceiver.encode t.mCounter t.mMessage, t.mCounter + 1⟩, tx',
      some line) ∧
    (tx'.mBuffer line).content =
      some (.of (CANSimpleReceiver.encode t.mCounter t.mMessage) 8 TEST_MESSAGE_ID) := by
  obtain ⟨line, hline⟩ := tx.reserve_isSome
  have henter := CanBuffer.enterMsg_eq (CANSimpleReceiver.encode t.mCounter t.mMessage)
    TEST_MESSAGE_ID (le_refl 8) hline
  refine ⟨(tx.enterMsg (CANSimpleReceiver.encode t.mCounter t.mMessage) 8 TEST_MESSAGE_ID).2, line,
    ?_, ?_⟩
  · rw [periodicSend, henter]
  · rw [henter]
    dsimp only
    rw [Function.update_self]
    exact congrArg (fun data => some (CanMessage.mk _ data)) (CanBuffer.data_copyMsg ..)

end CANSimpleTalkerApplication

namespace CANBenchmark

/-- The counter in a message. -/
def value (m : CanMessage) : UInt64 := CANSimpleReceiver.decode fun i => m.data.getD i 0

def number (m : CanMessage) : Nat := (value m).toNat

/-- `transit` is what has been sent and is neither received nor lost. -/
structure State where
  talker : CANSimpleTalkerApplication
  transit : List CanMessage
  receiver : CANSimpleReceiver

inductive Label
  | send
  | lose
  | receive (counter : UInt64)

/-- The buffers are whatever they are: the message is in some line. -/
inductive Step : State → Label → State → Prop
  | send {s : State} {tx tx' : CanBuffer} {talker : CANSimpleTalkerApplication} {line : Fin 10}
    {m : CanMessage} : s.talker.periodicSend tx = (talker, tx', some line) →
    (tx'.mBuffer line).content = some m →
    Step s .send { s with talker, transit := s.transit ++ [m] }
  | lose {s : State} {sooner later : List CanMessage} {m : CanMessage} :
    s.transit = sooner ++ m :: later → Step s .lose { s with transit := sooner ++ later }
  | receive {s : State} {later : List CanMessage} {m : CanMessage} {rx : CanBuffer} {line : Fin 10}
    {answer : CANSimpleReceiver.Answer} (tx : CanBuffer) (recvMessage : Nat → UInt8) :
    s.transit = m :: later → (rx.mBuffer line).content = some m →
    s.receiver.receiveMessage rx tx recvMessage line = answer →
    Step s (.receive answer.receiver.mCounter) { s with
      transit := later
      receiver := answer.receiver }

/-- After `start` of both components. -/
def State.initial (sent received : Nat → UInt8) : State :=
  ⟨⟨sent, 0⟩, [], ⟨received, 0, 0⟩⟩

def Label.isSend : Label → Bool
  | send => true
  | _ => false

def Label.isLose : Label → Bool
  | lose => true
  | _ => false

def Label.received : Label → Option Nat
  | receive counter => some counter.toNat
  | _ => none

def sent (ls : List Label) : Nat := ls.countP Label.isSend

def lost (ls : List Label) : Nat := ls.countP Label.isLose

/-- The counters that have been received, in this order. -/
def received (ls : List Label) : List Nat := ls.filterMap Label.received

section
variable {s s' : State} {ls : List Label} {m : CanMessage}

theorem value_of {message : Nat → UInt8} {id : Nat} :
    value (.of message 8 id) = CANSimpleReceiver.decode message :=
  CANSimpleReceiver.decode_congr fun i hi => by
    rw [CanMessage.of, List.getD_eq_getElem?_getD, List.getElem?_map, List.getElem?_range hi]
    rfl

/-- A message that is sent has the counter. -/
theorem value_periodicSend {t t' : CANSimpleTalkerApplication} {tx tx' : CanBuffer} {line : Fin 10}
    (hcounter : t.mCounter.toNat < 2 ^ 54) (h : t.periodicSend tx = (t', tx', some line))
    (hm : (tx'.mBuffer line).content = some m) :
    t'.mCounter = t.mCounter + 1 ∧ m.data.length = 8 ∧ value m = t.mCounter := by
  obtain ⟨_, _, hsend, hcontent⟩ := t.exists_periodicSend tx
  obtain ⟨rfl, rfl, rfl⟩ := hsend.symm.trans h
  obtain rfl := Option.some_inj.mp (hcontent.symm.trans hm)
  refine ⟨rfl, ?_, ?_⟩
  · rw [CanMessage.of, List.length_map, List.length_range]
  · rw [value_of]
    exact CANSimpleReceiver.decode_encode_iff.mpr (by omega)

theorem receiveMessage_rx {r : CANSimpleReceiver} {rx : CanBuffer} {line : Fin 10} (tx : CanBuffer)
    (recvMessage : Nat → UInt8) (h : (rx.mBuffer line).content = some m) :
    (r.receiveMessage rx tx recvMessage line).rx = rx.freeLine line := by
  obtain ⟨read, hread, -⟩ := CanBuffer.readMsg_used h recvMessage
  rw [CANSimpleReceiver.receiveMessage, hread]

theorem receiveMessage_content {r : CANSimpleReceiver} {rx : CanBuffer} {line : Fin 10}
    (tx : CanBuffer) (recvMessage : Nat → UInt8) (h : (rx.mBuffer line).content = some m)
    (hlength : m.data.length = 8) :
    (r.receiveMessage rx tx recvMessage line).receiver.mCounter = value m ∧
    (r.receiveMessage rx tx recvMessage line).receiver.mLostMessages =
      if value m ≠ r.mCounter + 1 then r.mLostMessages + 1 else r.mLostMessages := by
  obtain ⟨read, hread, rfl⟩ := CanBuffer.readMsg_used h recvMessage
  have height : read.dataLength = 8 := by
    rwa [CanBuffer.MsgRead.content, CanMessage.of, List.length_map, List.length_range] at hlength
  have hvalue : value read.content = CANSimpleReceiver.decode read.message := by
    rw [CanBuffer.MsgRead.content, height, value_of]
  rw [CANSimpleReceiver.receiveMessage, hread, hvalue]
  exact ⟨rfl, rfl⟩

/-! ## What has been counted -/

/-- What has been received, what is on its way and what has been counted, after these labels. -/
structure Inv (ls : List Label) (s : State) : Prop where
  counter : s.talker.mCounter.toNat = sent ls
  length : ∀ m ∈ s.transit, m.data.length = 8
  increasing : (received ls ++ s.transit.map number).Pairwise (· < ·)
  lt : ∀ n ∈ received ls ++ s.transit.map number, n < sent ls
  count : sent ls = (received ls).length + lost ls + s.transit.length
  last : s.receiver.mCounter.toNat = (received ls).getLastD 0
  reported : s.receiver.mLostMessages = UInt32.ofNat (gaps 0 (received ls))

theorem Inv.initial (first second : Nat → UInt8) : Inv [] (.initial first second) :=
  ⟨rfl, nofun, .nil, nofun, rfl, rfl, rfl⟩

theorem sent_concat {l : Label} : sent (ls ++ [l]) = sent ls + if l.isSend then 1 else 0 := by
  rw [sent, List.countP_append, List.countP_singleton]
  rfl

theorem lost_concat {l : Label} : lost (ls ++ [l]) = lost ls + if l.isLose then 1 else 0 := by
  rw [lost, List.countP_append, List.countP_singleton]
  rfl

theorem received_concat {l : Label} : received (ls ++ [l]) = received ls ++ l.received.toList := by
  rw [received, List.filterMap_append]
  cases l <;> rfl

theorem Inv.last_le (hinv : Inv ls s) : (received ls).getLastD 0 ≤ sent ls := by
  have hlast : (received ls).getLastD 0 ∈ 0 :: received ls := List.getLastD_mem_cons
  rcases List.mem_cons.mp hlast with hzero | hmem
  · rw [hzero]
    exact Nat.zero_le _
  · exact (hinv.lt _ (List.mem_append_left _ hmem)).le

theorem Inv.send {talker : CANSimpleTalkerApplication} (hinv : Inv ls s)
    (hlt : sent ls < 2 ^ 54) (hcounter : talker.mCounter = s.talker.mCounter + 1)
    (hlength : m.data.length = 8) (hvalue : value m = s.talker.mCounter) :
    Inv (ls ++ [.send]) { s with talker, transit := s.transit ++ [m] } := by
  have hsent : sent (ls ++ [.send]) = sent ls + 1 := sent_concat
  have hlost : lost (ls ++ [.send]) = lost ls := lost_concat
  have hreceived : received (ls ++ [.send]) = received ls :=
    received_concat.trans (List.append_nil _)
  have hnumbers : received ls ++ (s.transit ++ [m]).map number =
      (received ls ++ s.transit.map number) ++ [sent ls] := by
    rw [List.map_append, List.append_assoc, ← hinv.counter, ← hvalue]
    rfl
  constructor
  case counter =>
    have hold := hinv.counter
    rw [hcounter, hsent, UInt64.toNat_add, hold, UInt64.toNat_one]
    exact Nat.mod_eq_of_lt (by omega)
  case length =>
    intro m' hm'
    rcases List.mem_append.mp hm' with hold | hnew
    · exact hinv.length m' hold
    · rwa [List.mem_singleton.mp hnew]
  case increasing =>
    rw [hreceived, hnumbers]
    refine List.pairwise_append.mpr ⟨hinv.increasing, List.pairwise_singleton .., ?_⟩
    intro n hn n' hn'
    rw [List.mem_singleton.mp hn']
    exact hinv.lt n hn
  case lt =>
    rw [hreceived, hnumbers, hsent]
    intro n hn
    rcases List.mem_append.mp hn with hold | hnew
    · exact Nat.lt_succ_of_lt (hinv.lt n hold)
    · exact Nat.lt_succ_of_le (List.mem_singleton.mp hnew).le
  case count =>
    have hold := hinv.count
    rw [hsent, hlost, hreceived, List.length_append, List.length_singleton]
    omega
  case last =>
    rw [hreceived]
    exact hinv.last
  case reported =>
    rw [hreceived]
    exact hinv.reported

theorem Inv.lose {sooner later : List CanMessage} (hinv : Inv ls s)
    (htransit : s.transit = sooner ++ m :: later) :
    Inv (ls ++ [.lose]) { s with transit := sooner ++ later } := by
  have hsent : sent (ls ++ [.lose]) = sent ls := sent_concat
  have hlost : lost (ls ++ [.lose]) = lost ls + 1 := lost_concat
  have hreceived : received (ls ++ [.lose]) = received ls :=
    received_concat.trans (List.append_nil _)
  have hleft : (sooner ++ later).Sublist s.transit :=
    htransit ▸ (List.Sublist.refl sooner).append (List.sublist_cons_self m later)
  have hnumbers : (received ls ++ (sooner ++ later).map number).Sublist
      (received ls ++ s.transit.map number) :=
    (List.Sublist.refl _).append (hleft.map _)
  constructor
  case counter => exact hinv.counter.trans hsent.symm
  case length => exact fun m hm => hinv.length m (hleft.subset hm)
  case increasing =>
    rw [hreceived]
    exact hinv.increasing.sublist hnumbers
  case lt =>
    rw [hreceived, hsent]
    exact fun n hn => hinv.lt n (hnumbers.subset hn)
  case count =>
    have hold := hinv.count
    rw [htransit, List.length_append, List.length_cons] at hold
    rw [hsent, hlost, hreceived, List.length_append]
    omega
  case last =>
    rw [hreceived]
    exact hinv.last
  case reported =>
    rw [hreceived]
    exact hinv.reported

theorem Inv.receive {later : List CanMessage} {r : CANSimpleReceiver} (hinv : Inv ls s)
    (hlt : sent ls ≤ 2 ^ 54) (htransit : s.transit = m :: later) (hcounter : r.mCounter = value m)
    (hlost' : r.mLostMessages = if value m ≠ s.receiver.mCounter + 1 then
      s.receiver.mLostMessages + 1 else s.receiver.mLostMessages) :
    Inv (ls ++ [.receive (value m)]) { s with transit := later, receiver := r } := by
  have hsent : sent (ls ++ [.receive (value m)]) = sent ls := sent_concat
  have hlost : lost (ls ++ [.receive (value m)]) = lost ls := lost_concat
  have hreceived : received (ls ++ [.receive (value m)]) = received ls ++ [(value m).toNat] :=
    received_concat
  have hnumbers : received ls ++ [(value m).toNat] ++ later.map number =
      received ls ++ s.transit.map number := by
    rw [htransit, List.map_cons, List.append_assoc]
    rfl
  have hnext : value m = s.receiver.mCounter + 1 ↔
      (value m).toNat = (received ls).getLastD 0 + 1 := by
    have hlast := hinv.last_le
    rw [← UInt64.toNat_inj, UInt64.toNat_add, hinv.last, UInt64.toNat_one,
      Nat.mod_eq_of_lt (by omega)]
  constructor
  case counter => exact hinv.counter.trans hsent.symm
  case length => exact fun m' hm' => hinv.length m' (htransit ▸ List.mem_cons_of_mem m hm')
  case increasing =>
    rw [hreceived, hnumbers]
    exact hinv.increasing
  case lt =>
    rw [hreceived, hnumbers, hsent]
    exact hinv.lt
  case count =>
    have hold := hinv.count
    rw [htransit, List.length_cons] at hold
    rw [hsent, hlost, hreceived, List.length_append, List.length_singleton]
    dsimp only
    omega
  case last => rw [hreceived, List.getLastD_concat, hcounter]
  case reported =>
    rw [hreceived, gaps_concat, hlost', hinv.reported]
    by_cases h : value m = s.receiver.mCounter + 1
    · rw [if_neg (not_not_intro h), if_pos (hnext.mp h), Nat.add_zero]
    · rw [if_pos h, if_neg (hnext.not.mp h), UInt32.ofNat_add]
      rfl

theorem Inv.step {l : Label} (hinv : Inv ls s) (hstep : Step s l s')
    (hlt : sent (ls ++ [l]) ≤ 2 ^ 54) : Inv (ls ++ [l]) s' := by
  rw [sent_concat] at hlt
  cases hstep with
  | send hsend hm =>
    obtain ⟨hcounter, hlength, hvalue⟩ := value_periodicSend (hinv.counter.trans_lt hlt) hsend hm
    exact hinv.send hlt hcounter hlength hvalue
  | lose htransit => exact hinv.lose htransit
  | receive tx recvMessage htransit hm hanswer =>
    have hlength := hinv.length _ (htransit ▸ List.mem_cons_self)
    obtain ⟨hcounter, hlost⟩ := receiveMessage_content tx recvMessage hm hlength
    rw [hanswer] at hcounter hlost
    rw [hcounter]
    exact hinv.receive hlt htransit hcounter hlost

theorem Inv.run {first second : Nat → UInt8} (h : Run Step (.initial first second) ls s)
    (hlt : sent ls ≤ 2 ^ 54) : Inv ls s := by
  induction h with
  | nil => exact .initial first second
  | snoc _ hstep ih =>
    refine (ih ?_).step hstep hlt
    rw [sent_concat] at hlt
    exact (Nat.le_add_right _ _).trans hlt

/-- What is on its way has been sent after what has been received. -/
theorem Inv.last_add_transit_le (hinv : Inv ls s) (hreceived : received ls ≠ []) :
    (received ls).getLastD 0 + 1 + s.transit.length ≤ sent ls := by
  obtain ⟨-, htransit, hafter⟩ := List.pairwise_append.mp hinv.increasing
  have hlast : (received ls).getLastD 0 ∈ received ls := by
    rw [List.getLastD_eq_getLast?, List.getLast?_eq_some_getLast hreceived]
    exact List.getLast_mem hreceived
  have hlt := hinv.lt _ (List.mem_append_left _ hlast)
  have hlength := length_le htransit fun n hn =>
    ⟨hafter _ hlast n hn, hinv.lt n (List.mem_append_right _ hn)⟩
  rw [List.length_map] at hlength
  omega

/-- The gaps are no more than what is lost, apart from the one before the first message. -/
theorem Inv.gaps_le_lost (hinv : Inv ls s) : gaps 0 (received ls) ≤ lost ls + 1 := by
  by_cases hreceived : received ls = []
  · rw [hreceived]
    exact Nat.zero_le _
  · have hlast := hinv.last_add_transit_le hreceived
    have hgaps := gaps_le (List.pairwise_append.mp hinv.increasing).1 fun n _ => Nat.zero_le n
    have hcount := hinv.count
    omega

/-- Where nothing is lost, the first message has the counter 0. -/
theorem Inv.one_le_gaps (hinv : Inv ls s) (hlost : lost ls = 0) (hreceived : received ls ≠ []) :
    1 ≤ gaps 0 (received ls) := by
  obtain ⟨n, ns, hns⟩ := List.exists_cons_of_ne_nil hreceived
  have hfirst : n ≠ 1 := by
    rintro rfl
    have hbefore : ∀ n ∈ received ls ++ s.transit.map number,
        1 ≤ n ∧ n < sent ls := by
      intro n hn
      refine ⟨?_, hinv.lt n hn⟩
      have hincreasing := hinv.increasing
      rw [hns, List.cons_append] at hn hincreasing
      rcases List.mem_cons.mp hn with rfl | hrest
      · exact le_refl 1
      · exact ((List.pairwise_cons.mp hincreasing).1 n hrest).le
    have hlength := length_le hinv.increasing hbefore
    have hsent := (hbefore 1 (List.mem_append_left _ (hns ▸ List.mem_cons_self))).2
    rw [List.length_append, List.length_map] at hlength
    have hcount := hinv.count
    omega
  rw [hns, gaps, if_neg hfirst]
  exact Nat.le_add_right 1 _

/-- The gaps in the counters that have been received are counted. The first counter is 0, but the
receiver waits for 1: one message is reported as lost before any is. Apart from this no more are
reported than are lost. -/
structure Reports (ls : List Label) (r : CANSimpleReceiver) : Prop where
  reported : r.mLostMessages = UInt32.ofNat (gaps 0 (received ls))
  increasing : (received ls).Pairwise (· < ·)
  lt : ∀ n ∈ received ls, n < sent ls
  gaps_le : gaps 0 (received ls) ≤ lost ls + 1
  gaps_eq : lost ls = 0 → gaps 0 (received ls) = if received ls = [] then 0 else 1

theorem reports {first second : Nat → UInt8} (h : Run Step (.initial first second) ls s)
    (hlt : sent ls ≤ 2 ^ 54) : Reports ls s.receiver := by
  have hinv := Inv.run h hlt
  refine ⟨hinv.reported, (List.pairwise_append.mp hinv.increasing).1,
    fun n hn => hinv.lt n (List.mem_append_left _ hn), hinv.gaps_le_lost, fun hlost => ?_⟩
  split
  · next hreceived =>
    rw [hreceived]
    rfl
  · next hreceived =>
    have hle := hinv.gaps_le_lost
    rw [hlost] at hle
    exact le_antisymm hle (hinv.one_le_gaps hlost hreceived)

end

end CANBenchmark

end CyPhOS
