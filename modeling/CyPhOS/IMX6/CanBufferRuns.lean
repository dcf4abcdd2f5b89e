import CyPhOS.IMX6.CanBuffer
import CyPhOS.Lib.Run

/-! # What the lines of a CAN buffer hold

A run is a sequence of calls from the empty buffer on. A message is `Pending` in a line if it was
entered there and nothing that has been called since took it out again. `content_iff_pending` says
that the lines in use are those with a pending message, so `readMsg` gives each message to one
reader (`ReadLaw`). `EnterLaw` is what `enterMsg` is meant to do; it keeps to it as long as there is
a free line, but in a full buffer it takes the line that was written last.
-/

namespace CyPhOS

open Transition

/-- A message as it is handed over. -/
structure CanMessage where
  id : Nat
  data : List UInt8

def CanMessage.of (message : Nat → UInt8) (dataLength messageID : Nat) : CanMessage :=
  ⟨messageID, (List.range dataLength).map message⟩

def CanBufferMsg.content (line : CanBufferMsg) : Option CanMessage :=
  if line.isUsed then some ⟨line.id, line.data⟩ else none

namespace CanBuffer

def MsgRead.content (r : MsgRead) : CanMessage := .of r.message r.dataLength r.messageID

/-! ## Runs -/

/-- A call with what it returned. -/
inductive Call
  | enterMsg (message : Nat → UInt8) (dataLength messageID : Nat) (line : Option (Fin 10))
  | readMsg (lineNum : Nat) (result : Option MsgRead)
  | freeLine (lineNum : Fin 10)
  | removeMsgWithID (id count : Nat)

inductive Step : CanBuffer → Call → CanBuffer → Prop
  | enterMsg {b b' : CanBuffer} {message : Nat → UInt8} {dataLength messageID : Nat}
    {line : Option (Fin 10)} : b.enterMsg message dataLength messageID = (line, b') →
    Step b (.enterMsg message dataLength messageID line) b'
  | readMsg {b b' : CanBuffer} {lineNum : Nat} {message : Nat → UInt8} {result : Option MsgRead} :
    b.readMsg lineNum message = (result, b') → Step b (.readMsg lineNum result) b'
  | freeLine {b : CanBuffer} {lineNum : Fin 10} : Step b (.freeLine lineNum) (b.freeLine lineNum)
  | removeMsgWithID {b b' : CanBuffer} {id count : Nat} :
    b.removeMsgWithID id = (count, b') → Step b (.removeMsgWithID id count) b'

namespace Call

/-- The call has entered the message in the line. -/
def Enters (n : Fin 10) (m : CanMessage) : Call → Prop
  | enterMsg message dataLength messageID line =>
    line = some n ∧ m = .of message dataLength messageID
  | _ => False

/-- The call has put another message in the line or freed it. -/
def Ends (n : Fin 10) (id : Nat) : Call → Prop
  | enterMsg _ _ _ line => line = some n
  | readMsg lineNum result => lineNum = n.val ∧ result.isSome
  | freeLine lineNum => lineNum = n
  | removeMsgWithID id' _ => id' = id

end Call

/-- The message is the last one that was entered in the line, which has not been read or freed
since. -/
def Pending (calls : List Call) (n : Fin 10) (m : CanMessage) : Prop :=
  ∃ before call after, calls = before ++ call :: after ∧ call.Enters n m ∧
    ∀ c ∈ after, ¬c.Ends n m.id

/-! ## The promises -/

/-- A short message gets a free line if there is one, and otherwise nothing changes. -/
def EnterLaw (b : CanBuffer) (message : Nat → UInt8) (dataLength messageID : Nat) : Prop :=
  (dataLength ≤ 8 → (∃ n, (b.mBuffer n).isUsed = false) →
    ∃ n b', b.enterMsg message dataLength messageID = (some n, b') ∧
      (b.mBuffer n).isUsed = false ∧ (b'.mBuffer n).isUsed = true ∧
      ∀ i, i ≠ n → b'.mBuffer i = b.mBuffer i) ∧
  (8 < dataLength ∨ (∀ n, (b.mBuffer n).isUsed = true) →
    b.enterMsg message dataLength messageID = (none, b))

/-- A reader gets the pending message of its line, and none if there is none. -/
structure ReadLaw (calls : List Call) (b : CanBuffer) : Prop where
  pending {n : Fin 10} {m : CanMessage} : Pending calls n m → ∀ message,
    ∃ r, b.readMsg n message = (some r, b.freeLine n) ∧ r.content = m
  empty {n : Fin 10} : (∀ m, ¬Pending calls n m) → ∀ message, b.readMsg n message = (none, b)
  noLine {n : Nat} : 10 ≤ n → ∀ message, b.readMsg n message = (none, b)

/-! ## Pending messages -/

variable {b b' : CanBuffer} {n : Fin 10} {m : CanMessage} {call : Call} {calls : List Call}

theorem not_pending_nil : ¬Pending [] n m := by
  rintro ⟨before, call, after, h, -⟩
  simp at h

theorem pending_snoc_iff : Pending (calls ++ [call]) n m ↔
    call.Enters n m ∨ (Pending calls n m ∧ ¬call.Ends n m.id) := by
  constructor
  · rintro ⟨before, c, after, heq, henters, hends⟩
    rcases List.eq_nil_or_concat after with rfl | ⟨after', d, rfl⟩
    · obtain ⟨-, hc⟩ := List.append_inj' heq rfl
      cases hc
      exact .inl henters
    · rw [List.concat_eq_append, ← List.cons_append, ← List.append_assoc] at heq
      obtain ⟨rfl, hd⟩ := List.append_inj' heq rfl
      cases hd
      exact .inr ⟨⟨before, c, after', rfl, henters, fun c hc => hends c (by simp [hc])⟩,
        hends _ (by simp)⟩
  · rintro (henters | ⟨⟨before, c, after, rfl, henters, hends⟩, hcall⟩)
    · exact ⟨calls, call, [], rfl, henters, nofun⟩
    · refine ⟨before, c, after ++ [call], by simp, henters, fun d hd => ?_⟩
      rcases List.mem_append.mp hd with hd | hd
      · exact hends d hd
      · rwa [List.mem_singleton.mp hd]

/-! ## What a call does to a line -/

theorem content_eq_some_iff {line : CanBufferMsg} :
    line.content = some m ↔ line.isUsed = true ∧ m = ⟨line.id, line.data⟩ := by
  rw [CanBufferMsg.content]
  split
  · next hused => simp [hused, eq_comm]
  · next hused => simp [hused]

theorem content_freeLine (b : CanBuffer) (lineNum n : Fin 10) :
    ((b.freeLine lineNum).mBuffer n).content =
      if lineNum = n then none else (b.mBuffer n).content := by
  by_cases h : lineNum = n
  · subst h
    simp [freeLine, CanBufferMsg.content]
  · simp [freeLine, h, Function.update_of_ne (Ne.symm h)]

theorem content_enterMsg {message : Nat → UInt8} {dataLength messageID : Nat}
    {line : Option (Fin 10)} (h : b.enterMsg message dataLength messageID = (line, b')) :
    (b'.mBuffer n).content =
      if line = some n then some (.of message dataLength messageID)
      else (b.mBuffer n).content := by
  rcases Nat.lt_or_ge 8 dataLength with hlong | hshort
  · rw [enterMsg_long message messageID hlong] at h
    cases h
    rfl
  · obtain ⟨lineNum, hreserve⟩ := b.reserve_isSome
    rw [enterMsg_eq message messageID hshort hreserve] at h
    cases h
    by_cases hn : lineNum = n
    · subst hn
      simp only [Function.update_self, if_pos]
      exact congrArg (fun data => some (CanMessage.mk messageID data)) (data_copyMsg ..)
    · rw [if_neg (by simpa using hn)]
      exact congrArg CanBufferMsg.content (Function.update_of_ne (Ne.symm hn) ..)

theorem readMsg_eq (b : CanBuffer) (n : Fin 10) (message : Nat → UInt8) :
    b.readMsg n message = if (b.mBuffer n).isUsed then
      (some ⟨(b.mBuffer n).id, (b.mBuffer n).dataLength,
        copyMsg (b.mBuffer n).msg message (b.mBuffer n).dataLength⟩, b.freeLine n)
      else (none, b) := by
  rw [readMsg, dif_pos n.isLt]

theorem readMsg_used (h : (b.mBuffer n).content = some m) (message : Nat → UInt8) :
    ∃ r, b.readMsg n message = (some r, b.freeLine n) ∧ r.content = m := by
  obtain ⟨hused, rfl⟩ := content_eq_some_iff.mp h
  rw [readMsg_eq, if_pos hused]
  exact ⟨_, rfl, congrArg (CanMessage.mk _) (data_copyMsg ..)⟩

theorem readMsg_unused (h : (b.mBuffer n).content = none) (message : Nat → UInt8) :
    b.readMsg n message = (none, b) := by
  rw [readMsg_eq, if_neg]
  intro hused
  rw [content_eq_some_iff.mpr ⟨hused, rfl⟩] at h
  cases h

theorem readMsg_noLine {lineNum : Nat} (h : 10 ≤ lineNum) (message : Nat → UInt8) :
    b.readMsg lineNum message = (none, b) := by
  rw [readMsg, dif_neg (by omega)]

theorem content_readMsg {lineNum : Nat} {message : Nat → UInt8} {result : Option MsgRead}
    (h : b.readMsg lineNum message = (result, b')) :
    (b'.mBuffer n).content =
      if lineNum = n.val ∧ result.isSome then none else (b.mBuffer n).content := by
  rcases Nat.lt_or_ge lineNum 10 with hlt | hge
  · cases hline : (b.mBuffer ⟨lineNum, hlt⟩).content with
    | none =>
      rw [show lineNum = (⟨lineNum, hlt⟩ : Fin 10).val from rfl, readMsg_unused hline] at h
      cases h
      simp
    | some m =>
      obtain ⟨r, hr, -⟩ := readMsg_used hline message
      rw [show lineNum = (⟨lineNum, hlt⟩ : Fin 10).val from rfl, hr] at h
      cases h
      rw [content_freeLine]
      simp [Fin.ext_iff]
  · rw [readMsg_noLine hge] at h
    cases h
    simp

theorem content_removeFrom {id : Nat} {lines : List (Fin 10)} {counter : Nat} :
    ((removeFrom id lines b counter).2.mBuffer n).content = some m ↔
      (b.mBuffer n).content = some m ∧ ¬(n ∈ lines ∧ m.id = id) := by
  induction lines generalizing b counter with
  | nil => simp [removeFrom]
  | cons i lines ih =>
    rw [removeFrom, List.mem_cons]
    by_cases hin : n = i
    · subst hin
      split
      · next hline =>
        rw [ih, content_freeLine, if_pos rfl, content_eq_some_iff]
        constructor
        · rintro ⟨hnone, -⟩
          cases hnone
        · rintro ⟨⟨-, rfl⟩, hid⟩
          exact absurd ⟨.inl rfl, hline.2⟩ hid
      · next hline =>
        rw [ih, content_eq_some_iff]
        refine and_congr_right ?_
        rintro ⟨hused, rfl⟩
        have hid : (b.mBuffer n).id ≠ id := fun hid => hline ⟨hused, hid⟩
        simp [hid]
    · split
      · rw [ih, content_freeLine, if_neg (Ne.symm hin)]
        simp [hin]
      · rw [ih]
        simp [hin]

theorem content_removeMsgWithID {id count : Nat} (h : b.removeMsgWithID id = (count, b')) :
    (b'.mBuffer n).content = some m ↔ (b.mBuffer n).content = some m ∧ m.id ≠ id := by
  have hremove : ((removeFrom id (List.finRange 10) b 0).2.mBuffer n).content = some m ↔
      (b.mBuffer n).content = some m ∧ ¬(n ∈ List.finRange 10 ∧ m.id = id) :=
    content_removeFrom
  rw [show removeFrom id (List.finRange 10) b 0 = (count, b') from h] at hremove
  simpa using hremove

/-- A line holds a message after a call if the call has entered it, or if it was there before and
the call has not taken it out. -/
theorem Step.content_iff (h : Step b call b') : (b'.mBuffer n).content = some m ↔
    call.Enters n m ∨ ((b.mBuffer n).content = some m ∧ ¬call.Ends n m.id) := by
  cases h with
  | enterMsg h =>
    rw [content_enterMsg h]
    split
    · next hline => simp [Call.Enters, Call.Ends, hline, eq_comm]
    · next hline => simp [Call.Enters, Call.Ends, hline]
  | readMsg h =>
    rw [content_readMsg h]
    split
    · next hread => simp [Call.Enters, Call.Ends, hread]
    · next hread => simp [Call.Enters, Call.Ends, hread]
  | freeLine =>
    rw [content_freeLine]
    split
    · next hline => simp [Call.Enters, Call.Ends, hline]
    · next hline => simp [Call.Enters, Call.Ends, hline]
  | removeMsgWithID h =>
    rw [content_removeMsgWithID h]
    simp [Call.Enters, Call.Ends, eq_comm]

theorem content_iff_pending (h : Run Step .new calls b) :
    (b.mBuffer n).content = some m ↔ Pending calls n m := by
  induction h generalizing n m with
  | nil => simp [new, CanBufferMsg.content, not_pending_nil]
  | snoc _ hstep ih => rw [hstep.content_iff, pending_snoc_iff, ih]

theorem ReadLaw.run (h : Run Step .new calls b) : ReadLaw calls b where
  pending hpending := readMsg_used ((content_iff_pending h).mpr hpending)
  empty hnone := readMsg_unused (Option.eq_none_iff_forall_ne_some.mpr fun m hm =>
    hnone m ((content_iff_pending h).mp hm))
  noLine := readMsg_noLine

/-! ## Entering a message -/

theorem enterLaw_iff (b : CanBuffer) (message : Nat → UInt8) (dataLength messageID : Nat) :
    b.EnterLaw message dataLength messageID ↔
      8 < dataLength ∨ ∃ n, (b.mBuffer n).isUsed = false := by
  constructor
  · rintro ⟨-, hfull⟩
    rw [or_iff_not_imp_left]
    intro hshort
    by_contra hnone
    have hused : ∀ n, (b.mBuffer n).isUsed = true := fun n => by
      simpa using not_exists.mp hnone n
    obtain ⟨n, hreserve⟩ := b.reserve_isSome
    have henter := hfull (.inr hused)
    rw [enterMsg_eq message messageID (Nat.not_lt.mp hshort) hreserve] at henter
    cases congrArg Prod.fst henter
  · intro h
    refine ⟨fun hshort hfree => ?_, fun hfull => ?_⟩
    · obtain ⟨n, line, henter, hn, hline, -⟩ := enterMsg_free message messageID hfree hshort
      refine ⟨n, _, henter, hn, ?_, fun i hi => Function.update_of_ne hi ..⟩
      exact (congrArg CanBufferMsg.isUsed (Function.update_self ..)).trans hline
    · rcases h with hlong | ⟨n, hn⟩
      · exact enterMsg_long message messageID hlong
      · rcases hfull with hlong | hused
        · exact enterMsg_long message messageID hlong
        · rw [hused n] at hn
          cases hn

theorem run_enterMsg (id : Nat) (h : Run Step .new calls b) :
    Run Step .new (calls ++ [.enterMsg (fun _ => 0) 1 id (b.enterMsg (fun _ => 0) 1 id).1])
      (b.enterMsg (fun _ => 0) 1 id).2 :=
  h.snoc (.enterMsg rfl)

/-- After every run readers get what was entered, and `enterMsg` keeps to its promise if and only
if the message is too long or some line is free. -/
theorem canBuffer_promises_iff (h : Run Step .new calls b) : ReadLaw calls b ∧
    ∀ message dataLength messageID, b.EnterLaw message dataLength messageID ↔
      8 < dataLength ∨ ∃ n, (b.mBuffer n).isUsed = false :=
  ⟨.run h, b.enterLaw_iff⟩

/-- The first message is entered in line 1 and can be read there. -/
theorem canBuffer_promises_oneMessage : ∃ calls b, Run Step .new calls b ∧
    Pending calls 1 ⟨7, [0]⟩ ∧ ReadLaw calls b ∧
    ∀ message dataLength messageID, b.EnterLaw message dataLength messageID ↔
      8 < dataLength ∨ ∃ n, (b.mBuffer n).isUsed = false := by
  have h := run_enterMsg 7 .nil
  exact ⟨_, _, h, ⟨[], _, [], rfl, ⟨rfl, rfl⟩, nofun⟩, canBuffer_promises_iff h⟩

/-- The eleventh message takes the line of the tenth. -/
theorem enterMsg_overwrites : ∃ calls b, Run Step .new calls b ∧
    Pending calls 0 ⟨10, [0]⟩ ∧ (∀ n, (b.mBuffer n).isUsed = true) ∧
    (b.enterMsg (fun _ => 0) 1 11).1 = some 0 ∧ ¬b.EnterLaw (fun _ => 0) 1 11 := by
  have h := run_enterMsg 3 <| run_enterMsg 2 <| run_enterMsg 1 .nil
  have h := run_enterMsg 6 <| run_enterMsg 5 <| run_enterMsg 4 h
  have h := run_enterMsg 10 <| run_enterMsg 9 <| run_enterMsg 8 <| run_enterMsg 7 h
  refine ⟨_, _, h, ⟨_, _, [], rfl, ⟨by decide, rfl⟩, nofun⟩, by decide, by decide, ?_⟩
  rw [enterLaw_iff]
  decide

end CanBuffer

end CyPhOS
