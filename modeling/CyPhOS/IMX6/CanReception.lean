import CyPhOS.IMX6.MCP2515SPI
import Mathlib.Data.List.Perm.Subperm

/-! # No frame is lost or mixed

A frame that is stored in a receive buffer while the interrupt trigger still has to clear the flag of
that buffer (`ClearPending`) is discarded or mixed with the one before. Without such arrivals every
frame is delivered to the events that are registered for it. `Books` is the account that shows it:
the deliveries that have been made, those that are owed for the frame at hand and those for the
frames that wait in the buffers are together the deliveries for the frames received.
-/

namespace CyPhOS

open DeviceProgram Transition

/-- A frame with a non-zero identifier and 1 to 8 bytes of data. -/
structure CanFrame.Proper (f : CanFrame) : Prop where
  id : f.id ≠ 0
  pos : 1 ≤ f.dataLength.val
  le : f.dataLength.val ≤ 8

def CanFrame.payload (f : CanFrame) : List UInt8 := (List.range f.dataLength.val).map f.data

namespace MCP2515SPI

variable {E α : Type}

/-! ## The promise -/

/-- What is to be delivered for a frame: the event, the identifier and the data. -/
def deliveriesOf (events : List (CANEvent E)) (f : CanFrame) : List (E × Nat × List UInt8) :=
  (events.filter (·.messageID = f.id.val)).map fun e => (e.event, f.id.val, f.payload)

def Delivery.content (d : Delivery E) : E × Nat × List UInt8 := (d.event, d.id, d.data)

/-- What is to be delivered for the frames in the buffers whose flag is set. -/
def waiting (events : List (CANEvent E)) (counted : Bool → Bool) (s : State E) :
    List (E × Nat × List UInt8) :=
  [false, true].flatMap fun b =>
    if counted b && (s.rx b).flag then deliveriesOf events (s.rx b).frame else []

/-- The line of a delivery holds the message until it is freed. -/
def Kept (s : State E) (d : Delivery E) : Prop :=
  ∃ n, d.line = some n ∧ (s.lines.mBuffer n).isUsed = true ∧ (s.lines.mBuffer n).id = d.id ∧
    (s.lines.mBuffer n).data = d.data

/-- The deliveries that have been made are some of those for the frames received, none of them
twice; those that have not been made are for frames that are still in the buffers. No frame is
discarded unread. -/
structure Sound (events : List (CANEvent E)) (s : State E) : Prop where
  deliveries : ∃ due : List (E × Nat × List UInt8),
    due.Subperm (deliveriesOf events (s.rx false).frame ++ deliveriesOf events (s.rx true).frame) ∧
      (s.triggered.map Delivery.content ++ due).Perm (s.received.flatMap (deliveriesOf events))
  lost : s.lost = []
  unread : ∀ d ∈ s.unread, Kept s d

/-- Moreover, when the trigger has returned all deliveries have been made but those for the frames
whose flag is set again. -/
structure Faithful (events : List (CANEvent E)) (s : State E) (t : Option (Driver E Bool)) :
    Prop extends Sound events s where
  complete : t = none → (s.triggered.map Delivery.content ++ waiting events (fun _ => true) s).Perm
    (s.received.flatMap (deliveriesOf events))

/-! ## The condition -/

/-- The program clears the flag of the buffer before it asks for the flags again. -/
def ClearPending (buffer : Bool) : Driver E α → Prop
  | .ret _ => False
  | .access .rxStatus _ => False
  | .access (.readRegister _) next => ∀ r, ClearPending buffer (next r)
  | .access (.bitModify address mask _) next =>
    address = canintf ∧ mask &&& flagMask buffer ≠ 0 ∨ ClearPending buffer (next ())
  | .access (.enterMsg ..) next => ∀ line, ClearPending buffer (next line)
  | .access (.eventTriggered ..) next => ClearPending buffer (next ())

/-- What is taken for granted: the frames that arrive are proper, and there is a free line when one
is needed. -/
def Provided (s : State E) : Label (Op E) Event → Prop
  | .event (.arrive _ f) => f.Proper
  | .access (.enterMsg ..) => ∃ n, (s.lines.mBuffer n).isUsed = false
  | _ => True

/-- No frame is stored in a buffer whose flag the trigger is about to clear. -/
def Undisturbed (p : Driver E α) : Label (Op E) Event → Prop
  | .event (.arrive buffer _) => ¬ ClearPending buffer p
  | _ => True

def guard : Guard (State E) (Op E) Op.Res Event α := fun s p l => Provided s l ∧ Undisturbed p l

/-! ## The account -/

structure Books (events : List (CANEvent E)) (owed : List (E × Nat × List UInt8))
    (counted : Bool → Bool) (s : State E) : Prop where
  perm : (s.triggered.map Delivery.content ++ owed ++ waiting events counted s).Perm
    (s.received.flatMap (deliveriesOf events))
  lost : s.lost = []
  proper : ∀ b, (s.rx b).flag = true → (s.rx b).frame.Proper
  unread : ∀ d ∈ s.unread, Kept s d

variable {events rest : List (CANEvent E)} {owed : List (E × Nat × List UInt8)}
  {counted : Bool → Bool} {s s' : State E} {b b' : Bool} {f : CanFrame} {p : Driver E Bool}

/-- The part of one buffer among what waits. -/
theorem waiting_perm (events : List (CANEvent E)) (counted : Bool → Bool) (s : State E)
    (b : Bool) : (waiting events counted s).Perm
      ((if counted b && (s.rx b).flag then deliveriesOf events (s.rx b).frame else []) ++
        waiting events (fun c => counted c && c != b) s) := by
  cases b with
  | false => simp [waiting]
  | true => simpa [waiting] using List.perm_append_comm

theorem waiting_congr (h : ∀ b, counted b = true → s'.rx b = s.rx b) :
    waiting events counted s' = waiting events counted s := by
  refine List.flatMap_congr fun b _ => ?_
  by_cases hb : counted b = true
  · rw [h b hb]
  · simp [hb]

theorem part_sublist {c : Prop} [Decidable c] (l : List (E × Nat × List UInt8)) :
    (if c then l else []).Sublist l := by
  split
  · exact .refl _
  · exact List.nil_sublist _

theorem waiting_sublist (counted : Bool → Bool) (s : State E) :
    (waiting events counted s).Sublist
      (deliveriesOf events (s.rx false).frame ++ deliveriesOf events (s.rx true).frame) := by
  have hboth := (part_sublist (c := counted false && (s.rx false).flag)
    (deliveriesOf events (s.rx false).frame)).append (part_sublist
      (c := counted true && (s.rx true).flag) (deliveriesOf events (s.rx true).frame))
  simpa [waiting] using hboth

theorem Books.sound (h : Books events owed counted s)
    (howed : (owed ++ waiting events counted s).Subperm
      (deliveriesOf events (s.rx false).frame ++ deliveriesOf events (s.rx true).frame)) :
    Sound events s := by
  refine ⟨⟨_, howed, ?_⟩, h.lost, h.unread⟩
  rw [← List.append_assoc]
  exact h.perm

/-- Between two frames. -/
theorem Books.sound_all (h : Books events [] counted s) : Sound events s :=
  h.sound (waiting_sublist counted s).subperm

/-- A frame that arrives in a buffer that is accounted for. -/
theorem Books.arrive (h : Books events owed counted s) (hb : counted b = true)
    (hflag : (s.rx b).flag = false) (hf : f.Proper) :
    Books events owed counted
      { s.setRx b ⟨f, true, false⟩ with received := s.received ++ [f] } := by
  have hself : ((s.setRx b ⟨f, true, false⟩).rx b) = ⟨f, true, false⟩ := Function.update_self ..
  have hother : ∀ c ≠ b, ((s.setRx b ⟨f, true, false⟩).rx c) = s.rx c := fun c hc =>
    Function.update_of_ne hc ..
  refine ⟨?_, h.lost, fun c hc => ?_, h.unread⟩
  · have hbefore := waiting_perm events counted s b
    have hafter := waiting_perm events counted
      { s.setRx b ⟨f, true, false⟩ with received := s.received ++ [f] } b
    have hrest : waiting events (fun c => counted c && c != b)
        { s.setRx b ⟨f, true, false⟩ with received := s.received ++ [f] } =
          waiting events (fun c => counted c && c != b) s :=
      waiting_congr fun c hc => hother c (by simp at hc; exact hc.2)
    rw [hflag, Bool.and_false, if_neg Bool.false_ne_true, List.nil_append] at hbefore
    dsimp only at hafter
    rw [hrest, hself, hb, Bool.true_and, if_pos rfl] at hafter
    have hwaiting := hafter.trans (List.perm_append_comm.trans (hbefore.symm.append_right _))
    rw [List.flatMap_append, List.flatMap_singleton]
    have hall := (hwaiting.append_left (s.triggered.map Delivery.content ++ owed))
    rw [← List.append_assoc] at hall
    exact hall.trans (h.perm.append_right _)
  · rcases eq_or_ne c b with rfl | hne
    · dsimp only
      rw [hself]
      exact hf
    · dsimp only at hc ⊢
      rw [hother c hne] at hc ⊢
      exact h.proper c hc

theorem Kept.freeLine {d : Delivery E} {n : Fin 10} (h : Kept s d) (hn : d.line ≠ some n) :
    Kept { s with lines := s.lines.freeLine n, unread := s.unread.filter (·.line ≠ some n) } d := by
  obtain ⟨k, hk, hline⟩ := h
  have hne : k ≠ n := fun heq => hn (heq ▸ hk)
  refine ⟨k, hk, ?_⟩
  dsimp only [CanBuffer.freeLine]
  rwa [Function.update_of_ne hne]

theorem Books.freeLine (h : Books events owed counted s) (n : Fin 10) : Books events owed counted
    { s with lines := s.lines.freeLine n, unread := s.unread.filter (·.line ≠ some n) } := by
  refine ⟨h.perm, h.lost, h.proper, fun d hd => ?_⟩
  obtain ⟨hd, hn⟩ := List.mem_filter.mp hd
  exact (h.unread d hd).freeLine (of_decide_eq_true hn)

/-- The account is kept by all that the guard lets happen in the buffers that are accounted for. -/
theorem Books.event {e : Event} (h : Books events owed counted s)
    (hcounted : ∀ b f, e = .arrive b f → counted b = true)
    (hguard : guard s p (.event e)) (he : State.event e s = some s') :
    Books events owed counted s' := by
  cases e with
  | arrive b f =>
    simp only [State.event] at he
    split at he
    · cases he
    · next hflag =>
      cases he
      exact h.arrive (hcounted b f rfl) (by simpa using hflag) hguard.1
  | freeLine n =>
    simp only [State.event] at he
    split at he
    · cases he
      exact h.freeLine n
    · cases he

/-- Between two looks at the flags all buffers are accounted for. -/
theorem Books.stable : Stable (device E) guard p (Books events owed fun _ => true) :=
  fun _ _ _ h hguard he => h.event (fun _ _ _ => rfl) hguard he

/-! ## The frame at hand -/

/-- The flag of the buffer is set, so that its frame stays. -/
structure Loaded (events : List (CANEvent E)) (b : Bool) (f : CanFrame) (seen : Bool)
    (s : State E) : Prop where
  books : Books events [] (fun _ => true) s
  flag : (s.rx b).flag = true
  frame : (s.rx b).frame = f
  seen : seen = true → (s.rx b).seen = true

/-- The deliveries for the frame of the buffer are being made, the flag may be clear already. -/
structure Handling (events : List (CANEvent E)) (b : Bool) (f : CanFrame)
    (owed : List (E × Nat × List UInt8)) (s : State E) : Prop where
  books : Books events owed (· != b) s
  frame : (s.rx b).frame = f
  seen : (s.rx b).flag = true → (s.rx b).seen = true
  owed : owed.Sublist (deliveriesOf events f)

theorem Handling.sound (h : Handling events b f owed s) : Sound events s := by
  have hother : (waiting events (· != b) s).Sublist (deliveriesOf events (s.rx !b).frame) := by
    cases b with
    | false =>
      simpa [waiting] using
        part_sublist (c := (s.rx true).flag) (deliveriesOf events (s.rx true).frame)
    | true =>
      simpa [waiting] using
        part_sublist (c := (s.rx false).flag) (deliveriesOf events (s.rx false).frame)
  have hall := (h.owed.append hother).subperm
  refine h.books.sound (hall.trans ?_)
  rw [← h.frame]
  cases b with
  | false => exact (List.Perm.refl _).subperm
  | true => exact List.perm_append_comm.subperm

/-- The message of the frame has been entered into a line. -/
structure Entered (f : CanFrame) (n : Fin 10) (s : State E) : Prop where
  isUsed : (s.lines.mBuffer n).isUsed = true
  id : (s.lines.mBuffer n).id = f.id.val
  data : (s.lines.mBuffer n).data = f.payload
  fresh : ∀ d ∈ s.unread, d.line ≠ some n

theorem event_rx {e : Event} (he : State.event e s = some s') (hb : ∀ f, e ≠ .arrive b f) :
    s'.rx b = s.rx b := by
  cases e with
  | arrive c f =>
    have hne : b ≠ c := fun heq => hb f (heq ▸ rfl)
    simp only [State.event] at he
    split at he
    · cases he
    · cases he
      exact Function.update_of_ne hne ..
  | freeLine n =>
    simp only [State.event] at he
    split at he
    · cases he
      rfl
    · cases he

theorem Loaded.stable {seen : Bool} : Stable (device E) guard p (Loaded events b f seen) := by
  intro s e s' h hguard he
  have hrx : s'.rx b = s.rx b := by
    refine event_rx he fun f' heq => ?_
    subst heq
    simp [device, State.event, h.flag] at he
  exact ⟨h.books.event (fun _ _ _ => rfl) hguard he, hrx ▸ h.flag, hrx ▸ h.frame, hrx ▸ h.seen⟩

theorem Handling.stable (hp : ClearPending b p) :
    Stable (device E) guard p (Handling events b f owed) := by
  intro s e s' h hguard he
  have hne : ∀ c f', e = .arrive c f' → c ≠ b := by
    rintro c f' rfl rfl
    exact hguard.2 hp
  have hrx : s'.rx b = s.rx b := event_rx he fun f' heq => hne b f' heq rfl
  exact ⟨h.books.event (fun c f' heq => by simpa using hne c f' heq) hguard he, hrx ▸ h.frame,
    hrx ▸ h.seen, h.owed⟩

theorem Entered.stable {n : Fin 10} : Stable (device E) guard p (Entered f n) := by
  intro s e s' h _ he
  cases e with
  | arrive c f' =>
    simp only [device, State.event] at he
    split at he
    · cases he
    · cases he
      exact ⟨h.isUsed, h.id, h.data, h.fresh⟩
  | freeLine k =>
    simp only [device, State.event] at he
    split at he
    · next hany =>
      cases he
      obtain ⟨d, hd, hline⟩ := List.any_eq_true.mp hany
      have hne : n ≠ k := fun heq => h.fresh d hd (heq ▸ of_decide_eq_true hline)
      have hkept : (s.lines.freeLine k).mBuffer n = s.lines.mBuffer n :=
        Function.update_of_ne hne ..
      exact ⟨hkept ▸ h.isUsed, hkept ▸ h.id, hkept ▸ h.data,
        fun d hd => h.fresh d (List.mem_filter.mp hd).1⟩
    · cases he

/-! ## Accesses -/

abbrev Outline (events : List (CANEvent E)) : Driver E Bool → State E → Prop :=
  Safe (device E) guard (fun s _ => Sound events s) fun _ => Books events [] fun _ => true

theorem register_eq {offset : Nat} (hoffset : offset < 0x10) :
    s.register (rxbCtrl b + offset) = (s.rx b).frame.register offset := by
  rw [State.register]
  cases b with
  | false =>
    rw [if_pos (by simp only [rxbCtrl]; omega)]
    simp [rxbCtrl]
  | true =>
    rw [if_neg (by simp only [rxbCtrl]; omega)]
    simp [rxbCtrl]

theorem see_rx (address : Nat) : ((s.see address).rx b).flag = (s.rx b).flag ∧
    ((s.see address).rx b).frame = (s.rx b).frame ∧
    ((s.see address).rx b).seen = ((s.rx b).seen || address == rxbSidh b) := by
  by_cases h : address = rxbSidh b
  · simp [State.see, h]
  · simp [State.see, h]

theorem Books.see (h : Books events owed counted s) (address : Nat) :
    Books events owed counted (s.see address) := by
  have hwaiting : waiting events counted (s.see address) = waiting events counted s := by
    refine List.flatMap_congr fun c _ => ?_
    obtain ⟨hflag, hframe, -⟩ := see_rx (s := s) (b := c) address
    rw [hflag, hframe]
  refine ⟨hwaiting ▸ h.perm, h.lost, fun c hc => ?_, h.unread⟩
  obtain ⟨hflag, hframe, -⟩ := see_rx (s := s) (b := c) address
  rw [hframe]
  exact h.proper c (hflag ▸ hc)

theorem Loaded.readRegister {seen : Bool} {offset : Nat} {next : UInt8 → Driver E Bool}
    (h : Loaded events b f seen s) (hoffset : offset < 0x10)
    (hnext : ∀ s, Loaded events b f (seen || offset == 1) s →
      Outline events (next (f.register offset)) s) :
    Outline events (.access (.readRegister (rxbCtrl b + offset)) next) s := by
  refine .access _ Loaded.stable h (fun _ h => h.books.sound_all) fun s r s' h _ haccess => ?_
  cases haccess
  obtain ⟨hflag, hframe, hseen⟩ := see_rx (s := s) (b := b) (rxbCtrl b + offset)
  rw [register_eq hoffset, h.frame]
  refine hnext _ ⟨h.books.see _, hflag ▸ h.flag, hframe.trans h.frame, fun hs => ?_⟩
  rw [hseen]
  rcases Bool.or_eq_true_iff.mp hs with hs | hs
  · simp [h.seen hs]
  · simp [rxbSidh, beq_iff_eq.mp hs]

/-- An access while the deliveries for a frame are being made. -/
theorem Handling.access {op : Op E} {next : op.Res → Driver E Bool}
    (h : Handling events b f owed s) (hp : ClearPending b (.access op next))
    (hnext : ∀ s r s', Handling events b f owed s → Provided s (.access op) →
      State.access op s = some (r, s') → Outline events (next r) s') :
    Outline events (.access op next) s :=
  .access _ (stable hp) h (fun _ h => h.sound)
    fun s r s' h hguard haccess => hnext s r s' h hguard.1 haccess

theorem Handling.readRegister {offset : Nat} {next : UInt8 → Driver E Bool}
    (h : Handling events b f owed s) (hoffset : offset < 0x10)
    (hp : ∀ r, ClearPending b (next r))
    (hnext : ∀ s, Handling events b f owed s → Outline events (next (f.register offset)) s) :
    Outline events (.access (.readRegister (rxbCtrl b + offset)) next) s := by
  refine h.access hp fun s r s' h _ haccess => ?_
  cases haccess
  obtain ⟨hflag, hframe, hseen⟩ := see_rx (s := s) (b := b) (rxbCtrl b + offset)
  rw [register_eq hoffset, h.frame]
  refine hnext _ ⟨h.books.see _, hframe.trans h.frame, fun hs => ?_, h.owed⟩
  rw [hseen, h.seen (hflag ▸ hs)]
  rfl

theorem flagMask_and (b c : Bool) : flagMask b &&& flagMask c ≠ 0 ↔ c = b := by
  cases b <;> cases c <;> decide

/-- Writing zeros under the mask of a buffer clears its flag and no other. -/
theorem modifyFlag_clear (b c flag : Bool) :
    State.modifyFlag (flagMask b) 0 c flag = if c = b then false else flag := by
  rw [State.modifyFlag]
  by_cases h : c = b
  · rw [if_neg ((flagMask_and b c).mpr h), if_pos h]
    simp
  · rw [if_pos (by simpa using mt (flagMask_and b c).mp h), if_neg h]

theorem clear_rx (b c : Bool) : (s.bitModify canintf (flagMask b) 0).rx c =
    { s.rx c with flag := if c = b then false else (s.rx c).flag } := by
  rw [State.bitModify, if_pos rfl, ← modifyFlag_clear]

theorem clear_lost (b : Bool) (hseen : (s.rx b).flag = true → (s.rx b).seen = true) :
    (s.bitModify canintf (flagMask b) 0).lost = s.lost := by
  rw [State.bitModify, if_pos rfl]
  have hnone : ∀ c, ((s.rx c).flag && !(s.rx c).seen &&
      !State.modifyFlag (flagMask b) 0 c (s.rx c).flag) = false := by
    intro c
    rw [modifyFlag_clear]
    by_cases h : c = b
    · subst h
      cases hflag : (s.rx c).flag with
      | false => rfl
      | true => simp [hseen hflag]
    · rw [if_neg h]
      cases (s.rx c).flag <;> simp
  simp [hnone]

/-- Clearing the flag of a buffer that is not accounted for. -/
theorem Books.clear (h : Books events owed counted s) (hb : counted b = false)
    (hseen : (s.rx b).flag = true → (s.rx b).seen = true) :
    Books events owed counted (s.bitModify canintf (flagMask b) 0) := by
  have hwaiting : waiting events counted (s.bitModify canintf (flagMask b) 0) =
      waiting events counted s := by
    refine waiting_congr fun c hc => ?_
    have hne : c ≠ b := fun heq => by simp [heq, hb] at hc
    rw [clear_rx, if_neg hne]
  have hsame : ∀ t : State E, (t.bitModify canintf (flagMask b) 0).triggered = t.triggered ∧
      (t.bitModify canintf (flagMask b) 0).received = t.received ∧
      (t.bitModify canintf (flagMask b) 0).unread = t.unread ∧
      (t.bitModify canintf (flagMask b) 0).lines = t.lines := fun t => by
    rw [State.bitModify, if_pos rfl]
    exact ⟨rfl, rfl, rfl, rfl⟩
  obtain ⟨htriggered, hreceived, hunread, hlines⟩ := hsame s
  refine ⟨by rw [hwaiting, htriggered, hreceived]; exact h.perm, (clear_lost b hseen).trans h.lost,
    fun c hc => ?_, fun d hd => ?_⟩
  · rw [clear_rx] at hc ⊢
    dsimp only at hc ⊢
    split at hc
    · cases hc
    · exact h.proper c hc
  · rw [Kept, hlines]
    exact h.unread d (hunread ▸ hd)

theorem Handling.clear (h : Handling events b f owed s) :
    Handling events b f owed (s.bitModify canintf (flagMask b) 0) := by
  refine ⟨h.books.clear (by simp) h.seen, ?_, fun hflag => ?_, h.owed⟩
  · rw [clear_rx]
    exact h.frame
  · rw [clear_rx, if_pos rfl] at hflag
    cases hflag

/-- The last clear of the flag settles the account of the buffer. -/
theorem Handling.settle (h : Handling events b f [] s) :
    Books events [] (fun _ => true) (s.bitModify canintf (flagMask b) 0) := by
  have hbooks := h.clear.books
  refine ⟨?_, hbooks.lost, hbooks.proper, hbooks.unread⟩
  have hwaiting := waiting_perm events (fun _ => true)
    (s.bitModify canintf (flagMask b) 0) b
  rw [clear_rx b b, if_pos rfl, Bool.and_false, if_neg Bool.false_ne_true, List.nil_append]
    at hwaiting
  exact (hwaiting.append_left _).trans hbooks.perm

/-- Entering a message into a line that is free. -/
theorem Handling.enter (h : Handling events b f owed s) {n : Fin 10} {line : CanBufferMsg}
    (hfree : (s.lines.mBuffer n).isUsed = false) (hused : line.isUsed = true)
    (hid : line.id = f.id.val) (hdata : line.data = f.payload) :
    Handling events b f owed { s with lines := ⟨n, Function.update s.lines.mBuffer n line⟩ } ∧
      Entered f n { s with lines := ⟨n, Function.update s.lines.mBuffer n line⟩ } := by
  have hne : ∀ d ∈ s.unread, ∀ k, d.line = some k → k ≠ n := by
    rintro d hd k hk rfl
    obtain ⟨k', hk', hline, -⟩ := h.books.unread d hd
    obtain rfl : k' = k := Option.some.inj (hk'.symm.trans hk)
    rw [hfree] at hline
    cases hline
  have hself : Function.update s.lines.mBuffer n line n = line := Function.update_self ..
  refine ⟨⟨⟨h.books.perm, h.books.lost, h.books.proper, fun d hd => ?_⟩, h.frame, h.seen,
    h.owed⟩, ⟨(congrArg (·.isUsed) hself).trans hused, (congrArg (·.id) hself).trans hid,
      (congrArg (·.data) hself).trans hdata, fun d hd heq => hne d hd n heq rfl⟩⟩
  obtain ⟨k, hk, hline⟩ := h.books.unread d hd
  refine ⟨k, hk, ?_⟩
  dsimp only
  rwa [Function.update_of_ne (hne d hd k hk)]

/-- A delivery that was owed is made. -/
theorem Handling.deliver {n : Fin 10} {e : E}
    (h : Handling events b f ((e, f.id.val, f.payload) :: owed) s) (hline : Entered f n s) :
    Handling events b f owed (s.eventTriggered e (some n)) := by
  have hcontent : (s.delivery e (some n)).content = (e, f.id.val, f.payload) := by
    simp [State.delivery, Delivery.content, hline.id, hline.data]
  refine ⟨⟨?_, h.books.lost, h.books.proper, fun d hd => ?_⟩, h.frame, h.seen,
    (List.sublist_cons_self ..).trans h.owed⟩
  · have hwaiting : waiting events (· != b) (s.eventTriggered e (some n)) =
        waiting events (· != b) s := waiting_congr fun _ _ => rfl
    have hperm := h.books.perm
    rw [List.append_cons] at hperm
    rwa [hwaiting, State.eventTriggered, List.map_append, List.map_singleton, hcontent]
  · rcases List.mem_append.mp hd with hd | hd
    · exact h.books.unread d hd
    · obtain rfl := List.mem_singleton.mp hd
      exact ⟨n, rfl, hline.isUsed, rfl, rfl⟩

/-! ## The registers -/

theorem messageID_eq (f : CanFrame) :
    ((f.register 1).toNat <<< 3) ||| ((f.register 2).toNat >>> 5) = f.id.val := by
  have hlt := f.id.isLt
  have hhigh : (f.register 1).toNat = f.id.val / 8 := by
    simp [CanFrame.register, Nat.shiftRight_eq_div_pow]
    omega
  have hlow : (f.register 2).toNat >>> 5 = f.id.val % 8 := by
    simp [CanFrame.register, Nat.shiftRight_eq_div_pow, Nat.shiftLeft_eq]
    omega
  rw [hhigh, hlow, ← Nat.shiftLeft_add_eq_or_of_lt (by omega), Nat.shiftLeft_eq]
  omega

theorem dataLength_eq (f : CanFrame) : (f.register 5).toNat &&& 0xf = f.dataLength.val := by
  have hlt := f.dataLength.isLt
  have hvalue : (f.register 5).toNat = f.dataLength.val := by
    simp [CanFrame.register]
    omega
  rw [hvalue, Nat.and_two_pow_sub_one_eq_mod _ 4, Nat.mod_eq_of_lt hlt]

theorem data_eq (f : CanFrame) (i : Nat) : f.register (6 + i) = f.data i := by
  simp [CanFrame.register, show 6 + i ≠ 1 by omega, show 6 + i ≠ 2 by omega,
    show 6 + i ≠ 5 by omega]

/-! ## The trigger -/

theorem clearPending_readMessage {g : (Nat → UInt8) → Driver E α}
    (hg : ∀ message, ClearPending b (g message)) (i n : Nat) (message : Nat → UInt8) :
    ClearPending b (readMessage b i n message >>= g) := by
  induction n generalizing i message with
  | zero => exact hg message
  | succ n ih => exact fun byte => ih (i + 1) _

theorem receive_bind (buffer : Bool) (message : Nat → UInt8) (dataLength : Nat)
    (g : (Nat → UInt8) → Driver E α) :
    (receive buffer message dataLength >>= g) =
      if dataLength > 8 ∨ dataLength = 0 then g message
      else readMessage buffer 0 dataLength message >>= fun message =>
        .access (.bitModify canintf (flagMask buffer) 0) fun _ => g message := by
  rw [receive]
  split
  · rfl
  · rw [Prog.bind_assoc]
    rfl

/-- A round of the loop over the events. -/
theorem emitEvents_bind (messageID : Nat) (bufferID : Bool) (event : CANEvent E)
    (events : List (CANEvent E)) (buffer : Nat → UInt8) (success : Bool)
    (g : Bool → Driver E α) :
    (emitEvents messageID bufferID (event :: events) buffer success >>= g) =
      if event.messageID = messageID then
        .access (.readRegister (rxbDlc bufferID)) fun dataLength =>
          receive bufferID buffer (dataLength.toNat &&& 0xf) >>= fun buffer =>
            .access (.enterMsg buffer (dataLength.toNat &&& 0xf) messageID) fun line =>
              .access (.eventTriggered event.event line) fun _ =>
                emitEvents messageID bufferID events buffer true >>= g
      else emitEvents messageID bufferID events buffer success >>= g := by
  rw [emitEvents]
  split
  · simp only [Prog.bind_assoc]
    rfl
  · rfl

theorem clearPending_receive {g : (Nat → UInt8) → Driver E α}
    (hg : ∀ message, ClearPending b (g message)) (message : Nat → UInt8) (dataLength : Nat) :
    ClearPending b (receive b message dataLength >>= g) := by
  rw [receive_bind]
  split
  · exact hg message
  · refine clearPending_readMessage ?_ ..
    exact fun message => .inr (hg message)

theorem clearPending_emitEvents {g : Bool → Driver E α} (hg : ∀ x, ClearPending b (g x))
    (messageID : Nat) (events : List (CANEvent E)) (buffer : Nat → UInt8) (success : Bool) :
    ClearPending b (emitEvents messageID b events buffer success >>= g) := by
  induction events generalizing buffer success with
  | nil => exact hg success
  | cons event events ih =>
    rw [emitEvents_bind]
    split
    · intro dataLength
      refine clearPending_receive ?_ ..
      exact fun buffer _ => ih buffer true
    · exact ih buffer success

theorem safe_readMessage {g : (Nat → UInt8) → Driver E Bool} {i n : Nat} {message : Nat → UInt8}
    (h : Handling events b f owed s) (hn : i + n ≤ 8) (hmessage : ∀ j < i, message j = f.data j)
    (hp : ∀ message, ClearPending b (g message))
    (hg : ∀ s message, Handling events b f owed s → (∀ j < i + n, message j = f.data j) →
      Outline events (g message) s) :
    Outline events (readMessage b i n message >>= g) s := by
  induction n generalizing i message s with
  | zero => exact hg s message h hmessage
  | succ n ih =>
    have hread : (readMessage b i (n + 1) message >>= g) =
        .access (.readRegister (rxbCtrl b + (6 + i))) fun byte =>
          readMessage b (i + 1) n (Function.update message i byte) >>= g := by
      rw [← Nat.add_assoc]
      rfl
    rw [hread]
    refine h.readRegister (by omega) (fun byte => clearPending_readMessage hp ..) fun s h => ?_
    rw [data_eq]
    refine ih h (by omega) (fun j hj => ?_) fun s message h hmessage => ?_
    · rcases eq_or_ne j i with rfl | hne
      · exact Function.update_self ..
      · rw [Function.update_of_ne hne]
        exact hmessage j (by omega)
    · exact hg s message h fun j hj => hmessage j (by omega)

theorem safe_receive {g : (Nat → UInt8) → Driver E Bool} {message : Nat → UInt8}
    (h : Handling events b f owed s) (hf : f.Proper) (hp : ∀ message, ClearPending b (g message))
    (hg : ∀ s message, Handling events b f owed s →
      (∀ j < f.dataLength.val, message j = f.data j) → Outline events (g message) s) :
    Outline events (receive b message f.dataLength.val >>= g) s := by
  have hpos := hf.pos
  have hle := hf.le
  rw [receive_bind, if_neg (by omega)]
  refine safe_readMessage h (by omega) (fun j hj => absurd hj (Nat.not_lt_zero _))
    (fun message => .inr (hp message)) fun s message h hmessage => ?_
  rw [Nat.zero_add] at hmessage
  refine h.access (.inr (hp message)) fun s r s' h _ haccess => ?_
  cases haccess
  exact hg _ message h.clear hmessage

/-- The loop over the events delivers the frame to those that remain. -/
theorem safe_emitEvents {g : Bool → Driver E Bool} {buffer : Nat → UInt8} {success : Bool}
    (h : Handling events b f (deliveriesOf rest f) s) (hf : f.Proper)
    (hp : ∀ x, ClearPending b (g x))
    (hg : ∀ s x, Handling events b f [] s → Outline events (g x) s) :
    Outline events (emitEvents f.id.val b rest buffer success >>= g) s := by
  induction rest generalizing buffer success s with
  | nil => exact hg s success h
  | cons event rest ih =>
    rw [emitEvents_bind]
    split
    · next hid =>
      have howed : deliveriesOf (event :: rest) f =
          (event.event, f.id.val, f.payload) :: deliveriesOf rest f := by
        simp [deliveriesOf, hid]
      rw [howed] at h
      have hrest : ∀ buffer, ClearPending b (emitEvents f.id.val b rest buffer true >>= g) :=
        fun buffer => clearPending_emitEvents hp ..
      refine h.readRegister (by omega) (fun dataLength => ?_) fun s h => ?_
      · refine clearPending_receive ?_ ..
        exact fun buffer _ => hrest buffer
      · rw [dataLength_eq]
        refine safe_receive h hf (fun buffer _ => hrest buffer) fun s buffer h hbuffer => ?_
        refine h.access (fun _ => hrest buffer) fun s line s' h hfree haccess => ?_
        obtain ⟨n, entry, henter, hn, hused, hid, hdata⟩ :=
          CanBuffer.enterMsg_free buffer f.id.val hfree hf.le
        have hpayload : entry.data = f.payload :=
          hdata.trans (List.map_congr_left fun i hi => hbuffer i (List.mem_range.mp hi))
        simp only [State.access, henter] at haccess
        cases haccess
        obtain ⟨h, hentered⟩ := h.enter hn hused hid hpayload
        -- the line is still the frame's when the event is triggered
        refine .access _ ((Handling.stable (hrest buffer)).and Entered.stable) ⟨h, hentered⟩
          (fun _ h => h.1.sound) fun s r s' h _ haccess => ?_
        cases haccess
        exact ih (h.1.deliver h.2)
    · next hid =>
      have howed : deliveriesOf (event :: rest) f = deliveriesOf rest f := by
        simp [deliveriesOf, hid]
      exact ih (howed ▸ h)

theorem status_and (b : Bool) : s.rxStatus &&& statusMask b = 0 ↔ (s.rx b).flag = false := by
  rw [State.rxStatus]
  cases b <;> cases (s.rx false).flag <;> cases (s.rx true).flag <;> decide

theorem receivedMessageID_bind (buffer : Bool) (g : Nat → Driver E α) :
    (receivedMessageID buffer >>= g) = .access .rxStatus fun (status : Nat) =>
      if status &&& statusMask buffer = 0 then g 0
      else .access (.readRegister (rxbCtrl buffer + 1)) fun sidh =>
        .access (.readRegister (rxbCtrl buffer + 2)) fun sidl =>
          g ((sidh.toNat <<< 3) ||| (sidl.toNat >>> 5)) := by
  refine congrArg (Prog.access Op.rxStatus) (funext fun (status : Nat) => ?_)
  show ((if status = 0 then Prog.ret 0 else if status &&& statusMask buffer = 0 then Prog.ret 0
    else _) >>= g) = _
  by_cases hstatus : status = 0
  · subst hstatus
    rw [if_pos rfl, if_pos (Nat.zero_and _), Prog.ret_bind]
  · rw [if_neg hstatus]
    split
    · exact Prog.ret_bind 0
    · rfl

/-- Looking at a buffer settles its account. -/
theorem safe_checkBuffer {g : Unit → Driver E Bool} (h : Books events [] (fun _ => true) s)
    (hg : ∀ s, Books events [] (fun _ => true) s → Outline events (g ()) s) :
    Outline events (checkBuffer events b >>= g) s := by
  rw [checkBuffer, Prog.bind_assoc, receivedMessageID_bind]
  refine .access _ Books.stable h (fun _ h => h.sound_all) fun s status s' h _ haccess => ?_
  cases haccess
  split
  · exact hg s h
  · next hstatus =>
    have hflag : (s.rx b).flag = true := by
      rwa [status_and, Bool.not_eq_false] at hstatus
    have hf := h.proper b hflag
    have hloaded : Loaded events b (s.rx b).frame false s := ⟨h, hflag, rfl, nofun⟩
    generalize (s.rx b).frame = f at hf hloaded
    refine hloaded.readRegister (by omega) fun s hloaded => ?_
    refine hloaded.readRegister (by omega) fun s hloaded => ?_
    have hid : f.id.val ≠ 0 := fun heq => hf.id (Fin.ext heq)
    rw [messageID_eq, if_pos hid, emitCANEvent, Prog.bind_assoc]
    have hwaiting := waiting_perm events (fun _ => true) s b
    rw [hloaded.flag, hloaded.frame] at hwaiting
    refine safe_emitEvents ⟨⟨?_, hloaded.books.lost, hloaded.books.proper, hloaded.books.unread⟩,
      hloaded.frame, fun _ => hloaded.seen rfl, .refl _⟩ hf (fun _ => .inl ⟨rfl, ?_⟩) fun s x h => ?_
    · have hperm := hloaded.books.perm
      rw [List.append_nil] at hperm
      rw [List.append_assoc]
      exact (hwaiting.symm.append_left _).trans hperm
    · exact (flagMask_and b b).mpr rfl
    · refine h.access (.inl ⟨rfl, (flagMask_and b b).mpr rfl⟩) fun s r s' h _ haccess => ?_
      cases haccess
      exact hg _ h.settle

theorem safe_interrupt (h : Books events [] (fun _ => true) s) :
    Outline events (interrupt events) s := by
  have hinterrupt : interrupt events = .access .rxStatus fun (status : Nat) =>
      if status &&& statusMask false ≠ 0 ∨ status &&& statusMask true ≠ 0 then
        checkBuffer events false >>= fun _ => checkBuffer events true >>= fun _ => .ret true
      else .ret false := rfl
  rw [hinterrupt]
  refine .access _ Books.stable h (fun _ h => h.sound_all) fun s status s' h _ haccess => ?_
  cases haccess
  have hend : ∀ (x : Bool) s, Books events [] (fun _ => true) s → Outline events (.ret x) s :=
    fun x s h => .ret _ Books.stable h fun s h => ⟨h.sound_all, h⟩
  split
  · exact safe_checkBuffer h fun s h => safe_checkBuffer h fun s h => hend true s h
  · exact hend false s h

/-- In a run in which no frame is stored in a buffer whose flag the trigger is about to clear, no
frame is lost or mixed. -/
theorem reception_faithful (events : List (CANEvent E)) (junk : Bool → CanFrame)
    {ls : List (HandlerLabel (Op E) Event)} {t : Option (Driver E Bool)}
    (hrun : Run (HandlerGuarded (device E) (fun _ => True) (interrupt events) guard)
      (.initial junk, none) ls (s, t)) : Faithful events s t := by
  have hserves := Serves.run (I := Books events [] fun _ => true)
    (G := fun s _ => Sound events s) Books.stable (fun s h => safe_interrupt h) ?_ hrun
  · cases t with
    | none =>
      refine ⟨hserves.sound_all, fun _ => ?_⟩
      have hperm := hserves.perm
      rwa [List.append_nil] at hperm
    | some p => exact ⟨hserves.point, nofun⟩
  · exact ⟨.refl _, rfl, nofun, nofun⟩

/-! ## Two runs -/

section
variable {events : List (CANEvent Unit)} {G : Guard (State Unit) (Op Unit) Op.Res Event Bool}
  {c : State Unit × Option (Driver Unit Bool)} {s s' : State Unit}
  {ls : List (HandlerLabel (Op Unit) Event)}

abbrev TriggerStep (events : List (CANEvent Unit))
    (G : Guard (State Unit) (Op Unit) Op.Res Event Bool) :=
  HandlerGuarded (device Unit) (fun _ => True) (interrupt events) G

theorem run_access {op : Op Unit} {next : op.Res → Driver Unit Bool} {r : op.Res}
    (h : Run (TriggerStep events G) c ls (s, some (.access op next)))
    (hguard : G s (.access op next) (.access op)) (haccess : State.access op s = some (r, s')) :
    Run (TriggerStep events G) c (ls ++ [.inner (.access op)]) (s', some (next r)) :=
  h.snoc ⟨.inner (.access haccess), by rintro _ ⟨⟩; exact hguard⟩

theorem run_event {e : Event} {t : Option (Driver Unit Bool)}
    (h : Run (TriggerStep events G) c ls (s, t)) (hguard : G s (t.getD (.ret false)) (.event e))
    (he : State.event e s = some s') :
    Run (TriggerStep events G) c (ls ++ [.inner (.event e)]) (s', t) := by
  refine h.snoc ⟨?_, by rintro _ ⟨⟩; exact hguard⟩
  cases t with
  | none => exact .event he
  | some p => exact .inner (.event he)

end

/-- A frame of one byte. -/
def oneByte (id : Fin 2048) (byte : UInt8) : CanFrame := ⟨id, 1, fun _ => byte⟩

theorem proper_oneByte {id : Fin 2048} (hid : id ≠ 0) (byte : UInt8) : (oneByte id byte).Proper :=
  ⟨hid, le_rfl, show 1 ≤ 8 by decide⟩

/-- A second frame that arrives right after the first one has been read is discarded unread. -/
theorem reception_loses : ∃ (ls : List (HandlerLabel (Op Unit) Event)) (s : State Unit),
    Run (TriggerStep [⟨(), 1⟩] fun s _ l => Provided s l) (.initial fun _ => oneByte 0 0, none) ls
      (s, none) ∧ s.received = [oneByte 1 0xAA, oneByte 1 0xBB] ∧ s.lost = [oneByte 1 0xBB] ∧
      s.triggered.map Delivery.content = [((), 1, [0xAA])] := by
  have h : Run (TriggerStep [⟨(), 1⟩] fun s _ l => Provided s l)
      (.initial fun _ => oneByte 0 0, none) [] (.initial fun _ => oneByte 0 0, none) := .nil
  have h := run_event (e := .arrive false (oneByte 1 0xAA)) h (proper_oneByte (by decide) _) rfl
  have h := h.snoc ⟨.start trivial, nofun⟩
  -- the flags are looked at twice, then the identifier, the length and the data are read
  have h := run_access (run_access h trivial rfl) trivial rfl
  have h := run_access (run_access h trivial rfl) trivial rfl
  have h := run_access (run_access h trivial rfl) trivial rfl
  -- `receive` clears the flag
  have h := run_access h trivial rfl
  have h := run_event (e := .arrive false (oneByte 1 0xBB)) h (proper_oneByte (by decide) _) rfl
  have h := run_access (run_access h ⟨0, rfl⟩ rfl) trivial rfl
  -- the flag is cleared again, and the other buffer is looked at
  have h := run_access (run_access h trivial rfl) trivial rfl
  have h := run_access (h.snoc ⟨.again, nofun⟩) trivial rfl
  have h := h.snoc ⟨.stop, nofun⟩
  exact ⟨_, _, h, rfl, rfl, rfl⟩

/-- The frame arrives while the trigger does not run. -/
theorem reception_faithful_idle : ∃ (ls : List (HandlerLabel (Op Unit) Event)) (s : State Unit),
    Run (TriggerStep [⟨(), 1⟩] guard) (.initial fun _ => oneByte 0 0, none) ls (s, none) ∧
      s.received = [oneByte 1 0xAA] ∧ s.triggered.map Delivery.content = [((), 1, [0xAA])] ∧
      Faithful [⟨(), 1⟩] s none := by
  have h : Run (TriggerStep [⟨(), 1⟩] guard) (.initial fun _ => oneByte 0 0, none) []
    (.initial fun _ => oneByte 0 0, none) := .nil
  have h := run_event (e := .arrive false (oneByte 1 0xAA)) h
    ⟨proper_oneByte (by decide) _, fun hp => hp⟩ rfl
  have h := h.snoc ⟨.start trivial, nofun⟩
  have hany : ∀ {s : State Unit} {op : Op Unit} {p : Driver Unit Bool},
    Provided s (.access op) → guard s p (.access op) := fun h => ⟨h, trivial⟩
  have h := run_access (run_access h (hany trivial) rfl) (hany trivial) rfl
  have h := run_access (run_access h (hany trivial) rfl) (hany trivial) rfl
  have h := run_access (run_access h (hany trivial) rfl) (hany trivial) rfl
  have h := run_access (run_access h (hany trivial) rfl) (hany ⟨0, rfl⟩) rfl
  have h := run_access (run_access h (hany trivial) rfl) (hany trivial) rfl
  have h := run_access h (hany trivial) rfl
  have h := run_access (h.snoc ⟨.again, nofun⟩) (hany trivial) rfl
  have h := h.snoc ⟨.stop, nofun⟩
  exact ⟨_, _, h, rfl, rfl, reception_faithful _ _ h⟩

end MCP2515SPI

end CyPhOS
