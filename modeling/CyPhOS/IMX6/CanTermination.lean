import CyPhOS.IMX6.CanReception

/-! # When the loop of the CAN interrupt ends

No frame arrives while the loop runs; lines may be freed at any time. `Contents` says what is known
of the two buffers, and `reach_interrupt` what a round does to them: each flag is cleared unless the
frame has the identifier 0, which `receivedMessageID` also returns if there is no message. So the
loop ends after one round, or never (`loop_ends_iff`).
-/

namespace CyPhOS.MCP2515SPI

open DeviceProgram Transition

variable {E : Type}

/-- The loop of the periodic task is that of the interrupt trigger. Its first round begins with the
status that was read before the error counters; what is written to these, and the pin that is read,
is not used by it. -/
def periodicTask (mRegisteredEvents : List (CANEvent E)) : Driver E Bool := do
  let status ← rxStatus
  let _ ← readRegister 0x1C
  let _ ← readRegister 0x1D
  let _ ← rxStatus
  if status &&& statusMask false ≠ 0 ∨ status &&& statusMask true ≠ 0 then do
    checkBuffer mRegisteredEvents false
    checkBuffer mRegisteredEvents true
    pure true
  else pure false

def noArrival : Guard (State E) (Op E) Op.Res Event Bool :=
  fun _ _ l => ∀ buffer f, l ≠ .event (.arrive buffer f)

/-- The loop that begins with `first` comes to its end after a bounded number of rounds, with both
flags cleared. -/
def Ends (mRegisteredEvents : List (CANEvent E)) (first : Driver E Bool) (s : State E) : Prop :=
  ∃ n, ∀ ls s' t,
    Run (LoopStep (device E) (interrupt mRegisteredEvents) noArrival) (s, some first) ls (s', t) →
    ls.countP HandlerLabel.isAgain ≤ n ∧ (t = none → ∀ b, (s'.rx b).flag = false) ∧
    ∃ ms s'', Run (LoopStep (device E) (interrupt mRegisteredEvents) noArrival) (s', t) ms
      (s'', none)

/-! ## What is known of the buffers -/

/-- The frames, and the flags that are known. -/
def Contents (frames : Bool → CanFrame) (flags : Bool → Option Bool) (s : State E) : Prop :=
  ∀ b, (s.rx b).frame = frames b ∧ ∀ x, flags b = some x → (s.rx b).flag = x

/-- A program that leads to `Q` without arrivals. -/
def Reach (Q : Bool → State E → Prop) (p : Driver E Bool) (s : State E) : Prop :=
  Safe (device E) noArrival (fun _ _ => True) Q p s

variable {events : List (CANEvent E)} {frames : Bool → CanFrame} {flags : Bool → Option Bool}
  {s : State E} {b : Bool} {Q : Bool → State E → Prop}

/-- Without arrivals the buffers stay as they are between two accesses. -/
theorem stable_rx {p : Driver E Bool} (J : (Bool → RxBuffer) → Prop) :
    Stable (device E) noArrival p fun s => J s.rx := by
  intro s e s' h hguard he
  have hrx : s'.rx = s.rx := funext fun b => event_rx he fun f heq => hguard b f (heq ▸ rfl)
  rwa [hrx]

theorem Contents.stable {p : Driver E Bool} :
    Stable (device E) noArrival p (Contents frames flags) :=
  stable_rx fun rx => ∀ b, (rx b).frame = frames b ∧ ∀ x, flags b = some x → (rx b).flag = x

theorem Contents.ret {a : Bool} (h : Contents frames flags s)
    (hQ : ∀ s, Contents frames flags s → Q a s) : Reach Q (.ret a) s :=
  .ret _ Contents.stable h fun s h => ⟨trivial, hQ s h⟩

theorem Contents.access {op : Op E} {next : op.Res → Driver E Bool} (h : Contents frames flags s)
    (hnext : ∀ s r s', Contents frames flags s → State.access op s = some (r, s') →
      Reach Q (next r) s') : Reach Q (.access op next) s :=
  .access _ Contents.stable h (fun _ _ => trivial) fun s r s' h _ haccess => hnext s r s' h haccess

theorem Contents.see (h : Contents frames flags s) (address : Nat) :
    Contents frames flags (s.see address) := by
  intro c
  obtain ⟨hflag, hframe, -⟩ := see_rx (s := s) (b := c) address
  rw [hflag, hframe]
  exact h c

theorem Contents.rxStatus {next : Nat → Driver E Bool} (h : Contents frames flags s)
    (hnext : ∀ s, Contents frames flags s → Reach Q (next s.rxStatus) s) :
    Reach Q (.access .rxStatus next) s := by
  refine h.access fun s r s' h haccess => ?_
  cases haccess
  exact hnext s h

theorem Contents.readRegister {address : Nat} {next : UInt8 → Driver E Bool}
    (h : Contents frames flags s)
    (hnext : ∀ s byte, Contents frames flags s → Reach Q (next byte) s) :
    Reach Q (.access (.readRegister address) next) s := by
  refine h.access fun s r s' h haccess => ?_
  cases haccess
  exact hnext _ _ (h.see address)

theorem Contents.readFrame {offset : Nat} {next : UInt8 → Driver E Bool}
    (h : Contents frames flags s) (hoffset : offset < 0x10)
    (hnext : ∀ s, Contents frames flags s → Reach Q (next ((frames b).register offset)) s) :
    Reach Q (.access (.readRegister (rxbCtrl b + offset)) next) s := by
  refine h.access fun s r s' h haccess => ?_
  cases haccess
  rw [register_eq hoffset, (h b).1]
  exact hnext _ (h.see _)

/-- Clearing the flag of a buffer, whether it is known or not. -/
theorem Contents.clear {next : Unit → Driver E Bool} (h : Contents frames flags s)
    (hnext : ∀ s, Contents frames (Function.update flags b (some false)) s → Reach Q (next ()) s) :
    Reach Q (.access (.bitModify canintf (flagMask b) 0) next) s := by
  refine h.access fun s r s' h haccess => ?_
  cases haccess
  refine hnext _ fun c => ?_
  rw [clear_rx]
  refine ⟨(h c).1, fun x hx => ?_⟩
  by_cases hc : c = b
  · subst hc
    simpa using hx
  · rw [Function.update_of_ne hc] at hx
    simpa [hc] using (h c).2 x hx

/-- What is known of a flag is forgotten. -/
theorem Contents.forget (h : Contents frames flags s) (b : Bool) :
    Contents frames (Function.update flags b none) s := by
  intro c
  refine ⟨(h c).1, fun x hx => ?_⟩
  by_cases hc : c = b
  · subst hc
    simp at hx
  · rw [Function.update_of_ne hc] at hx
    exact (h c).2 x hx

/-! ## A round -/

theorem Contents.readMessage {g : (Nat → UInt8) → Driver E Bool} {i n : Nat}
    {message : Nat → UInt8} (h : Contents frames flags s)
    (hg : ∀ s message, Contents frames flags s → Reach Q (g message) s) :
    Reach Q (MCP2515SPI.readMessage b i n message >>= g) s := by
  induction n generalizing i message s with
  | zero => exact hg s message h
  | succ n ih => exact h.readRegister fun s byte h => ih h

/-- `receive` may clear the flag of its buffer. -/
theorem Contents.receive {g : (Nat → UInt8) → Driver E Bool} {message : Nat → UInt8}
    {dataLength : Nat} (h : Contents frames flags s) (hb : flags b = none)
    (hg : ∀ s message, Contents frames flags s → Reach Q (g message) s) :
    Reach Q (MCP2515SPI.receive b message dataLength >>= g) s := by
  rw [receive_bind]
  split
  · exact hg s message h
  · refine h.readMessage fun s message h => h.clear fun s h => hg s message ?_
    have hforget := h.forget b
    rwa [Function.update_idem, Function.update_eq_self_iff.mpr hb.symm] at hforget

theorem Contents.emitEvents {g : Bool → Driver E Bool} {messageID : Nat} {buffer : Nat → UInt8}
    {success : Bool} (h : Contents frames flags s) (hb : flags b = none)
    (hg : ∀ s x, Contents frames flags s → Reach Q (g x) s) :
    Reach Q (MCP2515SPI.emitEvents messageID b events buffer success >>= g) s := by
  induction events generalizing buffer success s with
  | nil => exact hg s success h
  | cons event events ih =>
    rw [emitEvents_bind]
    split
    · refine h.readRegister fun s byte h => h.receive hb fun s buffer h => ?_
      refine h.access fun s line s' h haccess => ?_
      cases haccess
      refine Contents.access (show Contents frames flags _ from h) fun s r s' h haccess => ?_
      cases haccess
      exact ih h
    · exact ih h

/-- The flag of the buffer is cleared if the identifier of its frame is not 0. -/
theorem Contents.checkBuffer {x : Bool} {g : Unit → Driver E Bool} (h : Contents frames flags s)
    (hb : flags b = some x)
    (hg : ∀ s, Contents frames (Function.update flags b (some (x && (frames b).id = 0))) s →
      Reach Q (g ()) s) :
    Reach Q (MCP2515SPI.checkBuffer events b >>= g) s := by
  rw [MCP2515SPI.checkBuffer, Prog.bind_assoc, receivedMessageID_bind]
  refine h.rxStatus fun s h => ?_
  have hx := (h b).2 x hb
  split
  · next hstatus =>
    rw [status_and, hx] at hstatus
    subst hstatus
    refine hg s ?_
    rwa [Bool.false_and, Function.update_eq_self_iff.mpr hb.symm]
  · next hstatus =>
    rw [status_and, hx, Bool.not_eq_false] at hstatus
    subst hstatus
    refine h.readFrame (by decide) fun s h => h.readFrame (by decide) fun s h => ?_
    rw [messageID_eq]
    by_cases hid : (frames b).id = 0
    · rw [if_neg (by simp [hid])]
      refine hg s ?_
      rwa [Bool.true_and, decide_eq_true hid, Function.update_eq_self_iff.mpr hb.symm]
    · have hne : (frames b).id.val ≠ 0 := fun heq => hid (Fin.ext heq)
      rw [if_pos hne, emitCANEvent, Prog.bind_assoc]
      refine (h.forget b).emitEvents (Function.update_self ..) fun s x h => ?_
      refine h.clear fun s h => hg s ?_
      rwa [Function.update_idem, ← decide_eq_false hid, ← Bool.true_and (decide _)] at h

/-- The flags behind a round. -/
def leftover (frames : Bool → CanFrame) (flags : Bool → Bool) (b : Bool) : Bool :=
  flags b && decide ((frames b).id = 0)

variable {known : Bool → Bool}

theorem Contents.status_iff (h : Contents frames (fun b => some (known b)) s) (b : Bool) :
    s.rxStatus &&& statusMask b ≠ 0 ↔ known b = true := by
  rw [Ne, status_and, (h b).2 _ rfl, Bool.not_eq_false]

/-- A round, which begins with a status that shows the flags. -/
theorem Contents.round {status : Nat} (h : Contents frames (fun b => some (known b)) s)
    (hstatus : ∀ b, status &&& statusMask b ≠ 0 ↔ known b = true)
    (hQ : ∀ s, Contents frames (fun b => some (leftover frames known b)) s →
      Q (known false || known true) s) :
    Reach Q (if status &&& statusMask false ≠ 0 ∨ status &&& statusMask true ≠ 0 then
        MCP2515SPI.checkBuffer events false >>= fun _ =>
          MCP2515SPI.checkBuffer events true >>= fun _ => .ret true
      else .ret false) s := by
  simp only [hstatus, ← Bool.or_eq_true]
  split
  · next hany =>
    rw [hany] at hQ
    refine h.checkBuffer rfl fun s h => h.checkBuffer (Function.update_of_ne (by decide) ..)
      fun s h => ?_
    refine Contents.ret ?_ hQ
    have hflags : (fun b => some (leftover frames known b)) =
        Function.update (Function.update (fun b => some (known b)) false
          (some (known false && (frames false).id = 0))) true
          (some (known true && (frames true).id = 0)) := by
      funext c
      cases c <;> rfl
    rwa [hflags]
  · next hnone =>
    rw [Bool.not_eq_true] at hnone
    rw [hnone] at hQ
    refine Contents.ret ?_ hQ
    have hflags : leftover frames known = known := by
      obtain ⟨hfalse, htrue⟩ := Bool.or_eq_false_iff.mp hnone
      funext c
      cases c <;> simp [leftover, hfalse, htrue]
    rwa [hflags]

/-- What a loop's first round, or any other, does to the buffers. -/
def After (s : State E) (a : Bool) (s' : State E) : Prop :=
  a = ((s.rx false).flag || (s.rx true).flag) ∧
    ∀ b, (s'.rx b).frame = (s.rx b).frame ∧
      (s'.rx b).flag = leftover (fun b => (s.rx b).frame) (fun b => (s.rx b).flag) b

theorem contents_self (s : State E) :
    Contents (fun b => (s.rx b).frame) (fun b => some (s.rx b).flag) s :=
  fun _ => ⟨rfl, fun _ hx => Option.some.inj hx⟩

theorem contents_after {s s' : State E}
    (h : Contents (fun b => (s.rx b).frame)
      (fun b => some (leftover (fun b => (s.rx b).frame) (fun b => (s.rx b).flag) b)) s') :
    After s ((s.rx false).flag || (s.rx true).flag) s' :=
  ⟨rfl, fun b => ⟨(h b).1, (h b).2 _ rfl⟩⟩

theorem reach_interrupt (events : List (CANEvent E)) (s : State E) :
    Reach (After s) (interrupt events) s := by
  refine (contents_self s).rxStatus fun s₁ h => ?_
  exact h.round h.status_iff fun s' h => contents_after h

theorem reach_periodicTask (events : List (CANEvent E)) (s : State E) :
    Reach (After s) (periodicTask events) s := by
  refine (contents_self s).rxStatus fun s₁ h => ?_
  have hstatus := h.status_iff
  refine h.readRegister fun _ _ h => h.readRegister fun _ _ h => h.rxStatus fun _ h => ?_
  exact h.round hstatus fun s' h => contents_after h

/-! ## The loop -/

/-- A frame that `receivedMessageID` takes for none. -/
def Stuck (s : State E) : Prop := ∃ b, (s.rx b).flag = true ∧ (s.rx b).frame.id = 0

theorem After.stuck {s s' : State E} {a : Bool} (h : After s a s') (hs : Stuck s) :
    a = true ∧ Stuck s' := by
  obtain ⟨b, hflag, hid⟩ := hs
  constructor
  · rw [h.1]
    cases b <;> simp [hflag]
  · exact ⟨b, by simp [(h.2 b).2, leftover, hflag, hid], by rw [(h.2 b).1, hid]⟩

theorem After.cleared {s s' : State E} {a : Bool} (h : After s a s') (hs : ¬Stuck s) (b : Bool) :
    (s'.rx b).flag = false := by
  rw [(h.2 b).2, leftover, Bool.and_eq_false_iff, decide_eq_false_iff_not, or_iff_not_imp_left,
    Bool.not_eq_false]
  exact fun hflag hid => hs ⟨b, hflag, hid⟩

theorem canGoOn (s : State E) (p : Driver E Bool) : CanGoOn (device E) noArrival s p := by
  cases p with
  | ret a => trivial
  | access op next => exact .now nofun (by cases op <;> rfl)

/-- What holds in front of the last round, and of the one before. -/
def Remaining (n : Nat) (s : State E) : Prop :=
  if n = 0 then ∀ b, (s.rx b).flag = false else ¬Stuck s

theorem variant_interrupt (events : List (CANEvent E)) :
    Variant (device E) noArrival (interrupt events) Remaining
      fun s => ∀ b, (s.rx b).flag = false where
  round {n s} h := by
    refine (reach_interrupt events s).mono fun a s' hafter => ?_
    have hs : ¬Stuck s := by
      rintro ⟨b, hflag, hid⟩
      rw [Remaining] at h
      split at h
      · rw [h b] at hflag
        cases hflag
      · exact h ⟨b, hflag, hid⟩
    cases a with
    | false => exact hafter.cleared hs
    | true =>
      have hn : n ≠ 0 := by
        rintro rfl
        have hnone : ∀ b, (s.rx b).flag = false := h
        have hany := hafter.1
        rw [hnone, hnone] at hany
        cases hany
      exact ⟨0, Nat.pos_of_ne_zero hn, hafter.cleared hs⟩
  stable := stable_rx fun rx => ∀ b, (rx b).flag = false

theorem ends_of_not_stuck {first : Driver E Bool} (hfirst : Reach (After s) first s)
    (h : ¬Stuck s) : Ends events first s := by
  have hstart : Within (device E) noArrival Remaining (fun s => ∀ b, (s.rx b).flag = false) 1 s
      (some first) := hfirst.mono fun a s' hafter => by
    cases a with
    | false => exact hafter.cleared h
    | true => exact ⟨0, Nat.one_pos, hafter.cleared h⟩
  refine ⟨1, fun ls s' t hrun => ?_⟩
  obtain ⟨m, hm, hwithin⟩ := (variant_interrupt events).run hstart hrun
  refine ⟨by omega, ?_, (variant_interrupt events).finishes canGoOn hwithin⟩
  rintro rfl
  exact hwithin

theorem not_ends_of_stuck {first : Driver E Bool} (hfirst : Reach (After s) first s)
    (h : Stuck s) : ¬Ends events first s := by
  rintro ⟨n, hends⟩
  obtain ⟨-, -, ms, s', hrun⟩ := hends [] s (some first) .nil
  have hround : ∀ s : State E, Stuck s →
      Reach (fun a s => a = true ∧ Stuck s) (interrupt events) s :=
    fun s hs => (reach_interrupt events s).mono fun a s' hafter => hafter.stuck hs
  exact never_ends hround (hfirst.mono fun a s' hafter => hafter.stuck h) hrun rfl

/-- The loops of the interrupt trigger and of the periodic task end if and only if no frame with the
identifier 0 waits in a buffer. -/
theorem loop_ends_iff (events : List (CANEvent E)) (s : State E) :
    (Ends events (interrupt events) s ↔
      ∀ b, (s.rx b).flag = true → (s.rx b).frame.id ≠ 0) ∧
    (Ends events (periodicTask events) s ↔
      ∀ b, (s.rx b).flag = true → (s.rx b).frame.id ≠ 0) := by
  have hstuck : (∀ b, (s.rx b).flag = true → (s.rx b).frame.id ≠ 0) ↔ ¬Stuck s := by
    simp [Stuck]
  rw [hstuck]
  refine ⟨⟨?_, ends_of_not_stuck (reach_interrupt events s)⟩,
    ⟨?_, ends_of_not_stuck (reach_periodicTask events s)⟩⟩
  · exact fun hends h => not_ends_of_stuck (reach_interrupt events s) h hends
  · exact fun hends h => not_ends_of_stuck (reach_periodicTask events s) h hends

/-- A frame with the identifier 0 in the first buffer. -/
theorem loop_never_ends :
    ¬Ends (E := Unit) [] (interrupt [])
      ⟨fun b => ⟨oneByte 0 0, !b, false⟩, .new, [oneByte 0 0], [], [], []⟩ :=
  not_ends_of_stuck (reach_interrupt [] _) ⟨false, rfl, rfl⟩

end CyPhOS.MCP2515SPI
