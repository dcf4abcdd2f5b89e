import CyPhOS.Lib.DeviceProgram
import CyPhOS.X86.ACPI

/-! # Starting the application processors

`startRegisteredAPs` runs on the boot processor and works on the hardware of `startUpDevice`: the
local APIC, which delivers the IPIs and keeps a history of them, and the processors that start and
confirm so in `mHoldingPen`. The outline `startRegisteredAPs_safe` says what is sent for any
numbering of the CPUs: an INIT and a STARTUP to each CPU but number 0. That these are the CPUs other
than the boot processor is right exactly if the boot processor is number 0, which is a matter of the
order of the table (`startRegisteredAPs_iff`).
-/

namespace CyPhOS

open DeviceProgram Transition

/-! ## Interprocessor interrupts -/

/-- The values of `MESSAGE_TYPE_t` that are sent. -/
inductive MessageType
  | init
  | startup
  deriving DecidableEq, Repr

/-- The fields of `APIC_ICR_REGISTER_LOW_t` that are set. `icrData` has no initializer; the fields
that the source never sets are taken to be 0. -/
structure IcrLow where
  messageType : MessageType
  destinationMode : Nat
  vector : Nat
  level : Nat
  triggerMode : Nat
  deriving DecidableEq, Repr

structure Ipi where
  destination : UInt8
  icr : IcrLow
  deriving DecidableEq, Repr

def initAssert (apicID : UInt8) : Ipi := ⟨apicID, ⟨.init, 0, 0x0, 1, 1⟩⟩

def initDeassert (apicID : UInt8) : Ipi := ⟨apicID, ⟨.init, 0, 0x0, 0, 1⟩⟩

def startupIpi (apicID : UInt8) : Ipi := ⟨apicID, ⟨.startup, 0, 0x40, 0x0, 0x0⟩⟩

/-! ## The program -/

inductive ApicOp
  | sendIPI (ipi : Ipi)
  | getIPIDeliveryStatus
  | awaitDelivery
  | awaitHoldingPen (cpu : Nat)
  deriving DecidableEq, Repr

def ApicOp.Res : ApicOp → Type
  | getIPIDeliveryStatus => Bool
  | _ => Unit

abbrev StartUp := Prog ApicOp ApicOp.Res

namespace SMPManager

def sendIPI (ipi : Ipi) : StartUp Unit := .access (.sendIPI ipi) .ret

def getIPIDeliveryStatus : StartUp Bool := .access .getIPIDeliveryStatus .ret

/-- `while (getIPIDeliveryStatus()) {}` -/
def awaitDelivery : StartUp Unit := .access .awaitDelivery .ret

/-- `while (mHoldingPen != cpu) {}` -/
def awaitHoldingPen (cpu : Nat) : StartUp Unit := .access (.awaitHoldingPen cpu) .ret

/-- The loop over `startupCount`, with the number of rounds that are left. -/
def sendStartup (apicID : UInt8) : Nat → StartUp Unit
  | 0 => pure ()
  | n + 1 => do
    sendIPI (startupIpi apicID)
    let status ← getIPIDeliveryStatus
    if status then sendStartup apicID n else pure ()

/-- The body of the loop of `startRegisteredAPs`. -/
def startAP (apicID : UInt8) (cpu : Nat) : StartUp Unit := do
  sendIPI (initAssert apicID)
  sendIPI (initDeassert apicID)
  awaitDelivery
  sendStartup apicID 2
  awaitHoldingPen cpu

variable {nrCpus : Nat}

def startAPs (m : SMPManager nrCpus) : List Nat → StartUp Unit
  | [] => pure ()
  | cpu :: cpus => do
    startAP (m.mAPICIDs cpu).apicID cpu
    startAPs m cpus

def startRegisteredAPs (m : SMPManager nrCpus) : StartUp Unit :=
  m.startAPs (List.range' 1 (min m.mRegisteredCPUs nrCpus - 1))

end SMPManager

/-! ## The hardware -/

/-- What an interprocessor interrupt makes of a processor. -/
inductive ApState
  | off
  | waiting
  | started
  | confirmed
  deriving DecidableEq, Repr

/-- The local APIC and the processors. The boot processor is `running` until it is reset. -/
structure SmpHardware where
  sent : List Ipi
  deliveryStatus : Bool
  aps : UInt8 → ApState
  mHoldingPen : Nat
  running : Bool

namespace SmpHardware

def initial : SmpHardware := ⟨[], false, fun _ => .off, 0, true⟩

/-- An INIT resets its destination, unless it is the message that ends it, and a STARTUP starts a
processor that has been reset. -/
def receive (h : SmpHardware) (bsp : UInt8) (ipi : Ipi) : SmpHardware :=
  match ipi.icr.messageType with
  | .init =>
    if ipi.icr.level = 0 then h
    else { h with
      aps := Function.update h.aps ipi.destination .waiting
      running := h.running && ipi.destination != bsp }
  | .startup =>
    if h.aps ipi.destination = .waiting then
      { h with aps := Function.update h.aps ipi.destination .started }
    else h

def sendIPI (h : SmpHardware) (bsp : UInt8) (ipi : Ipi) : SmpHardware :=
  { h.receive bsp ipi with sent := h.sent ++ [ipi], deliveryStatus := true }

inductive Event
  | deliver
  /-- The count of `confirmStartup` on the processor that has started. -/
  | confirmStartup (apicID : UInt8)
  deriving DecidableEq, Repr

def event : Event → SmpHardware → Option SmpHardware
  | .deliver, h => some { h with deliveryStatus := false }
  | .confirmStartup apicID, h =>
    if h.aps apicID = .started then
      some { h with
        aps := Function.update h.aps apicID .confirmed
        mHoldingPen := h.mHoldingPen + 1 }
    else none

def access (bsp : UInt8) : (op : ApicOp) → SmpHardware → Option (op.Res × SmpHardware)
  | .sendIPI ipi, h => if h.running then some ((), h.sendIPI bsp ipi) else none
  | .getIPIDeliveryStatus, h => if h.running then some (h.deliveryStatus, h) else none
  | .awaitDelivery, h => if h.running && !h.deliveryStatus then some ((), h) else none
  | .awaitHoldingPen cpu, h => if h.running && h.mHoldingPen == cpu then some ((), h) else none

end SmpHardware

/-- The hardware, started on the processor `bsp`. -/
def startUpDevice (bsp : UInt8) : Device SmpHardware ApicOp ApicOp.Res SmpHardware.Event where
  access := SmpHardware.access bsp
  event := SmpHardware.event

/-! ## What the program sends -/

/-- The messages that start processors, one after the other. The STARTUP is sent again if the first
one is not delivered at once. -/
inductive Starts : List UInt8 → List Ipi → Prop
  | nil : Starts [] []
  | snoc {ids : List UInt8} {sent : List Ipi} {a : UInt8} {n : Nat} : Starts ids sent →
    n = 1 ∨ n = 2 →
    Starts (ids ++ [a]) (sent ++ initAssert a :: initDeassert a :: List.replicate n (startupIpi a))

namespace StartUp

variable {bsp a : UInt8} {tail : List UInt8} {sent : List Ipi} {s s' : SmpHardware} {cpu : Nat}
  {own : ApState → Nat → Prop} {ipi : Ipi} {op : ApicOp}

/-- What holds at every point, unless one of the processors that are started is the boot
processor. -/
def Point (bsp : UInt8) (tail : List UInt8) (s : SmpHardware) (p : StartUp Unit) : Prop :=
  bsp ∉ tail → (∀ ipi ∈ s.sent, ipi.destination ∈ tail) ∧
    CanGoOn (startUpDevice bsp) Guard.any s p

abbrev Outline (bsp : UInt8) (tail : List UInt8) : StartUp Unit → SmpHardware → Prop :=
  Safe (startUpDevice bsp) Guard.any (Point bsp tail) fun _ s => Starts tail s.sent

/-- The round for the processor `a`, given what is known of its state and of `mHoldingPen`. -/
structure Round (bsp : UInt8) (tail : List UInt8) (a : UInt8) (own : ApState → Nat → Prop)
    (sent : List Ipi) (s : SmpHardware) : Prop where
  running : bsp ∉ tail → s.running = true
  others : ∀ b ≠ a, s.aps b ≠ .started
  own : own (s.aps a) s.mHoldingPen
  sent : s.sent = sent

/-- An AP that starts may confirm it at any time. -/
def Confirms (own : ApState → Nat → Prop) : Prop := ∀ n, own .started n → own .confirmed (n + 1)

def Before (cpu : Nat) (x : ApState) (n : Nat) : Prop := x ≠ .started ∧ n + 1 = cpu

def Waiting (cpu : Nat) (x : ApState) (n : Nat) : Prop := x = .waiting ∧ n + 1 = cpu

def Starting (cpu : Nat) (x : ApState) (n : Nat) : Prop :=
  x = .started ∧ n + 1 = cpu ∨ x = .confirmed ∧ n = cpu

theorem confirms_before : Confirms (Before cpu) := fun _ h => absurd rfl h.1

theorem confirms_waiting : Confirms (Waiting cpu) := fun _ h => nomatch h.1

theorem confirms_starting : Confirms (Starting cpu) := by
  rintro n (⟨-, h⟩ | ⟨h, -⟩)
  · exact .inr ⟨rfl, h⟩
  · cases h

theorem Round.stable (hown : Confirms own) {p : StartUp Unit} :
    Stable (startUpDevice bsp) Guard.any p (Round bsp tail a own sent) := by
  rintro s e s' h - he
  cases e with
  | deliver =>
    cases he
    exact ⟨h.running, h.others, h.own, h.sent⟩
  | confirmStartup b =>
    simp only [startUpDevice, SmpHardware.event] at he
    split at he
    · next hstarted =>
      cases he
      have hb : b = a := by
        by_contra hne
        exact h.others b hne hstarted
      subst hb
      refine ⟨h.running, fun c hc => ?_, ?_, h.sent⟩
      · simpa [hc] using h.others c hc
      · simpa using hown _ (hstarted ▸ h.own)
    · cases he

/-! What an access does that is not kept waiting. -/

theorem access_sendIPI {r : Unit}
    (h : (startUpDevice bsp).access (.sendIPI ipi) s = some (r, s')) :
    s' = s.sendIPI bsp ipi := by
  obtain ⟨-, h⟩ := Option.ite_none_right_eq_some.mp h
  exact (congrArg Prod.snd (Option.some.inj h)).symm

theorem access_getIPIDeliveryStatus {status : Bool}
    (h : (startUpDevice bsp).access .getIPIDeliveryStatus s = some (status, s')) : s' = s := by
  obtain ⟨-, h⟩ := Option.ite_none_right_eq_some.mp h
  exact (congrArg Prod.snd (Option.some.inj h)).symm

theorem access_awaitDelivery {r : Unit}
    (h : (startUpDevice bsp).access .awaitDelivery s = some (r, s')) : s' = s := by
  obtain ⟨-, h⟩ := Option.ite_none_right_eq_some.mp h
  exact (congrArg Prod.snd (Option.some.inj h)).symm

theorem access_awaitHoldingPen {r : Unit}
    (h : (startUpDevice bsp).access (.awaitHoldingPen cpu) s = some (r, s')) :
    s.mHoldingPen = cpu ∧ s' = s := by
  obtain ⟨hpen, h⟩ := Option.ite_none_right_eq_some.mp h
  simp only [Bool.and_eq_true, beq_iff_eq] at hpen
  exact ⟨hpen.2, (congrArg Prod.snd (Option.some.inj h)).symm⟩

/-- An access within a round. The program goes on unless it has reset its own processor. -/
theorem Round.access {next : op.Res → StartUp Unit} (h : Round bsp tail a own sent s)
    (hown : Confirms own) (hwithin : ∀ ipi ∈ sent, ipi.destination ∈ tail)
    (hgo : ∀ s, Round bsp tail a own sent s → s.running = true →
      CanGoOn (startUpDevice bsp) Guard.any s (.access op next))
    (hnext : ∀ s r s', Round bsp tail a own sent s → (startUpDevice bsp).access op s = some (r, s') →
      Outline bsp tail (next r) s') : Outline bsp tail (.access op next) s :=
  .access _ (stable hown) h
    (fun s h hbsp => ⟨h.sent ▸ hwithin, hgo s h (h.running hbsp)⟩)
    fun s r s' h _ haccess => hnext s r s' h haccess

theorem Round.sendIPI {next : Unit → StartUp Unit} (h : Round bsp tail a own sent s)
    (hown : Confirms own) (hwithin : ∀ ipi ∈ sent, ipi.destination ∈ tail)
    (hnext : ∀ s, Round bsp tail a own sent s → Outline bsp tail (next ()) (s.sendIPI bsp ipi)) :
    Outline bsp tail (.access (.sendIPI ipi) next) s := by
  refine h.access hown hwithin (fun s _ hrunning => ?_) fun s r s' h haccess => ?_
  · exact .now trivial (by simp [startUpDevice, SmpHardware.access, hrunning])
  · obtain rfl := access_sendIPI haccess
    exact hnext s h

theorem Round.getIPIDeliveryStatus {next : Bool → StartUp Unit} (h : Round bsp tail a own sent s)
    (hown : Confirms own) (hwithin : ∀ ipi ∈ sent, ipi.destination ∈ tail)
    (hnext : ∀ s status, Round bsp tail a own sent s → Outline bsp tail (next status) s) :
    Outline bsp tail (.access .getIPIDeliveryStatus next) s := by
  refine h.access hown hwithin (fun s _ hrunning => ?_) fun s r s' h haccess => ?_
  · exact .now trivial (by simp [startUpDevice, SmpHardware.access, hrunning])
  · obtain rfl := access_getIPIDeliveryStatus haccess
    exact hnext _ r h

theorem Round.awaitDelivery {next : Unit → StartUp Unit} (h : Round bsp tail a own sent s)
    (hown : Confirms own) (hwithin : ∀ ipi ∈ sent, ipi.destination ∈ tail)
    (hnext : ∀ s, Round bsp tail a own sent s → Outline bsp tail (next ()) s) :
    Outline bsp tail (.access .awaitDelivery next) s := by
  refine h.access hown hwithin (fun s _ hrunning => ?_) fun s r s' h haccess => ?_
  · -- the local APIC delivers what has been sent
    exact .event .deliver rfl trivial trivial (by simp [startUpDevice, SmpHardware.access, hrunning])
  · obtain rfl := access_awaitDelivery haccess
    exact hnext _ h

theorem Round.awaitHoldingPen {next : Unit → StartUp Unit}
    (h : Round bsp tail a (Starting cpu) sent s) (hwithin : ∀ ipi ∈ sent, ipi.destination ∈ tail)
    (hnext : ∀ s, Round bsp tail a (Starting cpu) sent s → s.mHoldingPen = cpu →
      Outline bsp tail (next ()) s) :
    Outline bsp tail (.access (.awaitHoldingPen cpu) next) s := by
  refine h.access confirms_starting hwithin (fun s h hrunning => ?_) fun s r s' h haccess => ?_
  · rcases h.own with ⟨hstarted, hpen⟩ | ⟨-, hpen⟩
    · -- the processor confirms that it has started
      refine .event (.confirmStartup a) (if_pos hstarted) trivial trivial ?_
      simp [startUpDevice, SmpHardware.access, hrunning, hpen]
    · exact .now trivial (by simp [startUpDevice, SmpHardware.access, hrunning, hpen])
  · obtain ⟨hpen, rfl⟩ := access_awaitHoldingPen haccess
    exact hnext _ h hpen

/-! ## The rounds -/

theorem Round.initAssert (h : Round bsp tail a (Before cpu) sent s) (ha : a ∈ tail) :
    Round bsp tail a (Waiting cpu) (sent ++ [initAssert a]) (s.sendIPI bsp (initAssert a)) := by
  refine ⟨fun hbsp => ?_, fun b hb => ?_, ⟨?_, h.own.2⟩, congrArg (· ++ _) h.sent⟩
  · have hne : a ≠ bsp := fun heq => hbsp (heq ▸ ha)
    simp [SmpHardware.sendIPI, SmpHardware.receive, CyPhOS.initAssert, h.running hbsp, hne]
  · simpa [SmpHardware.sendIPI, SmpHardware.receive, CyPhOS.initAssert, hb] using h.others b hb
  · simp [SmpHardware.sendIPI, SmpHardware.receive, CyPhOS.initAssert]

theorem Round.initDeassert (h : Round bsp tail a own sent s) :
    Round bsp tail a own (sent ++ [initDeassert a]) (s.sendIPI bsp (initDeassert a)) :=
  ⟨h.running, h.others, h.own, congrArg (· ++ _) h.sent⟩

theorem Round.startup (h : Round bsp tail a (Waiting cpu) sent s) :
    Round bsp tail a (Starting cpu) (sent ++ [startupIpi a]) (s.sendIPI bsp (startupIpi a)) := by
  have hstate : s.sendIPI bsp (startupIpi a) = { s with
      sent := s.sent ++ [startupIpi a]
      deliveryStatus := true
      aps := Function.update s.aps a .started } := by
    simp [SmpHardware.sendIPI, SmpHardware.receive, startupIpi, h.own.1]
  rw [hstate]
  refine ⟨h.running, fun b hb => ?_, .inl ⟨?_, h.own.2⟩, congrArg (· ++ _) h.sent⟩
  · simpa [hb] using h.others b hb
  · simp

/-- A second STARTUP has no effect. -/
theorem Round.startupAgain (h : Round bsp tail a (Starting cpu) sent s) :
    Round bsp tail a (Starting cpu) (sent ++ [startupIpi a]) (s.sendIPI bsp (startupIpi a)) := by
  have hstate : s.sendIPI bsp (startupIpi a) =
      { s with sent := s.sent ++ [startupIpi a], deliveryStatus := true } := by
    have hne : s.aps a ≠ .waiting := by
      rcases h.own with ⟨hstate, -⟩ | ⟨hstate, -⟩ <;> simp [hstate]
    simp [SmpHardware.sendIPI, SmpHardware.receive, startupIpi, hne]
  rw [hstate]
  exact ⟨h.running, h.others, h.own, congrArg (· ++ _) h.sent⟩

theorem within_append {l : List Ipi} (hwithin : ∀ ipi ∈ sent, ipi.destination ∈ tail)
    (hl : ∀ ipi ∈ l, ipi.destination ∈ tail) : ∀ ipi ∈ sent ++ l, ipi.destination ∈ tail :=
  fun ipi hipi => (List.mem_append.mp hipi).elim (hwithin ipi) (hl ipi)

theorem safe_sendStartup {f : Unit → StartUp Unit} (h : Round bsp tail a (Waiting cpu) sent s)
    (ha : a ∈ tail) (hwithin : ∀ ipi ∈ sent, ipi.destination ∈ tail)
    (hf : ∀ s n, n = 1 ∨ n = 2 →
      Round bsp tail a (Starting cpu) (sent ++ List.replicate n (startupIpi a)) s →
      Outline bsp tail (f ()) s) :
    Outline bsp tail (SMPManager.sendStartup a 2 >>= f) s := by
  have hwithin₁ : ∀ ipi ∈ sent ++ [startupIpi a], ipi.destination ∈ tail :=
    within_append hwithin (by simpa [startupIpi] using ha)
  refine h.sendIPI confirms_waiting hwithin fun s h => ?_
  refine h.startup.getIPIDeliveryStatus confirms_starting hwithin₁ fun s status h => ?_
  cases status with
  | false => exact hf s 1 (.inl rfl) h
  | true =>
    have hwithin₂ : ∀ ipi ∈ sent ++ List.replicate 2 (startupIpi a), ipi.destination ∈ tail :=
      within_append hwithin (by simpa [startupIpi] using ha)
    refine h.sendIPI confirms_starting hwithin₁ fun s h => ?_
    have h₂ := h.startupAgain
    rw [List.append_assoc] at h₂
    refine h₂.getIPIDeliveryStatus confirms_starting hwithin₂ fun s status h => ?_
    cases status <;> exact hf s 2 (.inr rfl) h

theorem safe_startAP {f : Unit → StartUp Unit} (h : Round bsp tail a (Before cpu) sent s)
    (ha : a ∈ tail) (hwithin : ∀ ipi ∈ sent, ipi.destination ∈ tail)
    (hf : ∀ s n, n = 1 ∨ n = 2 → s.mHoldingPen = cpu →
      Round bsp tail a (Starting cpu)
        (sent ++ initAssert a :: initDeassert a :: List.replicate n (startupIpi a)) s →
      Outline bsp tail (f ()) s) :
    Outline bsp tail (SMPManager.startAP a cpu >>= f) s := by
  have hwithin₁ : ∀ ipi ∈ sent ++ [initAssert a], ipi.destination ∈ tail :=
    within_append hwithin (by simpa [initAssert] using ha)
  have hwithin₂ : ∀ ipi ∈ sent ++ [initAssert a] ++ [initDeassert a], ipi.destination ∈ tail :=
    within_append hwithin₁ (by simpa [initDeassert] using ha)
  rw [SMPManager.startAP]
  refine h.sendIPI confirms_before hwithin fun s h => ?_
  refine (h.initAssert ha).sendIPI confirms_waiting hwithin₁ fun s h => ?_
  refine h.initDeassert.awaitDelivery confirms_waiting hwithin₂ fun s h => ?_
  show Outline bsp tail
    ((SMPManager.sendStartup a 2 >>= fun _ => SMPManager.awaitHoldingPen cpu) >>= f) s
  rw [Prog.bind_assoc]
  refine safe_sendStartup h ha hwithin₂ fun s n hn h => ?_
  have hwithin₃ := within_append (l := List.replicate n (startupIpi a)) hwithin₂
    fun ipi hipi => (List.eq_of_mem_replicate hipi) ▸ ha
  refine h.awaitHoldingPen hwithin₃ fun s h hpen => hf s n hn hpen ?_
  simpa using h

/-- After its round a processor is like any other, and the next number is at hand. -/
theorem Round.finished (h : Round bsp tail a (Starting cpu) sent s) (hpen : s.mHoldingPen = cpu)
    (b : UInt8) : Round bsp tail b (Before (cpu + 1)) sent s := by
  have hstate : s.aps a ≠ .started := by
    rcases h.own with ⟨-, hpen'⟩ | ⟨hstate, -⟩
    · omega
    · simp [hstate]
  have hothers : ∀ c, s.aps c ≠ .started := fun c => by
    rcases eq_or_ne c a with rfl | hne
    · exact hstate
    · exact h.others c hne
  exact ⟨h.running, fun c _ => hothers c, ⟨hothers b, by omega⟩, h.sent⟩

variable {nrCpus : Nat} {m : SMPManager nrCpus}

theorem safe_startAPs {started todo : List UInt8} (htail : tail = started ++ todo)
    (hentry : ∀ (i : Nat) (hi : i < todo.length), (m.mAPICIDs (cpu + i)).apicID = todo[i])
    (hwithin : ∀ ipi ∈ sent, ipi.destination ∈ tail) (hstarts : Starts started sent)
    (h : ∀ b, Round bsp tail b (Before cpu) sent s) :
    Outline bsp tail (m.startAPs (List.range' cpu todo.length)) s := by
  induction todo generalizing cpu started sent s with
  | nil =>
    refine .ret _ (Round.stable confirms_before) (h 0) fun s h => ⟨fun _ => ⟨?_, trivial⟩, ?_⟩
    · rw [h.sent]
      exact hwithin
    · rw [h.sent, htail, List.append_nil]
      exact hstarts
  | cons a todo ih =>
    have ha : a ∈ tail := by simp [htail]
    have hcpu : (m.mAPICIDs cpu).apicID = a := hentry 0 (Nat.succ_pos _)
    rw [List.length_cons, List.range'_succ, SMPManager.startAPs, hcpu]
    refine safe_startAP (h a) ha hwithin fun s n hn hpen h => ?_
    have htail' : tail = (started ++ [a]) ++ todo := by simp [htail]
    refine ih htail' (fun i hi => ?_) ?_ (hstarts.snoc hn) (h.finished hpen)
    · have := hentry (i + 1) (Nat.succ_lt_succ hi)
      rwa [List.getElem_cons_succ, ← Nat.add_assoc, Nat.add_right_comm] at this
    · refine within_append hwithin fun ipi hipi => ?_
      rcases List.mem_cons.mp hipi with rfl | hipi
      · exact ha
      · rcases List.mem_cons.mp hipi with rfl | hipi
        · exact ha
        · exact (List.eq_of_mem_replicate hipi) ▸ ha

/-- What `startRegisteredAPs` sends, whichever processor it runs on. -/
theorem startRegisteredAPs_safe (bsp : UInt8) {ids : List UInt8} (h : m.Registers ids) :
    Outline bsp ids.tail m.startRegisteredAPs .initial := by
  have hcount : min m.mRegisteredCPUs nrCpus - 1 = ids.tail.length := by
    rw [Nat.min_eq_left m.le, h.count, List.length_tail]
  rw [SMPManager.startRegisteredAPs, hcount]
  refine safe_startAPs (List.nil_append _).symm (fun i hi => ?_) (by simp) .nil fun b => ?_
  · have hlt : 1 + i < ids.length := by
      rw [List.length_tail] at hi
      omega
    rw [h.entry (1 + i) hlt, List.getElem_tail]
    congr 1
    omega
  · exact ⟨fun _ => rfl, fun _ _ => nofun, ⟨nofun, rfl⟩, rfl⟩

end StartUp

/-! ## The boot processor -/

/-- What starting the application processors promises. -/
structure StartsOthers {nrCpus : Nat} (m : SMPManager nrCpus) (bsp : UInt8) : Prop where
  /-- Every IPI goes to a registered CPU other than the boot processor. -/
  only : ∀ ls s p, Run (Guarded (startUpDevice bsp) Guard.any) (.initial, m.startRegisteredAPs) ls
    (s, p) → ∀ ipi ∈ s.sent, ∃ cpu < m.mRegisteredCPUs,
      ipi.destination = (m.mAPICIDs cpu).apicID ∧ ipi.destination ≠ bsp
  /-- Each of these is sent the INIT and then the STARTUP, once or twice, and nothing else. -/
  each : ∀ ls s, Run (Guarded (startUpDevice bsp) Guard.any) (.initial, m.startRegisteredAPs) ls
    (s, .ret ()) → ∀ cpu < m.mRegisteredCPUs, (m.mAPICIDs cpu).apicID ≠ bsp →
      ∃ n, (n = 1 ∨ n = 2) ∧
        s.sent.filter (·.destination = (m.mAPICIDs cpu).apicID) =
          initAssert (m.mAPICIDs cpu).apicID :: initDeassert (m.mAPICIDs cpu).apicID ::
            List.replicate n (startupIpi (m.mAPICIDs cpu).apicID)
  /-- The call can be brought to its end from wherever it is. -/
  returns : ∀ ls s p, Run (Guarded (startUpDevice bsp) Guard.any) (.initial, m.startRegisteredAPs)
    ls (s, p) → ∃ ls' s', Run (Guarded (startUpDevice bsp) Guard.any) (s, p) ls' (s', .ret ())

section
variable {ids : List UInt8} {sent : List Ipi} {a b : UInt8} {n : Nat}

theorem Starts.destination (h : Starts ids sent) : ∀ ipi ∈ sent, ipi.destination ∈ ids := by
  induction h with
  | nil => simp
  | @snoc ids sent a n _ _ ih =>
    intro ipi hipi
    rcases List.mem_append.mp hipi with hipi | hipi
    · exact List.mem_append_left _ (ih ipi hipi)
    · refine List.mem_append_right _ (List.mem_singleton.mpr ?_)
      rcases List.mem_cons.mp hipi with rfl | hipi
      · rfl
      · rcases List.mem_cons.mp hipi with rfl | hipi
        · rfl
        · rw [List.eq_of_mem_replicate hipi]
          rfl

theorem filter_round : (initAssert b :: initDeassert b :: List.replicate n (startupIpi b)).filter
    (·.destination = a) =
      if b = a then initAssert b :: initDeassert b :: List.replicate n (startupIpi b) else [] := by
  split
  · next h => simp [initAssert, initDeassert, startupIpi, h]
  · next h => simp [initAssert, initDeassert, startupIpi, h]

theorem Starts.filter (h : Starts ids sent) (hnodup : ids.Nodup) (ha : a ∈ ids) :
    ∃ n, (n = 1 ∨ n = 2) ∧ sent.filter (·.destination = a) =
      initAssert a :: initDeassert a :: List.replicate n (startupIpi a) := by
  induction h with
  | nil => cases ha
  | @snoc ids sent b n h hn ih =>
    obtain ⟨hnodup, -, hnew⟩ := List.nodup_append.mp hnodup
    rw [List.filter_append, filter_round]
    rcases List.mem_append.mp ha with ha | ha
    · have hne : b ≠ a := fun heq => hnew a ha b (by simp) heq.symm
      rw [if_neg hne, List.append_nil]
      exact ih hnodup ha
    · obtain rfl := List.mem_singleton.mp ha
      have hnone : sent.filter (·.destination = a) = [] := by
        refine List.filter_eq_nil_iff.mpr fun ipi hipi hdest => ?_
        have hmem := h.destination ipi hipi
        rw [of_decide_eq_true hdest] at hmem
        exact hnew a hmem a (by simp) rfl
      exact ⟨n, hn, by rw [hnone, if_pos rfl, List.nil_append]⟩

end

section
variable {nrCpus : Nat} {m : SMPManager nrCpus} {bsp first : UInt8} {rest : List UInt8}

/-- The right CPUs are started if the boot processor is CPU number 0. -/
theorem SMPManager.Registers.startsOthers (h : m.Registers (bsp :: rest))
    (hnodup : (bsp :: rest).Nodup) : StartsOthers m bsp := by
  obtain ⟨hbsp, hrest⟩ := List.nodup_cons.mp hnodup
  have hsafe := StartUp.startRegisteredAPs_safe bsp h
  refine ⟨fun ls s p hrun ipi hipi => ?_, fun ls s hrun cpu hcpu hne => ?_, fun ls s p hrun => ?_⟩
  · have hdest : ipi.destination ∈ rest := ((hsafe.run hrun).point hbsp).1 ipi hipi
    obtain ⟨i, hi, heq⟩ := List.getElem_of_mem hdest
    refine ⟨i + 1, by rw [h.count]; simpa using hi, ?_, fun heq => hbsp (heq ▸ hdest)⟩
    rw [h.entry (i + 1) (by simpa using hi), List.getElem_cons_succ, heq]
  · rw [h.count] at hcpu
    have hmem : (m.mAPICIDs cpu).apicID ∈ rest := by
      have := List.getElem_mem hcpu
      rw [h.entry cpu hcpu] at hne ⊢
      exact (List.mem_cons.mp this).resolve_left hne
    exact (hsafe.run hrun).post.filter hrest hmem
  · obtain ⟨ls', a, s', hrun', -⟩ := (hsafe.run hrun).completes fun s p hpoint => (hpoint hbsp).2
    exact ⟨ls', s', hrun'⟩

/-- In any other order they are not. -/
theorem SMPManager.Registers.not_startsOthers (h : m.Registers (first :: rest))
    (hnodup : (first :: rest).Nodup) (hne : first ≠ bsp) : ¬ StartsOthers m bsp := by
  obtain ⟨hfirst, -⟩ := List.nodup_cons.mp hnodup
  have hsafe := StartUp.startRegisteredAPs_safe bsp h
  intro hstarts
  obtain ⟨ls, s, hrun⟩ := hstarts.returns [] _ _ .nil
  have hcount : 0 < m.mRegisteredCPUs := h.count ▸ Nat.succ_pos _
  have hentry : (m.mAPICIDs 0).apicID = first := h.entry 0 (Nat.succ_pos _)
  -- number 0 is an application processor, and is sent nothing
  obtain ⟨n, hn, hfilter⟩ := hstarts.each ls s hrun 0 hcount (hentry ▸ hne)
  have hmem : initAssert first ∈ s.sent := by
    rw [hentry] at hfilter
    exact (List.mem_filter.mp (hfilter ▸ List.mem_cons_self)).1
  exact hfirst ((hsafe.run hrun).post.destination _ hmem)

end

open ACPI in
/-- For a table of any CPUs, the right ones are started exactly if the first enabled local APIC of the
table is the boot processor's. -/
theorem startRegisteredAPs_iff {nrCpus : Nat} (hnrCpus : 0 < nrCpus) {mem : Memory} {mMADT : Nat}
    {entries : List Nat} (htable : Tiles mem (mMADT + 44) (mMADT + madtLength mem mMADT) entries)
    (hdistinct : (enabledApicIDs mem entries).Nodup) {bsp : UInt8}
    (hbsp : bsp ∈ enabledApicIDs mem entries) :
    ∃ P : Platform nrCpus,
      (∀ fuel ≥ entries.length, initMADT mem mMADT fuel (.new nrCpus) = .ok P) ∧
      ((StartsOthers P.smp bsp ∧ P.smp.NumbersCpus) ↔
        (enabledApicIDs mem entries).head? = some bsp) := by
  have hentries : entries ≠ [] := by
    rintro rfl
    cases hbsp
  refine ⟨entries.foldl (registerEntry mem) (.new nrCpus),
    fun fuel hfuel => initMADT_eq htable hentries hfuel, ?_⟩
  have hregisters : (entries.foldl (registerEntry mem) (Platform.new nrCpus)).smp.Registers
      ((enabledApicIDs mem entries).take nrCpus) := registers_initMADT hdistinct
  obtain ⟨n, rfl⟩ : ∃ n, nrCpus = n + 1 := ⟨nrCpus - 1, by omega⟩
  cases hids : enabledApicIDs mem entries with
  | nil =>
    rw [hids] at hbsp
    cases hbsp
  | cons first rest =>
    have hnodup : (first :: rest.take n).Nodup :=
      (hids ▸ hdistinct).sublist (List.take_sublist (n + 1) (first :: rest))
    rw [hids, List.take_succ_cons] at hregisters
    rw [List.head?_cons, Option.some_inj]
    constructor
    · rintro ⟨hstarts, -⟩
      by_contra hne
      exact hregisters.not_startsOthers hnodup hne hstarts
    · rintro rfl
      exact ⟨hregisters.startsOthers hnodup, hregisters.numbersCpus⟩

/-! ## Two tables -/

/-- An MADT at 0x1000 of the local APICs with these identifiers, all enabled. -/
def tableOf (ids : List UInt8) : Memory := fun a =>
  ([0x41, 0x50, 0x49, 0x43, UInt8.ofNat (44 + 8 * ids.length)] ++ List.replicate 39 0 ++
    ids.flatMap fun id => [0, 8, id, id, 1, 0, 0, 0]).getD (a - 0x1000) 0

theorem tiles_tableOf_zero_one : ACPI.Tiles (tableOf [0, 1]) (0x1000 + 44)
    (0x1000 + ACPI.madtLength (tableOf [0, 1]) 0x1000) [0x102c, 0x1034] :=
  .cons (by decide) (.cons (by decide) .nil)

theorem tiles_tableOf_one_zero : ACPI.Tiles (tableOf [1, 0]) (0x1000 + 44)
    (0x1000 + ACPI.madtLength (tableOf [1, 0]) 0x1000) [0x102c, 0x1034] :=
  .cons (by decide) (.cons (by decide) .nil)

/-- The first message resets CPU number 1. -/
theorem SMPManager.Registers.startRegisteredAPs_eq {nrCpus : Nat} {m : SMPManager nrCpus}
    {first a : UInt8} {rest : List UInt8} (h : m.Registers (first :: a :: rest)) :
    ∃ next, m.startRegisteredAPs = .access (.sendIPI (initAssert a)) next := by
  have hcount : min m.mRegisteredCPUs nrCpus - 1 = rest.length + 1 := by
    rw [Nat.min_eq_left m.le, h.count]
    rfl
  have hentry : (m.mAPICIDs 1).apicID = a := h.entry 1 (by simp)
  rw [SMPManager.startRegisteredAPs, hcount, List.range'_succ, SMPManager.startAPs, hentry]
  exact ⟨_, rfl⟩

open ACPI in
/-- With the boot processor in second place it resets itself. -/
theorem startRegisteredAPs_resets_bsp : ∃ (entries : List Nat) (P : Platform 4)
    (ls : List (Label ApicOp SmpHardware.Event)) (s : SmpHardware) (p : StartUp Unit),
    Tiles (tableOf [0, 1]) (0x1000 + 44) (0x1000 + madtLength (tableOf [0, 1]) 0x1000) entries ∧
      enabledApicIDs (tableOf [0, 1]) entries = [0, 1] ∧
      initMADT (tableOf [0, 1]) 0x1000 2 (.new 4) = .ok P ∧
      Run (Guarded (startUpDevice 1) Guard.any) (.initial, P.smp.startRegisteredAPs) ls (s, p) ∧
      initAssert 1 ∈ s.sent := by
  have htable := tiles_tableOf_zero_one
  have hids : enabledApicIDs (tableOf [0, 1]) [0x102c, 0x1034] = [0, 1] := by decide
  have hregisters : ([0x102c, 0x1034].foldl (registerEntry (tableOf [0, 1])) (.new 4)).smp.Registers
      [0, 1] := by
    have hdistinct : (enabledApicIDs (tableOf [0, 1]) [0x102c, 0x1034]).Nodup := by decide
    exact hids ▸ registers_initMADT hdistinct
  obtain ⟨next, hprogram⟩ := hregisters.startRegisteredAPs_eq
  refine ⟨_, _, [.access (.sendIPI (initAssert 1))], SmpHardware.initial.sendIPI 1 (initAssert 1),
    next (), htable, hids, initMADT_eq htable (by simp) (Nat.le_refl _), ?_, List.mem_singleton_self _⟩
  rw [hprogram]
  exact .single ⟨.access rfl, trivial⟩

open ACPI in
theorem startRegisteredAPs_iff_two : ∃ P : Platform 4,
    (∀ fuel ≥ 2, initMADT (tableOf [1, 0]) 0x1000 fuel (.new 4) = .ok P) ∧
    ((StartsOthers P.smp 1 ∧ P.smp.NumbersCpus) ↔
      (enabledApicIDs (tableOf [1, 0]) [0x102c, 0x1034]).head? = some 1) :=
  startRegisteredAPs_iff (by decide) tiles_tableOf_one_zero (by decide) (by decide)

end CyPhOS
