import Mathlib.Algebra.GroupWithZero.Nat
import CyPhOS.Kernel.Subscriptions

/-! # The pool of CAN events

`activateCANEvent` takes an event out of the pool and `deactivateCANEvent` puts it back. Each event
of the pool is in exactly one of the two queues after any history of calls (`exists_pool`). Its
subscribers stay when it goes back: if it has none then, and only events that are in use are
subscribed to, an event comes out of the pool without subscribers, and a frame is delivered to the
triggers that have been subscribed since (`canEvents_run`).
-/

namespace CyPhOS

open LinkedList Transition

variable {n m : Nat} {O S R : Type}

/-- The size of `mEventPool`. -/
def cEventPoolSize : Nat := 16

instance : NeZero cEventPoolSize := ⟨by decide⟩

/-- An element of `mEventPool`. -/
abbrev CanEvent : Type := Fin cEventPoolSize

inductive CanQueue
  | mRegisteredEvents
  | mUnregisteredEvents
  deriving DecidableEq

/-- The kernel with the driver's events, which are among those that can be subscribed to. -/
structure CanSystem (n m : Nat) (S R : Type) where
  kernel : Kernel n m (CanEvent ⊕ S) R
  eventLinks : QueueElements CanEvent
  queues : CanQueue → Queue CanEvent
  messageID : CanEvent → UInt16

namespace CanSystem

/-! ## The driver -/

/-- Put back a queue that an operation has changed. -/
def setQueue (s : CanSystem n m S R) (q : CanQueue) (eventLinks : QueueElements CanEvent)
    (queue : Queue CanEvent) : CanSystem n m S R :=
  { s with eventLinks, queues := Function.update s.queues q queue }

def activateCANEvent (s : CanSystem n m S R) (messageID : UInt16) :
    Exec (Option CanEvent × CanSystem n m S R) := do
  let (retVal, links, queue) ← (s.queues .mUnregisteredEvents).dequeueFirst s.eventLinks
  let s := s.setQueue .mUnregisteredEvents links queue
  match retVal with
  | none => pure (none, s)
  | some event =>
    let s := { s with messageID := Function.update s.messageID event messageID }
    let (links, queue) ← (s.queues .mRegisteredEvents).enqueue s.eventLinks event
    pure (some event, s.setQueue .mRegisteredEvents links queue)

def deactivateCANEvent (s : CanSystem n m S R) (event : CanEvent) :
    Exec (CanSystem n m S R) := do
  let (links, queue) ← (s.queues .mRegisteredEvents).remove s.eventLinks event
  let s := s.setQueue .mRegisteredEvents links queue
  let (links, queue) ← (s.queues .mUnregisteredEvents).enqueue s.eventLinks event
  pure (s.setQueue .mUnregisteredEvents links queue)

/-- The loop of `emitCANEvent` from an event on. `line` is what `enterMsg` returns for each
event. -/
def emitEvents [Fintype R] (c : Configuration O (CanEvent ⊕ S) R) (s : CanSystem n m S R)
    (messageID : UInt16) (line : CanEvent → UInt32) : Nat → Option CanEvent →
    Kernel n m (CanEvent ⊕ S) R → Bool → Exec (Bool × Kernel n m (CanEvent ⊕ S) R)
  | _, none, kernel, success => pure (success, kernel)
  | 0, some _, _, _ => .error .hang
  | fuel + 1, some event, kernel, success =>
    if s.messageID event = messageID then do
      let system ← kernel.machine.system.eventTriggered c.program (.event (.inl event)) (line event)
      emitEvents c s messageID line fuel (s.eventLinks.pNext event)
        { kernel with tasks := system.tasks } true
    else emitEvents c s messageID line fuel (s.eventLinks.pNext event) kernel success

def emitCANEvent [Fintype R] (c : Configuration O (CanEvent ⊕ S) R) (s : CanSystem n m S R)
    (messageID : UInt16) (line : CanEvent → UInt32) :
    Exec (Bool × Kernel n m (CanEvent ⊕ S) R) :=
  emitEvents c s messageID line cEventPoolSize (s.queues .mRegisteredEvents).pHead s.kernel false

/-- The constructors, in zeroed storage. -/
def boot (mTimerInterval : Nat) : Exec (CanSystem n m S R) := do
  let kernel ← Kernel.boot mTimerInterval
  let (eventLinks, mUnregisteredEvents) ←
    Queue.new.enqueueAll QueueElements.zeroed (List.finRange cEventPoolSize)
  let queues : CanQueue → Queue CanEvent
    | .mRegisteredEvents => Queue.new
    | .mUnregisteredEvents => mUnregisteredEvents
  pure { kernel, eventLinks, queues, messageID := fun _ => 0 }

/-- The event is in the list of the registered events. -/
def Active (s : CanSystem n m S R) (event : CanEvent) : Prop :=
  (s.queues .mRegisteredEvents).find s.eventLinks (· == event) = .ok (some event)

end CanSystem

/-! ## Steps -/

inductive CanOp (n m : Nat) (S R : Type)
  | kernel (op : KernelOp n m (CanEvent ⊕ S) R)
  | activateCANEvent (messageID : UInt16) (returned : Option CanEvent)
  | deactivateCANEvent (event : CanEvent)

inductive CanStep [DecidableEq O] [DecidableEq S] [DecidableEq R] [Fintype R]
    (c : Configuration O (CanEvent ⊕ S) R) :
    CanSystem n m S R → CanOp n m S R → CanSystem n m S R → Prop
  | kernel {s op k} (hcall : KernelStep c s.kernel op k) :
      CanStep c s (.kernel op) { s with kernel := k }
  | activateCANEvent {s messageID returned s'}
      (hcall : s.activateCANEvent messageID = .ok (returned, s')) :
      CanStep c s (.activateCANEvent messageID returned) s'
  | deactivateCANEvent {s event s'} (hcall : s.deactivateCANEvent event = .ok s') :
      CanStep c s (.deactivateCANEvent event) s'

namespace CanOp

/-- The calls of the kernel in a history. -/
def kernelOps (ops : List (CanOp n m S R)) : List (KernelOp n m (CanEvent ⊕ S) R) :=
  ops.filterMap fun
    | .kernel op => some op
    | _ => none

variable [DecidableEq S] [DecidableEq R]

/-- The subscribers of each event after one more call. Those of a CAN event that is activated count
from then on. -/
def record (lists : Event m (CanEvent ⊕ S) → List R) :
    CanOp n m S R → Event m (CanEvent ⊕ S) → List R
  | .kernel op => op.change.apply lists
  | .activateCANEvent _ (some event) => Function.update lists (.event (.inl event)) []
  | _ => lists

/-- The triggers that have been subscribed to each event, to a CAN event since its activation. -/
def since (ops : List (CanOp n m S R)) : Event m (CanEvent ⊕ S) → List R :=
  ops.foldl record fun _ => []

theorem since_snoc (ops : List (CanOp n m S R)) (op : CanOp n m S R) :
    since (ops ++ [op]) = op.record (since ops) := by
  simp [since]

end CanOp

/-- Only active events are subscribed to, and an event is deactivated when it has no subscribers. -/
def CanSystem.Clean (s : CanSystem n m S R) : CanOp n m S R → Prop
  | .kernel (.subscribeEvent (.event (.inl event)) _) => s.Active event
  | .deactivateCANEvent event => (s.kernel.subscribers (.event (.inl event))).pSize = 0
  | _ => True

namespace CanSystem

/-! ## The pool -/

/-- The queues are these lists, and each event is in exactly one of them. -/
structure Pool (s : CanSystem n m S R) (lists : CanQueue → List CanEvent) : Prop where
  family : Queue.Family s.eventLinks s.queues lists
  cover : ∀ event, event ∈ lists .mRegisteredEvents ∨ event ∈ lists .mUnregisteredEvents

variable {s s' : CanSystem n m S R} {lists : CanQueue → List CanEvent} {event : CanEvent}

theorem Pool.disjoint (h : s.Pool lists) (hreg : event ∈ lists .mRegisteredEvents) :
    event ∉ lists .mUnregisteredEvents :=
  fun hunreg => nomatch h.family.disjoint _ _ event hreg hunreg

theorem Pool.active_iff (h : s.Pool lists) :
    s.Active event ↔ event ∈ lists .mRegisteredEvents := by
  have hrep := h.family.rep .mRegisteredEvents
  constructor
  · intro hactive
    rw [Active, hrep.find] at hactive
    exact List.mem_of_find?_eq_some (Except.ok.inj hactive)
  · exact fun hmem => hrep.find_mem hmem

/-- With an empty pool nothing is activated. -/
theorem Pool.activateCANEvent_nil (h : s.Pool lists) (hlist : lists .mUnregisteredEvents = [])
    (messageID : UInt16) : s.activateCANEvent messageID = .ok (none, s) := by
  have hrep := h.family.rep .mUnregisteredEvents
  rw [hlist] at hrep
  simp [activateCANEvent, hrep.dequeueFirst_nil, setQueue]

/-- The lists after the first event of the pool has been activated. -/
def activated (lists : CanQueue → List CanEvent) (event : CanEvent) (rest : List CanEvent) :
    CanQueue → List CanEvent
  | .mRegisteredEvents => lists .mRegisteredEvents ++ [event]
  | .mUnregisteredEvents => rest

/-- The lists after an event has been deactivated. One that is in the pool already stays there. -/
def deactivated (lists : CanQueue → List CanEvent) (event : CanEvent) : CanQueue → List CanEvent
  | .mRegisteredEvents => (lists .mRegisteredEvents).erase event
  | .mUnregisteredEvents =>
    if event ∈ lists .mUnregisteredEvents then lists .mUnregisteredEvents
    else lists .mUnregisteredEvents ++ [event]

theorem Pool.activateCANEvent_cons {rest : List CanEvent} (h : s.Pool lists)
    (hlist : lists .mUnregisteredEvents = event :: rest) (messageID : UInt16) :
    ∃ s', s.activateCANEvent messageID = .ok (some event, s') ∧
      s'.Pool (activated lists event rest) ∧ s'.kernel = s.kernel := by
  have hnotin : event ∉ rest :=
    (List.nodup_cons.mp (hlist ▸ (h.family.rep .mUnregisteredEvents).nodup)).1
  have hother : event ∉ lists .mRegisteredEvents := fun hreg => h.disjoint hreg (by simp [hlist])
  obtain ⟨links, queue, hdequeue, hfam⟩ := h.family.dequeueFirst_cons hlist
  have hnone : ∀ q, event ∉ Function.update lists .mUnregisteredEvents rest q := by
    intro q
    cases q with
    | mRegisteredEvents => simpa using hother
    | mUnregisteredEvents => simpa using hnotin
  obtain ⟨links', queue', henqueue, hfam'⟩ := hfam.enqueue hnone .mRegisteredEvents
  have hlists : Function.update (Function.update lists .mUnregisteredEvents rest)
      .mRegisteredEvents (Function.update lists .mUnregisteredEvents rest .mRegisteredEvents ++
        [event]) = activated lists event rest := by
    funext q
    cases q <;> simp [activated]
  rw [hlists] at hfam'
  refine ⟨_, Exec.bind_eq_ok.mpr ⟨_, hdequeue, Exec.bind_eq_ok.mpr ⟨_, henqueue, rfl⟩⟩,
    ⟨hfam', fun event' => ?_⟩, rfl⟩
  rcases h.cover event' with hreg | hunreg
  · exact .inl (List.mem_append_left _ hreg)
  · rw [hlist] at hunreg
    rcases List.mem_cons.mp hunreg with rfl | hrest
    · exact .inl (List.mem_append_right _ (List.mem_singleton_self _))
    · exact .inr hrest

theorem Pool.cover_deactivated (h : s.Pool lists) (event event' : CanEvent) :
    event' ∈ deactivated lists event .mRegisteredEvents ∨
      event' ∈ deactivated lists event .mUnregisteredEvents := by
  simp only [deactivated]
  rcases eq_or_ne event' event with rfl | hne
  · right
    split
    · assumption
    · simp
  · rcases h.cover event' with hreg | hunreg
    · exact .inl ((List.mem_erase_of_ne hne).mpr hreg)
    · right
      split
      · exact hunreg
      · exact List.mem_append_left _ hunreg

/-- An event that is not active is in the pool, and stays there. -/
theorem Pool.deactivateCANEvent (h : s.Pool lists) (event : CanEvent) :
    ∃ s', s.deactivateCANEvent event = .ok s' ∧ s'.Pool (deactivated lists event) ∧
      s'.kernel = s.kernel := by
  obtain ⟨links, queue, hremove, hfam⟩ := h.family.remove .mRegisteredEvents event
  have hreg : event ∉ (lists .mRegisteredEvents).erase event :=
    (h.family.rep .mRegisteredEvents).nodup.not_mem_erase
  by_cases hunreg : event ∈ lists .mUnregisteredEvents
  · have hin : event ∈ Function.update lists .mRegisteredEvents
        ((lists .mRegisteredEvents).erase event) .mUnregisteredEvents := by simpa using hunreg
    have henqueue := (hfam.rep .mUnregisteredEvents).enqueue_mem hin
    have hlists : Function.update lists .mRegisteredEvents
        ((lists .mRegisteredEvents).erase event) = deactivated lists event := by
      funext q
      cases q <;> simp [deactivated, hunreg]
    rw [hlists] at hfam
    refine ⟨_, Exec.bind_eq_ok.mpr ⟨_, hremove, Exec.bind_eq_ok.mpr ⟨_, henqueue, rfl⟩⟩,
      ⟨?_, h.cover_deactivated event⟩, rfl⟩
    simp only [setQueue, Function.update_eq_self]
    exact hfam
  · have hnone : ∀ q, event ∉ Function.update lists .mRegisteredEvents
        ((lists .mRegisteredEvents).erase event) q := by
      intro q
      cases q with
      | mRegisteredEvents => simpa using hreg
      | mUnregisteredEvents => simpa using hunreg
    obtain ⟨links', queue', henqueue, hfam'⟩ := hfam.enqueue hnone .mUnregisteredEvents
    have hlists : Function.update (Function.update lists .mRegisteredEvents
        ((lists .mRegisteredEvents).erase event)) .mUnregisteredEvents
        (Function.update lists .mRegisteredEvents ((lists .mRegisteredEvents).erase event)
          .mUnregisteredEvents ++ [event]) = deactivated lists event := by
      funext q
      cases q <;> simp [deactivated, hunreg]
    rw [hlists] at hfam'
    exact ⟨_, Exec.bind_eq_ok.mpr ⟨_, hremove, Exec.bind_eq_ok.mpr ⟨_, henqueue, rfl⟩⟩,
      ⟨hfam', h.cover_deactivated event⟩, rfl⟩

/-! ## Runs -/

/-- The lists of the constructor. -/
def initial : CanQueue → List CanEvent
  | .mRegisteredEvents => []
  | .mUnregisteredEvents => List.finRange cEventPoolSize

theorem boot_spec (c : Configuration O (CanEvent ⊕ S) R) (mTimerInterval : Nat) :
    ∃ s : CanSystem n m S R, boot mTimerInterval = .ok s ∧ s.Pool initial ∧
      Kernel.boot mTimerInterval = .ok s.kernel := by
  obtain ⟨kernel, hkernel, -⟩ := Kernel.boot_spec (n := n) (m := m) c mTimerInterval
  obtain ⟨links, queue, hall, hrep, -⟩ := (Queue.Rep.new QueueElements.zeroed).enqueueAll
    (m := List.finRange cEventPoolSize) (List.nodup_finRange _)
  refine ⟨_, Exec.bind_eq_ok.mpr ⟨kernel, hkernel, Exec.bind_eq_ok.mpr ⟨_, hall, rfl⟩⟩,
    ⟨⟨fun q => ?_, fun q q' event hq hq' => ?_⟩, fun event => .inr (List.mem_finRange _)⟩,
    hkernel⟩
  · cases q with
    | mRegisteredEvents => exact Queue.Rep.new _
    | mUnregisteredEvents => exact hrep
  · cases q <;> cases q' <;> simp_all [initial]

theorem activateCANEvent_kernel {messageID : UInt16} {returned : Option CanEvent}
    (h : s.activateCANEvent messageID = .ok (returned, s')) : s'.kernel = s.kernel := by
  obtain ⟨⟨retVal, links, queue⟩, -, h⟩ := Exec.bind_eq_ok.mp h
  cases retVal with
  | none =>
    cases h
    rfl
  | some event =>
    obtain ⟨⟨links', queue'⟩, -, h⟩ := Exec.bind_eq_ok.mp h
    cases h
    rfl

theorem Pool.mem_of_activateCANEvent {messageID : UInt16} (h : s.Pool lists)
    (hcall : s.activateCANEvent messageID = .ok (some event, s')) :
    event ∈ lists .mUnregisteredEvents := by
  cases hlist : lists .mUnregisteredEvents with
  | nil =>
    rw [h.activateCANEvent_nil hlist] at hcall
    cases hcall
  | cons first rest =>
    obtain ⟨s'', hok, -⟩ := h.activateCANEvent_cons hlist messageID
    cases hok.symm.trans hcall
    exact List.mem_cons_self

theorem deactivateCANEvent_kernel (h : s.deactivateCANEvent event = .ok s') :
    s'.kernel = s.kernel := by
  obtain ⟨⟨links, queue⟩, -, h⟩ := Exec.bind_eq_ok.mp h
  obtain ⟨⟨links', queue'⟩, -, h⟩ := Exec.bind_eq_ok.mp h
  cases h
  rfl

section
variable [DecidableEq O] [DecidableEq S] [DecidableEq R] [Fintype R]
  {c : Configuration O (CanEvent ⊕ S) R} {s₀ : CanSystem n m S R} {op : CanOp n m S R}
  {ops : List (CanOp n m S R)} {mTimerInterval : Nat}

omit [DecidableEq O] [DecidableEq S] [DecidableEq R] [Fintype R] in
theorem boot_pool (c : Configuration O (CanEvent ⊕ S) R)
    (hboot : boot mTimerInterval = .ok s₀) :
    s₀.Pool initial ∧ Kernel.boot mTimerInterval = .ok s₀.kernel := by
  obtain ⟨s, hok, h⟩ := boot_spec (n := n) (m := m) c mTimerInterval
  obtain rfl := Except.ok.inj (hok.symm.trans hboot)
  exact h

theorem Pool.step (h : s.Pool lists) (hstep : CanStep c s op s') : ∃ lists', s'.Pool lists' := by
  cases hstep with
  | kernel hcall => exact ⟨lists, h.family, h.cover⟩
  | @activateCANEvent messageID returned s' hcall =>
    cases hlist : lists .mUnregisteredEvents with
    | nil =>
      rw [h.activateCANEvent_nil hlist] at hcall
      cases hcall
      exact ⟨lists, h⟩
    | cons event rest =>
      obtain ⟨s'', hok, h', -⟩ := h.activateCANEvent_cons hlist messageID
      cases hok.symm.trans hcall
      exact ⟨_, h'⟩
  | @deactivateCANEvent event s' hcall =>
    obtain ⟨s'', hok, h', -⟩ := h.deactivateCANEvent event
    cases hok.symm.trans hcall
    exact ⟨_, h'⟩

/-- Each event of the pool is in one of the queues, at every moment of a run. -/
theorem exists_pool (hboot : boot mTimerInterval = .ok s₀) (hrun : Run (CanStep c) s₀ ops s) :
    ∃ lists, s.Pool lists := by
  refine hrun.invariant (motive := fun s => ∃ lists, s.Pool lists)
    ⟨_, (boot_pool c hboot).1⟩ ?_
  intro s op s' ⟨lists, h⟩ hstep
  exact h.step hstep

/-- The driver leaves the kernel alone. -/
theorem kernel_run (hrun : Run (CanStep c) s₀ ops s) :
    Run (KernelStep c) s₀.kernel (CanOp.kernelOps ops) s.kernel := by
  induction hrun with
  | nil => exact .nil
  | @snoc ops s op s' hrun hstep ih =>
    rw [CanOp.kernelOps, List.filterMap_append]
    cases hstep with
    | kernel hcall => exact ih.snoc hcall
    | activateCANEvent hcall =>
      rw [activateCANEvent_kernel hcall]
      simpa [CanOp.kernelOps] using ih
    | deactivateCANEvent hcall =>
      rw [deactivateCANEvent_kernel hcall]
      simpa [CanOp.kernelOps] using ih

omit [DecidableEq O] [DecidableEq S] [DecidableEq R] [Fintype R] in
/-- Only `subscribeEvent` adds a trigger to a CAN event. -/
theorem eq_subscribeEvent {op : KernelOp n m (CanEvent ⊕ S) R} {trigger : R}
    (h : op.change = .add (.event (.inl event)) trigger) :
    op = .subscribeEvent (.event (.inl event)) trigger := by
  unfold KernelOp.change at h
  split at h
  · cases h
    rfl
  all_goals cases h

/-- What holds in a run whose calls are clean: the events of the pool have no subscribers, so that
nothing is lost by counting the subscribers of an event from its activation on. -/
structure Fresh (s : CanSystem n m S R) (ops : List (CanOp n m S R))
    (lists : CanQueue → List CanEvent) : Prop where
  pool : s.Pool lists
  unused : ∀ event ∈ lists .mUnregisteredEvents, CanOp.since ops (.event (.inl event)) = []
  since : CanOp.since ops = KernelOp.subscribed (CanOp.kernelOps ops)

omit [Fintype R] in
theorem Fresh.kernelStep {op : KernelOp n m (CanEvent ⊕ S) R} (h : s.Fresh ops lists)
    (hclean : s.Clean (.kernel op)) {k : Kernel n m (CanEvent ⊕ S) R} :
    { s with kernel := k }.Fresh (ops ++ [CanOp.kernel op]) lists := by
  refine ⟨⟨h.pool.family, h.pool.cover⟩, fun event hevent => ?_, ?_⟩
  · rw [CanOp.since_snoc]
    refine Change.apply_eq_nil (h.unused event hevent) fun trigger hchange => ?_
    rw [eq_subscribeEvent hchange] at hclean
    exact h.pool.disjoint (h.pool.active_iff.mp hclean) hevent
  · rw [CanOp.since_snoc, CanOp.record, h.since, ← KernelOp.subscribed_snoc]
    simp [CanOp.kernelOps]

omit [Fintype R] in
theorem Fresh.activateCANEvent {messageID : UInt16} {returned : Option CanEvent}
    (h : s.Fresh ops lists) (hcall : s.activateCANEvent messageID = .ok (returned, s')) :
    ∃ lists', s'.Fresh (ops ++ [.activateCANEvent messageID returned]) lists' := by
  have hops : CanOp.kernelOps (ops ++ [.activateCANEvent messageID returned]) =
      CanOp.kernelOps ops := by simp [CanOp.kernelOps]
  cases hlist : lists .mUnregisteredEvents with
  | nil =>
    rw [h.pool.activateCANEvent_nil hlist] at hcall
    cases hcall
    have hsince : CanOp.since (ops ++ [.activateCANEvent messageID none]) = CanOp.since ops :=
      CanOp.since_snoc _ _
    exact ⟨lists, h.pool, hsince ▸ h.unused, by rw [hsince, hops, h.since]⟩
  | cons event rest =>
    obtain ⟨s'', hok, hpool, -⟩ := h.pool.activateCANEvent_cons hlist messageID
    cases hok.symm.trans hcall
    -- the event had no subscribers in the pool
    have hnil := h.unused event (by simp [hlist])
    have hsince : CanOp.since (ops ++ [.activateCANEvent messageID (some event)]) =
        CanOp.since ops := by
      rw [CanOp.since_snoc, CanOp.record, ← hnil, Function.update_eq_self]
    refine ⟨_, hpool, fun event' hevent' => ?_, by rw [hsince, hops, h.since]⟩
    rw [hsince]
    exact h.unused event' (hlist ▸ List.mem_cons_of_mem _ hevent')

omit [Fintype R] in
theorem Fresh.deactivateCANEvent (h : s.Fresh ops lists)
    (hnil : CanOp.since ops (.event (.inl event)) = [])
    (hcall : s.deactivateCANEvent event = .ok s') :
    ∃ lists', s'.Fresh (ops ++ [.deactivateCANEvent event]) lists' := by
  obtain ⟨s'', hok, hpool, -⟩ := h.pool.deactivateCANEvent event
  cases hok.symm.trans hcall
  have hsince : CanOp.since (ops ++ [.deactivateCANEvent event]) = CanOp.since ops :=
    CanOp.since_snoc _ _
  refine ⟨_, hpool, fun event' hevent' => ?_, ?_⟩
  · rw [hsince]
    simp only [deactivated] at hevent'
    split at hevent'
    · exact h.unused event' hevent'
    · rcases List.mem_append.mp hevent' with hmem | hmem
      · exact h.unused event' hmem
      · rw [List.mem_singleton.mp hmem, hnil]
  · rw [hsince, h.since]
    simp [CanOp.kernelOps]

/-- The subscriber lists follow the subscriptions. -/
theorem subscribes_run (hboot : boot mTimerInterval = .ok s₀) (hrun : Run (CanStep c) s₀ ops s)
    (halone : ∀ ms, ms <+: CanOp.kernelOps ops → Queue.SharedAlone (KernelOp.subscribed ms)) :
    s.kernel.Subscribes (KernelOp.subscribed (CanOp.kernelOps ops)) :=
  Kernel.subscribes_run (boot_pool c hboot).2 (kernel_run hrun) halone

theorem fresh_run (hboot : boot mTimerInterval = .ok s₀)
    (hrun : Run (fun s op s' => CanStep c s op s' ∧ s.Clean op) s₀ ops s)
    (halone : ∀ ms, ms <+: CanOp.kernelOps ops → Queue.SharedAlone (KernelOp.subscribed ms)) :
    ∃ lists, s.Fresh ops lists := by
  induction hrun with
  | nil =>
    exact ⟨initial, (boot_pool c hboot).1, fun _ _ => rfl, rfl⟩
  | @snoc ops s op s' hrun hstep ih =>
    obtain ⟨hstep, hclean⟩ := hstep
    have hbefore : ∀ ms, ms <+: CanOp.kernelOps ops → Queue.SharedAlone (KernelOp.subscribed ms) :=
      fun ms hms => halone ms (hms.trans ⟨_, List.filterMap_append.symm⟩)
    obtain ⟨lists, h⟩ := ih hbefore
    cases hstep with
    | kernel hcall => exact ⟨lists, h.kernelStep hclean⟩
    | activateCANEvent hcall => exact h.activateCANEvent hcall
    | @deactivateCANEvent event s' hcall =>
      have hrep := (subscribes_run hboot (hrun.mono And.left) hbefore).rep (.event (.inl event))
      have hsize : (s.kernel.subscribers (.event (.inl event))).pSize = 0 := hclean
      rw [hrep.size, List.length_eq_zero_iff, ← h.since] at hsize
      exact h.deactivateCANEvent hsize hcall

/-! ## Frames -/

/-- The event has been triggered: there is a task for each of the triggers in its list, in order, as
far as tasks are free. -/
def Emits (c : Configuration O (CanEvent ⊕ S) R) (line : CanEvent → UInt32)
    (lists : Event m (CanEvent ⊕ S) → List R) (k : Kernel n m (CanEvent ⊕ S) R) (event : CanEvent)
    (k' : Kernel n m (CanEvent ⊕ S) R) : Prop :=
  k.Raised c .pEventTaskPoolQueue (.event (.inl event)) (line event)
    ((lists (.event (.inl event))).take (k.tasks.queues .pEventTaskPoolQueue).pSize) k'

omit [DecidableEq O] [DecidableEq S] [DecidableEq R] in
/-- The loop triggers the events for the identifier that are left in the list. -/
theorem emitEvents_spec (messageID : UInt16) (line : CanEvent → UInt32) (success : Bool)
    {p : Option CanEvent} {rest : List CanEvent} {fuel : Nat} {k : Kernel n m (CanEvent ⊕ S) R}
    {place : Task → Place n} {subscribed : Event m (CanEvent ⊕ S) → List R}
    (hseg : Seg s.eventLinks.pNext s.eventLinks.pPrevious p rest none)
    (hfuel : rest.length ≤ fuel) (hworks : k.Works c place) (hsub : k.Subscribes subscribed) :
    ∃ k', emitEvents c s messageID line fuel rest.head? k success =
        .ok (success || rest.any (s.messageID · = messageID), k') ∧
      Run (Emits c line subscribed) k (rest.filter (s.messageID · = messageID)) k' := by
  induction rest generalizing p fuel k place success with
  | nil =>
    refine ⟨k, ?_, .nil⟩
    cases fuel <;> simp [emitEvents]
  | cons event rest ih =>
    obtain ⟨fuel, rfl⟩ := Nat.exists_eq_succ_of_ne_zero (by simp at hfuel; omega : fuel ≠ 0)
    rw [seg_cons, Option.or_none] at hseg
    obtain ⟨-, hnext, hseg⟩ := hseg
    have hfuel : rest.length ≤ fuel := by simpa using hfuel
    simp only [List.head?_cons, emitEvents, hnext]
    by_cases hid : s.messageID event = messageID
    · obtain ⟨system, place', hcall, hworks', hraised⟩ :=
        hsub.raised hworks (.event (.inl event)) (line event)
      obtain ⟨k', hemit, hrun⟩ := ih true hseg hfuel hworks' hsub
      refine ⟨k', ?_, ?_⟩
      · rw [if_pos hid, hcall, Exec.ok_bind, hemit]
        simp [hid]
      · rw [List.filter_cons_of_pos (by simpa using hid)]
        exact (Run.single hraised).append hrun
    · obtain ⟨k', hemit, hrun⟩ := ih success hseg hfuel hworks hsub
      refine ⟨k', ?_, ?_⟩
      · rw [if_neg hid, hemit]
        simp [hid]
      · rwa [List.filter_cons_of_neg (by simpa using hid)]

/-- An event that is activated has no subscribers. -/
def ActivatesClean (s : CanSystem n m S R) : Prop :=
  ∀ messageID event s', s.activateCANEvent messageID = .ok (some event, s') →
    s'.kernel.subscribers (.event (.inl event)) = Queue.new

/-- A frame is delivered to the triggers in the lists of the registered events for its
identifier. -/
def DeliversTo (c : Configuration O (CanEvent ⊕ S) R) (s : CanSystem n m S R)
    (triggers : Event m (CanEvent ⊕ S) → List R) : Prop :=
  ∀ messageID line, ∃ lists k, s.Pool lists ∧
    s.emitCANEvent c messageID line =
      .ok ((lists .mRegisteredEvents).any (s.messageID · = messageID), k) ∧
    Run (Emits c line triggers) s.kernel
      ((lists .mRegisteredEvents).filter (s.messageID · = messageID)) k

omit [DecidableEq O] [DecidableEq S] [DecidableEq R] in
theorem Pool.deliversTo {place : Task → Place n} {triggers : Event m (CanEvent ⊕ S) → List R}
    (h : s.Pool lists) (hworks : s.kernel.Works c place) (hsub : s.kernel.Subscribes triggers) :
    s.DeliversTo c triggers := by
  intro messageID line
  have hrep := h.family.rep .mRegisteredEvents
  obtain ⟨k, hemit, hemits⟩ :=
    emitEvents_spec messageID line false hrep.seg hrep.nodup.length_le_card hworks hsub
  refine ⟨lists, k, h, ?_, hemits⟩
  rw [emitCANEvent, hrep.head]
  simpa using hemit

/-- After any history each event of the pool is in exactly one of the queues. If triggers have been
shared alone, an event that is activated has no subscribers exactly if all that it has ever had have
been unsubscribed; and if only active events have been subscribed to, and none deactivated with
subscribers, it has none, and frames are delivered to the triggers subscribed since the activation
of their events. -/
theorem canEvents_run (hboot : boot mTimerInterval = .ok s₀) (hrun : Run (CanStep c) s₀ ops s) :
    (∃ lists, s.Pool lists) ∧
    ((∀ ms, ms <+: CanOp.kernelOps ops → Queue.SharedAlone (KernelOp.subscribed ms)) →
      (∀ messageID event s', s.activateCANEvent messageID = .ok (some event, s') →
        (s'.kernel.subscribers (.event (.inl event)) = Queue.new ↔
          KernelOp.subscribed (CanOp.kernelOps ops) (.event (.inl event)) = [])) ∧
      (Run (fun s op s' => CanStep c s op s' ∧ s.Clean op) s₀ ops s →
        s.ActivatesClean ∧ s.DeliversTo c (CanOp.since ops))) := by
  refine ⟨exists_pool hboot hrun, fun halone => ?_⟩
  have hsub := subscribes_run hboot hrun halone
  have hactivate : ∀ messageID event s', s.activateCANEvent messageID = .ok (some event, s') →
      (s'.kernel.subscribers (.event (.inl event)) = Queue.new ↔
        KernelOp.subscribed (CanOp.kernelOps ops) (.event (.inl event)) = []) := by
    intro messageID event s' hcall
    rw [activateCANEvent_kernel hcall]
    exact (hsub.rep _).eq_new_iff
  refine ⟨hactivate, fun hclean => ?_⟩
  obtain ⟨lists, h⟩ := fresh_run hboot hclean halone
  obtain ⟨place, hworks⟩ := Kernel.exists_works (boot_pool c hboot).2 (kernel_run hrun)
  refine ⟨fun messageID event s' hcall => (hactivate messageID event s' hcall).mpr ?_, ?_⟩
  · rw [← h.since]
    exact h.unused event (h.pool.mem_of_activateCANEvent hcall)
  · rw [h.since]
    exact h.pool.deliversTo hworks hsub

end

theorem initial_eq : initial .mUnregisteredEvents = 0 :: (List.finRange 15).map Fin.succ :=
  List.finRange_succ

theorem deactivated_of_nil {lists : CanQueue → List CanEvent}
    (hnil : lists .mUnregisteredEvents = []) (event : CanEvent) :
    deactivated lists event .mUnregisteredEvents = [event] := by
  simp [deactivated, hnil]

/-- One trigger, and the dummy event besides the CAN events. -/
def oneReceiver : Configuration Unit (CanEvent ⊕ Unit) Unit where
  trigger _ := { pDestinationOSC := some (), pDeps := ⟨[none], DepArray.none_mem⟩, pPriority := 1 }
  pType e := if e = .inr () then .dummyCallEvent else .softwareEvent
  pType_ne e := by split <;> simp
  pDummyEvent := .inr ()
  pDummyEvent_pType := rfl

/-- An event of the pool is activated and subscribed to. -/
def oneActivation : List (CanOp 1 0 Unit Unit) :=
  [.activateCANEvent 5 (some 0), .kernel (.subscribeEvent (.event (.inl 0)) ())]

/-- The trigger is subscribed to an event while it is subscribed to none. -/
theorem subscribeEvent_first {s : CanSystem 1 0 Unit Unit} (event : CanEvent)
    (hsub : s.kernel.Subscribes fun _ => []) :
    ∃ k, CanStep oneReceiver s (.kernel (.subscribeEvent (.event (.inl event)) ()))
        { s with kernel := k } ∧
      (k.subscribers (.event (.inl event))).pSize = 1 := by
  have halone := KernelOp.subscribed_alone (n := 1)
    [.subscribeEvent (.event (.inl event) : Event 0 (CanEvent ⊕ Unit)) ()]
  obtain ⟨k, hcall, hsub', -⟩ := hsub.subscribeEvent halone
  refine ⟨k, .kernel (.subscribeEvent hcall), ?_⟩
  rw [(hsub'.rep _).size]
  simp [Change.apply]

theorem canEvents_run_oneActivation : ∃ s₀ s : CanSystem 1 0 Unit Unit, boot 1 = .ok s₀ ∧
    Run (CanStep oneReceiver) s₀ oneActivation s ∧ (∃ lists, s.Pool lists) ∧ s.ActivatesClean ∧
    s.DeliversTo oneReceiver (CanOp.since oneActivation) := by
  obtain ⟨s₀, hboot, hpool, hkernel⟩ := boot_spec (n := 1) (m := 0) oneReceiver 1
  obtain ⟨s₁, hactivate, hpool₁, hkernel₁⟩ := hpool.activateCANEvent_cons initial_eq 5
  have hsub : s₁.kernel.Subscribes fun _ => [] := hkernel₁ ▸ .boot oneReceiver hkernel
  obtain ⟨k, hsubscribe, -⟩ := subscribeEvent_first 0 hsub
  have hactive : s₁.Active 0 :=
    hpool₁.active_iff.mpr (List.mem_append_right _ (List.mem_singleton_self _))
  have hclean : Run (fun s op s' => CanStep oneReceiver s op s' ∧ s.Clean op) s₀ oneActivation
      { s₁ with kernel := k } :=
    (Run.single ⟨.activateCANEvent hactivate, trivial⟩).snoc ⟨hsubscribe, hactive⟩
  have hrun := hclean.mono And.left
  obtain ⟨hlists, hlaw⟩ := canEvents_run hboot hrun
  exact ⟨s₀, _, hboot, hrun, hlists,
    (hlaw fun ms _ => KernelOp.subscribed_alone ms).2 hclean⟩

/-- All events of the pool are activated one after the other. -/
theorem Pool.activateAll {s : CanSystem 1 0 Unit Unit} {lists : CanQueue → List CanEvent}
    {l : List CanEvent} (h : s.Pool lists) (hlist : lists .mUnregisteredEvents = l)
    (messageID : UInt16) :
    ∃ s' lists', Run (CanStep oneReceiver) s (l.map (.activateCANEvent messageID <| some ·)) s' ∧
      s'.Pool lists' ∧ lists' .mUnregisteredEvents = [] ∧ s'.kernel = s.kernel := by
  induction l generalizing s lists with
  | nil => exact ⟨s, lists, .nil, h, hlist, rfl⟩
  | cons event rest ih =>
    obtain ⟨s₁, hcall, h₁, hkernel₁⟩ := h.activateCANEvent_cons hlist messageID
    obtain ⟨s', lists', hrun, h', hnil, hkernel'⟩ := ih h₁ rfl
    exact ⟨s', lists', (Run.single (.activateCANEvent hcall)).append hrun, h', hnil,
      hkernel'.trans hkernel₁⟩

/-- All events are activated, the trigger is subscribed to one of them, and that one is deactivated.
It is activated next, and the trigger is still subscribed. -/
theorem activateCANEvent_leftover : ∃ s₀ s s' : CanSystem 1 0 Unit Unit, boot 1 = .ok s₀ ∧
    Run (CanStep oneReceiver) s₀
      ((List.finRange cEventPoolSize).map (.activateCANEvent 5 <| some ·) ++
        [.kernel (.subscribeEvent (.event (.inl 0)) ()), .deactivateCANEvent 0]) s ∧
    s.activateCANEvent 7 = .ok (some 0, s') ∧
    (s'.kernel.subscribers (.event (.inl 0))).pSize = 1 := by
  obtain ⟨s₀, hboot, hpool, hkernel⟩ := boot_spec (n := 1) (m := 0) oneReceiver 1
  obtain ⟨s₁, lists, hrun, hpool₁, hnil, hkernel₁⟩ := hpool.activateAll rfl 5
  have hsub : s₁.kernel.Subscribes fun _ => [] := hkernel₁ ▸ .boot oneReceiver hkernel
  obtain ⟨k, hsubscribe, hsize⟩ := subscribeEvent_first 0 hsub
  have hpool₂ : { s₁ with kernel := k }.Pool lists := ⟨hpool₁.family, hpool₁.cover⟩
  obtain ⟨s₂, hdeactivate, hpool₃, hkernel₂⟩ := hpool₂.deactivateCANEvent 0
  obtain ⟨s', hactivate, -, hkernel₃⟩ :=
    hpool₃.activateCANEvent_cons (deactivated_of_nil hnil 0) 7
  refine ⟨s₀, s₂, s', hboot, ?_, hactivate, by rwa [hkernel₃, hkernel₂]⟩
  exact hrun.append ((Run.single hsubscribe).snoc (.deactivateCANEvent hdeactivate))

end CanSystem

end CyPhOS
