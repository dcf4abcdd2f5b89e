import CyPhOS.IMX6.CanBufferRuns
import CyPhOS.IMX6.CanReception

/-! # What a CAN event carries

`emitCANEvent` runs while the trigger holds the receive buffer, and the frame at hand stays where it
is. Neither the error code of `receive` nor the -1 of `enterMsg` is looked at. For a frame of at most
eight bytes the events get a line with its content (`wp_emitEvents`), whatever the buffer holds, for
a longer one they get the -1 (`wp_emitEvents_long`).
-/

namespace CyPhOS

open DeviceProgram

def CanFrame.content (f : CanFrame) : CanMessage := ⟨f.id.val, f.payload⟩

namespace MCP2515SPI

variable {E : Type}

/-- The line of the delivery held the frame when the event was triggered, and it still does. -/
def Carries (f : CanFrame) (s : State E) (d : Delivery E) : Prop :=
  ∃ n, d.line = some n ∧ d.id = f.id.val ∧ d.data = f.payload ∧
    (s.lines.mBuffer n).content = some f.content

/-- The calls that are to be made. -/
def registered (events : List (CANEvent E)) (f : CanFrame) : List (CANEvent E) :=
  events.filter (·.messageID = f.id.val)

/-! ## Reading the frame -/

/-- What reading from the controller leaves as it is. -/
structure Reads (s s' : State E) : Prop where
  lines : s'.lines = s.lines
  triggered : s'.triggered = s.triggered
  frame (b) : (s'.rx b).frame = (s.rx b).frame

variable {events : List (CANEvent E)} {s s' s'' : State E} {b : Bool} {f : CanFrame}

theorem Reads.refl : Reads s s := ⟨rfl, rfl, fun _ => rfl⟩

theorem Reads.trans (h : Reads s s') (h' : Reads s' s'') : Reads s s'' where
  lines := h'.lines.trans h.lines
  triggered := h'.triggered.trans h.triggered
  frame b := (h'.frame b).trans (h.frame b)

/-- The events that have been triggered since carry the frame. -/
def Emitted (f : CanFrame) (old : List (Delivery E)) (done : List E) (s : State E) : Prop :=
  ∃ new, s.triggered = old ++ new ∧ new.map Delivery.event = done ∧ ∀ d ∈ new, Carries f s d

variable {old : List (Delivery E)} {done : List E} {buffer : Nat → UInt8}

theorem Emitted.reads (h : Emitted f old done s) (hreads : Reads s s') :
    Emitted f old done s' := by
  obtain ⟨new, htriggered, hdone, hcarries⟩ := h
  refine ⟨new, hreads.triggered.trans htriggered, hdone, fun d hd => ?_⟩
  rw [Carries, hreads.lines]
  exact hcarries d hd

/-- The frame is entered in some line. If that is in use already it may be one of this frame's, which
then holds the same message again. -/
theorem Emitted.enterMsg (h : Emitted f old done s) (hlength : f.dataLength.val ≤ 8)
    (hbuffer : ∀ j < f.dataLength.val, buffer j = f.data j) :
    ∃ n lines, s.lines.enterMsg buffer f.dataLength.val f.id.val = (some n, lines) ∧
      (lines.mBuffer n).content = some f.content ∧
      Emitted f old done { s with lines } := by
  obtain ⟨n, hreserve⟩ := s.lines.reserve_isSome
  have henter := CanBuffer.enterMsg_eq buffer f.id.val hlength hreserve
  generalize hlines : (⟨n, _⟩ : CanBuffer) = lines at henter
  have hcontent : CanMessage.of buffer f.dataLength.val f.id.val = f.content :=
    congrArg (CanMessage.mk _) (List.map_congr_left fun j hj => hbuffer j (List.mem_range.mp hj))
  have hline : ∀ i, (lines.mBuffer i).content =
      if some n = some i then some f.content else (s.lines.mBuffer i).content :=
    fun i => hcontent ▸ CanBuffer.content_enterMsg henter
  refine ⟨n, lines, henter, by rw [hline, if_pos rfl], ?_⟩
  obtain ⟨new, htriggered, hdone, hcarries⟩ := h
  refine ⟨new, htriggered, hdone, fun d hd => ?_⟩
  obtain ⟨i, hi, hid, hdata, hold⟩ := hcarries d hd
  refine ⟨i, hi, hid, hdata, ?_⟩
  dsimp only
  rw [hline]
  split
  · rfl
  · exact hold

theorem Emitted.eventTriggered {n : Fin 10} {e : E} (h : Emitted f old done s)
    (hline : (s.lines.mBuffer n).content = some f.content) :
    Emitted f old (done ++ [e]) (s.eventTriggered e (some n)) := by
  obtain ⟨new, htriggered, hdone, hcarries⟩ := h
  obtain ⟨-, hmessage⟩ := CanBuffer.content_eq_some_iff.mp hline
  refine ⟨new ++ [s.delivery e (some n)], ?_, by simp [hdone, State.delivery], fun d hd => ?_⟩
  · rw [State.eventTriggered, htriggered, List.append_assoc]
  · rcases List.mem_append.mp hd with hd | hd
    · exact hcarries d hd
    · rw [List.mem_singleton.mp hd]
      exact ⟨n, rfl, congrArg CanMessage.id hmessage.symm, congrArg CanMessage.data hmessage.symm,
        hline⟩

end MCP2515SPI

end CyPhOS
