/-
WebSocket frames and what an endpoint reads from them.

A data message is one frame, text or binary, or several: the first one
with an opcode and without the final bit, then continuations, the last
of which is final. Control frames are never fragmented and may come
anywhere between the fragments.

`readMessages` is the endpoint: the data messages and the control
frames, in order, or nothing if the sequence is not well formed. It
reads on from the fragments of a message that is still open, so a
sequence is reasoned about frame by frame. What frames do to such a
reader is an `Effect`: nothing it shows, a message or a control frame;
`Acts` says which, whatever frames follow. Masking, and the limits of an
implementation, are below this.
-/
import FactoryCacher.Lib.Bytes

namespace FactoryCacher

namespace WebSocket

/-- What a frame is for. -/
inductive OpCode
  | continuation
  | text
  | binary
  | close
  | ping
  | pong
  deriving DecidableEq

/-- A frame, unmasked. -/
structure Frame where
  fin : Bool
  opcode : OpCode
  payload : Bytes
  deriving DecidableEq

/-- Text or binary: the first frame of a message. -/
def OpCode.startsMessage : OpCode → Bool
  | .text | .binary => true
  | _ => false

/-- Close, ping or pong. -/
def OpCode.isControl : OpCode → Bool
  | .close | .ping | .pong => true
  | _ => false

/-- What an endpoint reads: data messages, each as the fragments it came
in, and control frames. -/
structure Received where
  messages : List (List Bytes)
  controls : List Frame
  deriving DecidableEq

/-- A message before those already there. -/
def Received.addMessage (fragments : List Bytes) (r : Received) : Received :=
  { r with messages := fragments :: r.messages }

/-- A control frame before those already there. -/
def Received.addControl (frame : Frame) (r : Received) : Received :=
  { r with controls := frame :: r.controls }

/-- Read a sequence of frames, with some fragments of a message open or
none. -/
def readMessages : Option (List Bytes) → List Frame → Option Received
  | none, [] => some ⟨[], []⟩
  | some _, [] => none
  | current, ⟨fin, .continuation, payload⟩ :: rest =>
      match current with
      | none => none
      | some fragments =>
          if fin then
            (readMessages none rest).map
              (Received.addMessage (fragments ++ [payload]))
          else readMessages (some (fragments ++ [payload])) rest
  | current, ⟨fin, .text, payload⟩ :: rest
  | current, ⟨fin, .binary, payload⟩ :: rest =>
      match current with
      | some _ => none
      | none =>
          if fin then
            (readMessages none rest).map (Received.addMessage [payload])
          else readMessages (some [payload]) rest
  | current, ⟨fin, opcode, payload⟩ :: rest =>
      if fin then
        (readMessages current rest).map
          (Received.addControl ⟨fin, opcode, payload⟩)
      else none

-- One frame of each kind.

/-- The first frame of a message, where none is open. -/
theorem readMessages_start {frame : Frame}
    (h : frame.opcode.startsMessage = true) (rest : List Frame) :
    readMessages none (frame :: rest)
      = if frame.fin then
          (readMessages none rest).map
            (Received.addMessage [frame.payload])
        else readMessages (some [frame.payload]) rest := by
  obtain ⟨fin, opcode, payload⟩ := frame
  cases opcode <;> first | rfl | cases h

/-- Where one is open it is an error. -/
theorem readMessages_cut {frame : Frame}
    (h : frame.opcode.startsMessage = true) (fragments : List Bytes)
    (rest : List Frame) :
    readMessages (some fragments) (frame :: rest) = none := by
  obtain ⟨fin, opcode, payload⟩ := frame
  cases opcode <;> first | rfl | cases h

/-- One more fragment of the open message. -/
theorem readMessages_continuation {frame : Frame}
    (h : frame.opcode = .continuation) (fragments : List Bytes)
    (rest : List Frame) :
    readMessages (some fragments) (frame :: rest)
      = if frame.fin then
          (readMessages none rest).map
            (Received.addMessage (fragments ++ [frame.payload]))
        else readMessages (some (fragments ++ [frame.payload])) rest := by
  obtain ⟨fin, opcode, payload⟩ := frame
  cases h
  rfl

/-- A fragment of no message is an error. -/
theorem readMessages_stray {frame : Frame}
    (h : frame.opcode = .continuation) (rest : List Frame) :
    readMessages none (frame :: rest) = none := by
  obtain ⟨fin, opcode, payload⟩ := frame
  cases h
  rfl

/-- A control frame leaves an open message open; it has to be final. -/
theorem readMessages_control {frame : Frame}
    (h : frame.opcode.isControl = true) (current : Option (List Bytes))
    (rest : List Frame) :
    readMessages current (frame :: rest)
      = if frame.fin then
          (readMessages current rest).map (Received.addControl frame)
        else none := by
  obtain ⟨fin, opcode, payload⟩ := frame
  cases current <;> cases opcode <;> first | rfl | cases h

/-- Every frame is of one of the three kinds. -/
theorem OpCode.kinds (opcode : OpCode) :
    opcode.startsMessage = true ∨ opcode = .continuation
      ∨ opcode.isControl = true := by
  cases opcode <;> simp [startsMessage, isControl]

-- ============================================================== one message

/-- Frames of one message, or of its beginning: the first with `opcode`,
the others continuations, and nothing after a final one. -/
def Fragmented (opcode : OpCode) : List Frame → Prop
  | [] => True
  | frame :: rest => frame.opcode = opcode ∧ (frame.fin = true → rest = [])
      ∧ Fragmented .continuation rest

/-- One more frame behind frames that are not final. -/
theorem Fragmented.snoc {opcode : OpCode} {frames : List Frame}
    {frame : Frame} (h : Fragmented opcode frames)
    (hopen : ∀ f ∈ frames, f.fin = false)
    (hopcode : frame.opcode
      = if frames.isEmpty then opcode else .continuation) :
    Fragmented opcode (frames ++ [frame]) := by
  induction frames generalizing opcode with
  | nil => exact ⟨hopcode, fun _ => rfl, trivial⟩
  | cons first rest ih =>
      obtain ⟨hfirst, -, hrest⟩ := h
      obtain ⟨hfin, hopen⟩ := List.forall_mem_cons.mp hopen
      refine ⟨hfirst, ?_, ih hrest hopen ?_⟩
      · intro hfinal
        rw [hfin] at hfinal
        cases hfinal
      · rw [hopcode, ite_self]
        rfl

/-- A message in the given fragments. -/
def messageFrames (opcode : OpCode) : List Bytes → List Frame
  | [] => []
  | [last] => [⟨true, opcode, last⟩]
  | fragment :: rest =>
      ⟨false, opcode, fragment⟩ :: messageFrames .continuation rest

/-- The rest of an open message is read into it. -/
theorem readMessages_continued (fragments more : List Bytes)
    (hmore : more ≠ []) (rest : List Frame) :
    readMessages (some fragments) (messageFrames .continuation more ++ rest)
      = (readMessages none rest).map
        (Received.addMessage (fragments ++ more)) := by
  induction more generalizing fragments with
  | nil => exact absurd rfl hmore
  | cons fragment more ih =>
      cases more with
      | nil => rfl
      | cons next more =>
          rw [messageFrames, List.cons_append, readMessages_continuation rfl,
            if_neg Bool.false_ne_true, ih _ (List.cons_ne_nil _ _),
            List.append_assoc]
          · rfl
          · nofun

/-- A message is read as one message. -/
theorem readMessages_messageFrames {opcode : OpCode}
    (hopcode : opcode.startsMessage = true) {fragments : List Bytes}
    (hfragments : fragments ≠ []) (rest : List Frame) :
    readMessages none (messageFrames opcode fragments ++ rest)
      = (readMessages none rest).map (Received.addMessage fragments) := by
  obtain ⟨first, more, rfl⟩ := List.exists_cons_of_ne_nil hfragments
  cases more with
  | nil => exact readMessages_start hopcode rest
  | cons next more =>
      rw [messageFrames, List.cons_append, readMessages_start hopcode,
        if_neg Bool.false_ne_true,
        readMessages_continued _ _ (List.cons_ne_nil _ _)]
      · rfl
      · nofun

-- ================================================================= effects

/-- What frames do to a reader. -/
inductive Effect
  | none
  | message (fragments : List Bytes)
  | control (frame : Frame)

/-- An effect, on what is read from the frames that follow. -/
def Effect.apply : Effect → Received → Received
  | .none, r => r
  | .message fragments, r => r.addMessage fragments
  | .control frame, r => r.addControl frame

/-- No effect takes a message away. -/
theorem Effect.mem_messages (effect : Effect) {r : Received}
    {message : List Bytes} (h : message ∈ r.messages) :
    message ∈ (effect.apply r).messages := by
  cases effect with
  | none => exact h
  | message fragments => exact List.mem_cons_of_mem _ h
  | control frame => exact h

/-- From `current` to `next`, with an effect, whatever follows. -/
def Acts (current : Option (List Bytes)) (frames : List Frame)
    (effect : Effect) (next : Option (List Bytes)) : Prop :=
  ∀ rest, readMessages current (frames ++ rest)
    = (readMessages next rest).map effect.apply

/-- A message opens. -/
theorem acts_start {frame : Frame} (h : frame.opcode.startsMessage = true)
    (hfin : frame.fin = false) :
    Acts none [frame] .none (some [frame.payload]) := by
  intro rest
  show readMessages none (frame :: rest) = _
  rw [readMessages_start h, hfin, if_neg Bool.false_ne_true]
  exact Option.map_id'.symm

/-- A message in one frame. -/
theorem acts_single {frame : Frame} (h : frame.opcode.startsMessage = true)
    (hfin : frame.fin = true) :
    Acts none [frame] (.message [frame.payload]) none := by
  intro rest
  show readMessages none (frame :: rest) = _
  rw [readMessages_start h, if_pos hfin]
  rfl

/-- An open message gets longer. -/
theorem acts_continue {frame : Frame} (h : frame.opcode = .continuation)
    (hfin : frame.fin = false) (fragments : List Bytes) :
    Acts (some fragments) [frame] .none
      (some (fragments ++ [frame.payload])) := by
  intro rest
  show readMessages (some fragments) (frame :: rest) = _
  rw [readMessages_continuation h, hfin, if_neg Bool.false_ne_true]
  exact Option.map_id'.symm

/-- An open message ends. -/
theorem acts_finish {frame : Frame} (h : frame.opcode = .continuation)
    (hfin : frame.fin = true) (fragments : List Bytes) :
    Acts (some fragments) [frame]
      (.message (fragments ++ [frame.payload])) none := by
  intro rest
  show readMessages (some fragments) (frame :: rest) = _
  rw [readMessages_continuation h, if_pos hfin]
  rfl

/-- A control frame, with or without an open message. -/
theorem acts_control {frame : Frame} (h : frame.opcode.isControl = true)
    (hfin : frame.fin = true) (current : Option (List Bytes)) :
    Acts current [frame] (.control frame) current := by
  intro rest
  show readMessages current (frame :: rest) = _
  rw [readMessages_control h, if_pos hfin]
  rfl

/-- No frames. -/
theorem acts_nothing (current : Option (List Bytes)) :
    Acts current [] .none current :=
  fun _ => Option.map_id'.symm

/-- A whole message, in any fragments. -/
theorem acts_messageFrames {fragments : List Bytes}
    (h : fragments ≠ []) :
    Acts none (messageFrames .binary fragments) (.message fragments) none :=
  fun rest => readMessages_messageFrames rfl h rest

end WebSocket

end FactoryCacher
