import Compander.Device
import Compander.Sink

/-!
# Sessions

A session drives a device over a stream: it checks each buffer, passes it to the
device, hands what the device emits to a sink, and counts samples on both sides.

* `Session.push`, `Session.finish`, `Session.reconfigure` — the calls of a host;
* `Session.render` — whole planes through a session, in blocks of a size;
* `renderPlanes` — the same through a new session.

A call can fail in two ways (`Refusal`): with an error of the stream, or with a
fault of the device. Either way the session says where it stands afterwards:
counters move before the device and the sink are asked. So a buffer that a sink
refuses has gone out as far as the session is concerned, and is lost.

A session may be put on a device that has been in use before. It counts from zero
then too, and what the device held at that time comes out in addition.
-/

namespace Compander

/-- Why a call on a session fails: something is wrong with the data, or with the calls. -/
inductive Refusal where
  /-- an error of the stream -/
  | error (error : StreamError)
  /-- a fault of the device -/
  | fault (fault : Fault)

/-- A device in the course of a stream, and what has gone through it since the session
began. -/
structure Session where
  /-- the device -/
  device : Device
  /-- samples of each channel that came in -/
  samplesIn : Nat := 0
  /-- samples of each channel that went out -/
  samplesOut : Nat := 0
  /-- buffers that went out -/
  buffersOut : Nat := 0

namespace Session

/-- A session on a new device, with all counters at zero; the errors are those of setting it
up. -/
def start [Memory] (p : Parameters) (layout : Layout) : Except StreamError Session :=
  match Device.setUp p layout with
  | .ok device => .ok { device }
  | .error error => .error (.setup error)

/-- The session on its device set up for another layout. What was held is lost, and the
counters go on. If the device cannot be set up, the session stays as it is. -/
def reconfigure [Memory] (s : Session) (layout : Layout) : Except StreamError Session :=
  match s.device.reconfigure layout with
  | .ok device => .ok { s with device }
  | .error error => .error (.setup error)

variable {σ : Type} [Sink σ]

/-- Counts an emitted buffer and hands it to the sink. The answer is its length, if the sink
takes it, and the error of the sink otherwise. -/
def deliver (s : Session) (sink : σ) (b : Buffer Float32) :
    Except Refusal Nat × Session × σ :=
  let counted := { s with
    samplesOut := s.samplesOut + b.length, buffersOut := s.buffersOut + 1 }
  match Sink.write sink b with
  | (.ok (), sink) => (.ok b.length, counted, sink)
  | (.error error, sink) => (.error (.error error), counted, sink)

/-- One buffer in. The answer is how many samples of each channel went out, which is none
while a lookahead fills. A buffer of the wrong shape is refused before it is counted. -/
def push (s : Session) (sink : σ) (b : Buffer Float32) : Except Refusal Nat × Session × σ :=
  if b.channels ≠ s.device.layout.channels then
    (.error (.error (.channelMismatch s.device.layout.channels b.channels)), s, sink)
  else
    match checkLengths b.planes b.length with
    | .error error => (.error (.error error), s, sink)
    | .ok () =>
      let ⟨device, samplesIn, samplesOut, buffersOut⟩ := s
      let (left, device) := device.process b
      let counted : Session := ⟨device, samplesIn + b.length, samplesOut, buffersOut⟩
      match left with
      | .error fault => (.error (.fault fault), counted, sink)
      | .ok none => (.ok 0, counted, sink)
      | .ok (some out) => counted.deliver sink out

/-- Drains at most a number of buffers into the sink, one after another, and stops at the
first that the sink refuses. -/
def finishUpTo : Nat → Session → σ → Except Refusal Nat × Session × σ
  | 0, s, sink => (.ok 0, s, sink)
  | count + 1, s, sink =>
    match s.device.drain with
    | .error fault => (.error (.fault fault), s, sink)
    | .ok (none, device) => (.ok 0, { s with device }, sink)
    | .ok (some out, device) =>
      match { s with device : Session }.deliver sink out with
      | (.error refusal, s, sink) => (.error refusal, s, sink)
      | (.ok written, s, sink) =>
        let (rest, s, sink) := finishUpTo count s sink
        (rest.map (written + ·), s, sink)

/-- The end of the stream: all that is held goes to the sink, and the answer is how many
samples of each channel that was. -/
def finish (s : Session) (sink : σ) : Except Refusal Nat × Session × σ :=
  finishUpTo s.device.pending s sink

/-- Pushes buffers one after another, until one is refused; the rest of them is then left
alone. -/
def pushAll : List (Buffer Float32) → Session → σ → Except Refusal Unit × Session × σ
  | [], s, sink => (.ok (), s, sink)
  | b :: rest, s, sink =>
    match s.push sink b with
    | (.error refusal, s, sink) => (.error refusal, s, sink)
    | (.ok _, s, sink) => pushAll rest s sink

/-- Planes cut into a number of buffers of a length, from the first sample on, each stamped by
the samples before it. The last one is as long as what is left. -/
def cut (length : Nat) : Nat → Nat → List (List Float32) → List (Buffer Float32)
  | 0, _, _ => []
  | count + 1, start, planes =>
    ⟨planes.map (·.take length), some start⟩ ::
      cut length count (start + length) (planes.map (·.drop length))

/-- The number of samples of the first plane, which is that of all planes once they have been
checked. -/
def frames (planes : List (List Float32)) : Nat :=
  (planes.head?.map List.length).getD 0

/-- Whole planes through a session, in blocks of `length` samples, and drained at the end.
From a new device as many samples come out as have gone in. -/
def render (s : Session) (planes : List (List Float32)) (length : Nat) :
    Except Refusal Tape :=
  let blocks := cut length ((frames planes + length - 1) / length) 0 planes
  match pushAll blocks s (Tape.blank planes.length) with
  | (.error refusal, _, _) => .error refusal
  | (.ok (), s, tape) =>
    match s.finish tape with
    | (.error refusal, _, _) => .error refusal
    | (.ok _, _, tape) => .ok tape

end Session

/-- Whole planes through a new session, one tick for each sample. A block size of zero counts
as one, and planes that differ in length are refused before a session begins. -/
def renderPlanes [Memory] (p : Parameters) (planes : List (List Float32)) (rate blockSize : Nat) :
    Except Refusal (List (List Float32)) :=
  match checkLengths planes (Session.frames planes) with
  | .error error => .error (.error error)
  | .ok () =>
    match Session.start p (.perSample planes.length rate) with
    | .error error => .error (.error error)
    | .ok s => (s.render planes (max blockSize 1)).map Tape.planes

end Compander
