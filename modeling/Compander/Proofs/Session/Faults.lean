import Compander.Proofs.Device.History
import Compander.Proofs.Session.Balance

/-!
# Faults of a session

A session checks a buffer before it hands it to the device, so that a buffer of the wrong shape is
an error of the stream. It does not check whether held samples have been drained, after which the
device takes no buffer in. So a push can meet a fault, and there is only this one:

* `Session.push_of_channels_ne`, `Session.push_of_ragged` — a buffer of the wrong shape;
* `Session.push_of_drained`, `Session.noFault_push` — any other, after and before the drain;
* `Session.Reached` — the sessions that any calls lead to, faults included;
* `Session.Reached.fault_iff` — which pushes meet a fault, and where each of them leaves the
  session.

A push that meets the fault has counted its samples already, as the count comes before the call on
the device. A stream without a lookahead holds nothing at its end, so its drain never begins and a
push after the end meets no fault; the condition is on what was held and not on the end.
-/

namespace Compander.Session

variable {σ : Type} [Sink σ] {s s' : Session} {sink sink' : σ} {b : Buffer Float32}
  {answer : Except Refusal Nat} {queue : Nat → List Float32}

/-! ## One push -/

/-- A buffer with other channels is refused before anything changes, with both numbers in the
error. -/
theorem push_of_channels_ne (s : Session) (sink : σ)
    (h : b.channels ≠ s.device.layout.channels) :
    s.push sink b =
      (.error (.error (.channelMismatch s.device.layout.channels b.channels)), s, sink) :=
  if_pos h

/-- Planes that differ in length are refused before anything changes, with the first channel
that differs. -/
theorem push_of_ragged (s : Session) (sink : σ) (hchannels : b.channels = s.device.layout.channels)
    (hragged : b.isWellFormed = false) :
    ∃ channel, s.push sink b =
      (.error (.error (.lengthMismatch channel b.length (b.planes.getD channel []).length)),
        s, sink) := by
  have hdiffer : ¬∀ plane ∈ b.planes, plane.length = b.length := fun hall =>
    Bool.false_ne_true (hragged.symm.trans (Buffer.hasShape_iff.mp ⟨hchannels, hall⟩).2)
  obtain ⟨channel, hcheck⟩ := exists_checkLengths_eq_error hdiffer
  refine ⟨channel, ?_⟩
  rw [push, if_neg (not_not_intro hchannels)]
  simp only [hcheck]

/-- A buffer is refused with an error before anything changes, or it has the right shape. -/
theorem refused_or_hasShape (s : Session) (sink : σ) (b : Buffer Float32) :
    (∃ error, s.push sink b = (.error (.error error), s, sink)) ∨
      b.HasShape s.device.layout.channels b.length := by
  by_cases hchannels : b.channels = s.device.layout.channels
  · cases hformed : b.isWellFormed with
    | false =>
      obtain ⟨channel, hpush⟩ := s.push_of_ragged sink hchannels hformed
      exact .inl ⟨_, hpush⟩
    | true => exact .inr (Buffer.hasShape_iff.mpr ⟨hchannels, hformed⟩)
  · exact .inl ⟨_, s.push_of_channels_ne sink hchannels⟩

/-- A buffer of the right shape goes to the device, and its samples are counted before the
answer is known. -/
theorem push_of_hasShape (s : Session) (sink : σ)
    (h : b.HasShape s.device.layout.channels b.length) :
    s.push sink b =
      match (s.device.process b).1 with
      | .error fault => (.error (.fault fault), s.fed (s.device.process b).2 b, sink)
      | .ok none => (.ok 0, s.fed (s.device.process b).2 b, sink)
      | .ok (some out) => (s.fed (s.device.process b).2 b).deliver sink out := by
  rw [push, if_neg (not_not_intro h.channels_eq)]
  simp only [checkLengths_eq_ok_iff.mpr h.length_plane]
  rfl

/-- After the drain has begun, a buffer of the right shape meets a fault. The device stays as it
is, but the samples count as having come in. -/
theorem push_of_drained (s : Session) (sink : σ)
    (h : b.HasShape s.device.layout.channels b.length) (hdraining : s.device.draining = true) :
    s.push sink b =
      (.error (.fault .afterDrain), { s with samplesIn := s.samplesIn + b.length }, sink) := by
  have hrefused : s.device.process b = (.error .afterDrain, s.device) :=
    Device.process_of_refused (by rw [Device.accept_of_hasShape h, hdraining]; rfl)
  simp only [push_of_hasShape s sink h, hrefused]
  rfl

/-- Before the drain has begun no push meets a fault, whatever the buffer and the sink are. -/
theorem noFault_push (h : s.device.Holds queue) (hdraining : s.device.draining = false)
    (sink : σ) (b : Buffer Float32) : NoFault (s.push sink b).1 := by
  intro fault hfault
  rcases s.refused_or_hasShape sink b with ⟨error, hpush⟩ | hshape
  · rw [hpush] at hfault
    cases hfault
  · obtain ⟨out, device, hprocess, -⟩ := h.process (Device.accept_eq_ok_iff.mpr ⟨hshape, hdraining⟩)
    rw [push_of_hasShape s sink hshape, hprocess] at hfault
    cases out with
    | none => cases hfault
    | some out =>
      -- a sink refuses with an error of the stream
      obtain ⟨-, ⟨hok, -⟩ | ⟨error, herror, -⟩⟩ := deliver_cases (Prod.ext hfault rfl)
      · cases hok
      · cases herror

/-- What becomes of the device by a push, whatever it answers: it holds some queues, and its
drain mark stays. -/
theorem device_of_push (h : s.device.Holds queue) (hpush : s.push sink b = (answer, s', sink')) :
    (∃ queue, s'.device.Holds queue) ∧ s'.device.draining = s.device.draining := by
  obtain rfl : (s.push sink b).2.1 = s' := by rw [hpush]
  rcases s.refused_or_hasShape sink b with ⟨error, hrefused⟩ | hshape
  · rw [hrefused]
    exact ⟨⟨queue, h⟩, rfl⟩
  cases hdraining : s.device.draining with
  | true =>
    rw [push_of_drained s sink hshape hdraining]
    exact ⟨⟨queue, h⟩, hdraining⟩
  | false =>
    obtain ⟨out, device, hprocess, hprocessed⟩ :=
      h.process (Device.accept_eq_ok_iff.mpr ⟨hshape, hdraining⟩)
    have hfed : (s.push sink b).2.1.device = device := by
      rw [push_of_hasShape s sink hshape, hprocess]
      cases out with
      | none => rfl
      | some out => exact congrArg Session.device (deliver_cases (Prod.ext rfl rfl)).1
    rw [hfed]
    exact ⟨⟨_, hprocessed.holds⟩, hprocessed.draining_eq.trans hdraining⟩

/-! ## The end of the stream -/

/-- The drain begins with the first call that finds something held, and goes on; nothing ends
it but a setup. -/
theorem draining_of_finishUpTo {count : Nat} (h : s.device.Holds queue)
    (hfinish : s.finishUpTo count sink = (answer, s', sink')) :
    s'.device.draining = (s.device.draining || decide (0 < count ∧ 0 < s.device.pending)) := by
  induction count generalizing s sink answer queue with
  | zero =>
    cases hfinish
    simp
  | succ count ih =>
    rcases finishUpTo_cases h hfinish with ⟨hnone, -, rfl, -⟩ | ⟨o, device, hdrain, hrest⟩
    · simp [hnone]
    have hdrained := h.of_drain hdrain
    obtain ⟨hsome, hdraining⟩ := hdrained.draining_eq o rfl
    have hbegun : (s.device.draining || decide (0 < count + 1 ∧ 0 < s.device.pending)) = true := by
      simp [hsome]
    rw [hbegun]
    rcases hrest with ⟨error, -, -, rfl⟩ | ⟨rest, sink₁, -, hrest, -⟩
    · exact hdraining
    · rw [ih (s := counted { s with device } o) hdrained.holds hrest]
      simp [counted, hdraining]

/-- Once something was held at the end of the stream, the drain has begun, also if the sink
met an error. -/
theorem draining_of_finish (h : s.device.Holds queue)
    (hfinish : s.finish sink = (answer, s', sink')) :
    s'.device.draining = (s.device.draining || decide (0 < s.device.pending)) := by
  rw [draining_of_finishUpTo h hfinish]
  simp

/-! ## Any calls -/

/-- The sessions that any calls lead to, those that meet a fault or are refused included, and
whether held samples have come out since the device was set up for the last time. -/
inductive Reached [Memory] (start : Session) (before : Bool) : Bool → Session → Prop where
  /-- no call yet -/
  | new : Reached start before before start
  /-- a buffer in -/
  | push {σ : Type} [Sink σ] {drained : Bool} {s s' : Session} {sink sink' : σ}
      {b : Buffer Float32} {answer : Except Refusal Nat} :
      Reached start before drained s → s.push sink b = (answer, s', sink') →
        Reached start before drained s'
  /-- the end of the stream -/
  | finish {σ : Type} [Sink σ] {drained : Bool} {s s' : Session} {sink sink' : σ}
      {answer : Except Refusal Nat} :
      Reached start before drained s → s.finish sink = (answer, s', sink') →
        Reached start before (drained || decide (0 < s.device.pending)) s'
  /-- another layout -/
  | reconfigure {drained : Bool} {s s' : Session} {layout : Layout} :
      Reached start before drained s → s.reconfigure layout = .ok s' →
        Reached start before false s'
  /-- another layout that does not fit -/
  | keep {drained : Bool} {s : Session} {layout : Layout} {error : StreamError} :
      Reached start before drained s → s.reconfigure layout = .error error →
        Reached start before drained s

/-- The end of the stream with a sink begins the drain exactly if something was held. -/
theorem Reached.finished [Memory] {start : Session} {before drained : Bool}
    (h : Reached start before drained s) (sink : σ) :
    Reached start before (drained || decide (0 < s.device.pending)) (s.finish sink).2.1 :=
  h.finish rfl

/-- Any calls leave the device in order, and it knows whether held samples have come out. -/
theorem Reached.holds [Memory] {d : Device} {drained : Bool}
    (h : Reached (on d) d.draining drained s) (hd : d.Holds queue) :
    (∃ queue, s.device.Holds queue) ∧ s.device.draining = drained := by
  induction h with
  | new => exact ⟨⟨queue, hd⟩, rfl⟩
  | push _ hpush ih =>
    obtain ⟨⟨queue', hholds⟩, hdraining⟩ := ih
    obtain ⟨hholds', hdraining'⟩ := device_of_push hholds hpush
    exact ⟨hholds', hdraining'.trans hdraining⟩
  | finish _ hfinish ih =>
    obtain ⟨⟨queue', hholds⟩, hdraining⟩ := ih
    refine ⟨(moved_of_finishUpTo hholds hfinish).holds, ?_⟩
    rw [draining_of_finish hholds hfinish, hdraining]
  | reconfigure _ hnew _ =>
    obtain ⟨d', hd', rfl⟩ := reconfigure_eq_ok hnew
    have hfresh := Device.isNew_of_setUp hd'
    exact ⟨⟨_, hfresh.holds⟩, hfresh.draining_eq⟩
  | keep _ _ ih => exact ih

/-- **Faults of a session.** After any calls on a session, whose device may be new or have been in
use before, a push answers with a count, with an error, or with one fault: that of a buffer of the
right shape that comes after held samples have been drained. The fault leaves the device and the
sink as they are, but the samples of the buffer count as having come in. A buffer of the wrong
shape is refused with an error that says what is wrong with it, and leaves everything as it is. -/
theorem Reached.fault_iff [Memory] {p : Parameters} {layout : Layout} {d₀ d : Device}
    {calls : List (Device.Call Float32)} {answers : List (Device.Answer Float32)} {drained : Bool}
    (hnew : Device.setUp p layout = .ok d₀) (hused : Device.callAll calls d₀ = (answers, d))
    (h : Reached (on d) (Device.hasDrained answers) drained s) (sink : σ) (b : Buffer Float32) :
    ((∃ fault, (s.push sink b).1 = .error (.fault fault)) ↔
      b.channels = s.device.layout.channels ∧ b.isWellFormed = true ∧ drained = true) ∧
    (∀ fault, (s.push sink b).1 = .error (.fault fault) → s.push sink b =
      (.error (.fault .afterDrain), { s with samplesIn := s.samplesIn + b.length }, sink)) ∧
    (b.channels ≠ s.device.layout.channels → s.push sink b =
      (.error (.error (.channelMismatch s.device.layout.channels b.channels)), s, sink)) ∧
    (b.channels = s.device.layout.channels → b.isWellFormed = false → ∃ channel, s.push sink b =
      (.error (.error (.lengthMismatch channel b.length (b.planes.getD channel []).length)),
        s, sink)) := by
  have hstart := Device.isNew_of_setUp hnew
  obtain ⟨⟨held, hd⟩, -, hbefore⟩ := hstart.holds.callAll calls
  rw [hused] at hd hbefore
  rw [hstart.draining_eq] at hbefore
  rw [show Device.hasDrained answers = d.draining from hbefore.symm] at h
  obtain ⟨⟨queue, hholds⟩, rfl⟩ := h.holds hd
  have hcases : ∀ fault, (s.push sink b).1 = .error (.fault fault) →
      b.HasShape s.device.layout.channels b.length ∧ s.device.draining = true := by
    intro fault hfault
    rcases s.refused_or_hasShape sink b with ⟨error, hrefused⟩ | hshape
    · rw [hrefused] at hfault
      cases hfault
    · refine ⟨hshape, ?_⟩
      rw [← Bool.not_eq_false]
      exact fun hdraining => noFault_push hholds hdraining sink b fault hfault
  refine ⟨⟨?_, ?_⟩, fun fault hfault => ?_, s.push_of_channels_ne sink, s.push_of_ragged sink⟩
  · rintro ⟨fault, hfault⟩
    obtain ⟨hshape, hdraining⟩ := hcases fault hfault
    obtain ⟨hchannels, hformed⟩ := Buffer.hasShape_iff.mp hshape
    exact ⟨hchannels, hformed, hdraining⟩
  · rintro ⟨hchannels, hformed, hdraining⟩
    have hshape := Buffer.hasShape_iff.mpr ⟨hchannels, hformed⟩
    exact ⟨.afterDrain, by rw [push_of_drained s sink hshape hdraining]⟩
  · obtain ⟨hshape, hdraining⟩ := hcases fault hfault
    exact push_of_drained s sink hshape hdraining

/-- A session whose lookahead of two held one sample at the end of the stream. -/
theorem exists_reached_after_drain :
    ∃ (d : Device) (s : Session),
      Device.setUp { attacks := [0.0], decays := [0.0], delay := 0.25 } (.perSample 1 8) = .ok d ∧
      Reached (on d) false true s ∧ s.device.layout.channels = 1 := by
  have hcalls : (Device.setUp (N := Float32) { attacks := [0.0], decays := [0.0], delay := 0.25 }
      (.perSample 1 8)).toOption.map (fun d =>
        let s := ((on d).push ({} : Reel) ⟨[[0.5]], some 0⟩).2.1
        (s.device.pending, (s.finish ({} : Reel)).2.1.device.layout.channels)) = some (1, 1) := by
    decide +kernel
  obtain ⟨d, hd, hcounts⟩ := Option.map_eq_some_iff.mp hcalls
  obtain ⟨hpending, hchannels⟩ := Prod.mk.inj hcounts
  have hheld : Reached (on d) false false ((on d).push ({} : Reel) ⟨[[0.5]], some 0⟩).2.1 :=
    Reached.new.push rfl
  have hdone := hheld.finished ({} : Reel)
  have hdrained : (false || decide (0 < ((on d).push ({} : Reel)
      ⟨[[0.5]], some 0⟩).2.1.device.pending)) = true := by
    rw [hpending]
    rfl
  rw [hdrained] at hdone
  exact ⟨d, _, Device.eq_ok_of_toOption hd, hdone, hchannels⟩

/-- One more sample, after a stream with a lookahead of two samples has ended, meets a
fault. -/
theorem fault_iff_after_drain :
    ∃ (d : Device) (s : Session),
      Device.setUp { attacks := [0.0], decays := [0.0], delay := 0.25 } (.perSample 1 8) = .ok d ∧
      Reached (on d) false true s ∧
      ∃ fault, (s.push ({} : Reel) ⟨[[0.25]], some 1⟩).1 = .error (.fault fault) := by
  obtain ⟨d, s, hnew, hreached, hchannels⟩ := exists_reached_after_drain
  have hfresh : Device.callAll [] d = ([], d) := rfl
  obtain ⟨hiff, -⟩ := Reached.fault_iff hnew hfresh hreached ({} : Reel) ⟨[[0.25]], some 1⟩
  exact ⟨d, s, hnew, hreached, hiff.mpr ⟨hchannels.symm, rfl, rfl⟩⟩

/-- The checks of a session do not keep every fault of its device away: the drain mark is not
among what they look at. -/
theorem not_noFault_of_reached :
    ¬∀ (p : Parameters) (layout : Layout) (d : Device) (drained : Bool) (s : Session),
      Device.setUp p layout = .ok d → Reached (on d) false drained s →
        ∀ (reel : Reel) (b : Buffer Float32), NoFault (s.push reel b).1 := by
  intro h
  obtain ⟨d, s, hnew, hreached, hchannels⟩ := exists_reached_after_drain
  have hfresh := Device.isNew_of_setUp hnew
  obtain ⟨-, hdraining⟩ := Reached.holds (hfresh.draining_eq.symm ▸ hreached) hfresh.holds
  have hshape : (⟨[[0.25]], some 1⟩ : Buffer Float32).HasShape s.device.layout.channels 1 :=
    ⟨hchannels.symm, by simp⟩
  refine h _ _ d true s hnew hreached {} ⟨[[0.25]], some 1⟩ .afterDrain ?_
  rw [push_of_drained s _ hshape hdraining]

end Compander.Session
