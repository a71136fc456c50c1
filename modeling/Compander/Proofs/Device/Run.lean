import Compander.Proofs.Device.Step
import Compander.Proofs.Follower.History

/-!
# Runs of a device

A run is any sequence of calls on one device: buffers that it lets in, buffers that it
refuses, and calls for held samples. However the calls are mixed, what a channel has
emitted is settled by all that it has heard and by how many samples have been drained:

* `Device.shapeLeaving_append` — what leaves a channel in two goes leaves it in one;
* `Device.Run` — the buffers let in and those emitted so far, and where the device is;
* `Device.Stands` — what a device holds and what each channel has emitted;
* `Device.Run.stands` — that is so after every run of a new device;
* `Device.Stands.processAll` — a whole stream meets no fault.

A run grows at its end. Its steps are what a call can do, so a property that holds of a new
device and is kept by each step holds after every run; `Stands` is the first such property, and
the stamps and the counts of a session are two more.
-/

namespace Compander.Device

variable {N : Type} [NarrowArithmetic N]

/-! ## What leaves a channel -/

/-- What leaves a channel when two planes go in one after the other is what leaves it when
they go in together. -/
theorem shapeLeaving_append (curve : Transfer N) (capacity : Nat) (f : Follower N)
    (samples more : List N) :
    shapeLeaving curve capacity [] f (samples ++ more) =
      shapeLeaving curve capacity [] f samples ++
        shapeLeaving curve capacity (Ring.staying capacity samples) (f.after samples) more := by
  simp only [shapeLeaving, List.nil_append]
  rw [Ring.leaving_append, Follower.volumes_append]
  generalize hfirst : Ring.leaving capacity samples = first
  generalize hsecond : Ring.leaving capacity (Ring.staying capacity samples ++ more) = second
  have hf : first.length = samples.length - capacity := by
    rw [← hfirst, Ring.length_leaving]
  have hs : second.length = min samples.length capacity + more.length - capacity := by
    rw [← hsecond, Ring.length_leaving, List.length_append, Ring.length_staying]
  simp only [List.length_append]
  rcases Nat.lt_or_ge samples.length capacity with hlt | hge
  · -- the ring is not full after the first plane, so nothing has left it
    obtain rfl : first = [] := List.eq_nil_of_length_eq_zero (by omega)
    rw [List.nil_append, List.zipWith_nil_left, List.nil_append, List.drop_append,
      Follower.length_volumes, List.drop_of_length_le, List.nil_append]
    · congr 2
      rw [List.length_nil]
      omega
    · rw [Follower.length_volumes, List.length_nil]
      omega
  · rw [List.drop_append_of_le_length, List.zipWith_append]
    · congr 2
      · congr 1
        omega
      · rw [show more.length - second.length = 0 by omega, List.drop_zero]
    · rw [List.length_drop, Follower.length_volumes]
      omega
    · rw [Follower.length_volumes]
      omega

/-- Nothing leaves an empty channel that hears nothing, whatever its capacity. -/
theorem shapeLeaving_nil (curve : Transfer N) (capacity : Nat) (f : Follower N) :
    shapeLeaving curve capacity [] f [] = [] := by
  rw [shapeLeaving, List.nil_append, Ring.leaving_of_length_le (Nat.zero_le _),
    List.zipWith_nil_left]

/-! ## Runs -/

/-- A run of calls on a device: the buffers that it has let in, those that it has
emitted, and the device after the calls. -/
inductive Run (start : Device N) : List (Buffer N) → List (Buffer N) → Device N → Prop where
  /-- no call yet -/
  | new : Run start [] [] start
  /-- a buffer that is let in -/
  | process {ins outs : List (Buffer N)} {d d' : Device N} {b : Buffer N}
      {out : Option (Buffer N)} :
      Run start ins outs d → d.process b = (.ok out, d') →
        Run start (ins ++ [b]) (outs ++ out.toList) d'
  /-- a buffer that is refused -/
  | refuse {ins outs : List (Buffer N)} {d d' : Device N} {b : Buffer N} {fault : Fault} :
      Run start ins outs d → d.process b = (.error fault, d') → Run start ins outs d'
  /-- a call for held samples -/
  | drain {ins outs : List (Buffer N)} {d d' : Device N} {out : Option (Buffer N)} :
      Run start ins outs d → d.drain = .ok (out, d') → Run start ins (outs ++ out.toList) d'

/-- What a device holds and what each channel has emitted after some buffers, of which a
number of samples left at the end of the stream. -/
structure Stands (start : Device N) (ins outs : List (Buffer N)) (d : Device N)
    (drained : Nat) : Prop where
  /-- the parameters stay -/
  parameters_eq : d.parameters = start.parameters
  /-- the layout stays -/
  layout_eq : d.layout = start.layout
  /-- the curve stays -/
  curve_eq : d.curve = start.curve
  /-- the lookahead keeps its length -/
  latency_eq : d.latency = start.latency
  /-- nothing has been drained unless the drain has begun -/
  drained_eq_zero : d.draining = false → drained = 0
  /-- each follower has heard its channel -/
  follower_eq : ∀ (channel : Nat) (f : Follower N), start.followers[channel]? = some f →
    d.followers[channel]? = some (f.after (Buffer.track ins channel))
  /-- of the samples that stayed, the drained ones are gone -/
  holds : d.Holds fun channel =>
    (Ring.staying start.latency (Buffer.track ins channel)).drop drained
  /-- what has been emitted -/
  track_eq : ∀ (channel : Nat) (f : Follower N), start.followers[channel]? = some f →
    Buffer.track outs channel =
      shapeLeaving start.curve start.latency [] f (Buffer.track ins channel) ++
        ((Ring.staying start.latency (Buffer.track ins channel)).take drained).map
          (shape start.curve · (f.after (Buffer.track ins channel)).volume)

variable {start d d' : Device N} {ins outs : List (Buffer N)} {b : Buffer N}
  {out : Option (Buffer N)} {drained : Nat}

theorem Stands.new (h : start.Holds fun _ => []) : Stands start [] [] start 0 := by
  refine ⟨rfl, rfl, rfl, rfl, fun _ => rfl, fun channel f hf => hf, ?_, ?_⟩
  · exact h.congr fun channel _ => by simp [Buffer.track, Ring.staying]
  · intro channel f _
    simp [Buffer.track, Ring.staying, shapeLeaving_nil]

/-- A device that has heard nothing holds nothing, so a call for held samples brings nothing
out. -/
theorem Stands.pending_eq_zero (h : Stands start [] outs d drained) : d.pending = 0 := by
  rw [← h.holds.length_queue h.holds.channels_pos]
  simp [Buffer.track, Ring.staying]

/-- A buffer that is let in moves every queue on, and no sample has been drained since
then. -/
theorem Stands.process (h : Stands start ins outs d drained) (hb : d.process b = (.ok out, d')) :
    Stands start (ins ++ [b]) (outs ++ out.toList) d' 0 := by
  obtain ⟨haccept, hprocessed⟩ := h.holds.processed hb
  obtain ⟨hshape, hdraining⟩ := accept_eq_ok_iff.mp haccept
  -- the buffer would have been refused if anything had been drained
  obtain rfl : drained = 0 := h.drained_eq_zero hdraining
  have hlen : b.planes.length = d.followers.length :=
    hshape.channels_eq.trans h.holds.length_followers.symm
  refine ⟨?_, ?_, ?_, ?_, fun _ => rfl, fun channel f hf => ?_, ?_, fun channel f hf => ?_⟩
  · rw [hprocessed.parameters_eq, h.parameters_eq]
  · rw [hprocessed.layout_eq, h.layout_eq]
  · rw [hprocessed.curve_eq, h.curve_eq]
  · rw [hprocessed.latency_eq, h.latency_eq]
  · rw [hprocessed.followers_eq, getElem?_hearPlanes hlen (h.follower_eq channel f hf),
      Buffer.track_append, Buffer.track_singleton, Follower.after_append]
  · refine hprocessed.holds.congr fun channel _ => ?_
    rw [List.drop_zero, List.drop_zero, h.latency_eq, Ring.staying_append, Buffer.track_append,
      Buffer.track_singleton]
  · have hout := hprocessed.track_eq channel _ (h.follower_eq channel f hf)
    have hsent := h.track_eq channel f hf
    rw [List.take_zero, List.map_nil, List.append_nil] at hsent ⊢
    rw [Buffer.track_append, hsent, hout, Buffer.track_append, Buffer.track_singleton,
      shapeLeaving_append, h.curve_eq, h.latency_eq, List.drop_zero]

/-- A call for held samples takes them off the front of every queue, and counts them as
drained. -/
theorem Stands.drain (h : Stands start ins outs d drained) (hd : d.drain = .ok (out, d')) :
    ∃ more, Stands start ins (outs ++ out.toList) d' (drained + more) := by
  have hdrained := h.holds.of_drain hd
  cases out with
  | none =>
    obtain ⟨-, rfl⟩ := hdrained.eq_of_none rfl
    refine ⟨0, ?_⟩
    rw [Option.toList_none, List.append_nil]
    exact h
  | some o =>
    refine ⟨drainLength, ?_, ?_, ?_, ?_, fun hnot => ?_, fun channel f hf => ?_, ?_,
      fun channel f hf => ?_⟩
    · rw [hdrained.parameters_eq, h.parameters_eq]
    · rw [hdrained.layout_eq, h.layout_eq]
    · rw [hdrained.curve_eq, h.curve_eq]
    · rw [hdrained.latency_eq, h.latency_eq]
    · rw [(hdrained.draining_eq o rfl).2] at hnot
      cases hnot
    · rw [hdrained.followers_eq, h.follower_eq channel f hf]
    · refine hdrained.holds.congr fun channel _ => ?_
      rw [List.drop_drop]
    · have hout := hdrained.track_eq channel _ (h.follower_eq channel f hf)
      rw [Buffer.track_append, h.track_eq channel f hf, hout, h.curve_eq, List.append_assoc,
        ← List.map_append, List.take_add]

/-- **Every run.** However the calls are mixed, what each channel has emitted is what
left its queue while the channel was heard, followed by the oldest samples that stayed. -/
theorem Run.stands (h : Run start ins outs d) (hnew : start.Holds fun _ => []) :
    ∃ drained, Stands start ins outs d drained := by
  induction h with
  | new => exact ⟨0, .new hnew⟩
  | process _ hb ih =>
    obtain ⟨drained, hstands⟩ := ih
    exact ⟨0, hstands.process hb⟩
  | refuse _ hb ih =>
    obtain ⟨drained, hstands⟩ := ih
    obtain ⟨-, rfl⟩ := hstands.holds.refused hb
    exact ⟨drained, hstands⟩
  | drain _ hd ih =>
    obtain ⟨drained, hstands⟩ := ih
    obtain ⟨more, hmore⟩ := hstands.drain hd
    exact ⟨drained + more, hmore⟩

/-! ## Whole streams -/

/-- Buffers one after another, and what comes out for them, up to the first fault. -/
def processAll : List (Buffer N) → Device N → Except Fault (List (Buffer N) × Device N)
  | [], d => .ok ([], d)
  | b :: rest, d =>
    match d.process b with
    | (.error fault, _) => .error fault
    | (.ok out, d) => do
      let (outs, d) ← processAll rest d
      return (out.toList ++ outs, d)

/-- A whole stream through a device: its buffers in order, then all that is held. -/
def stream (blocks : List (Buffer N)) (d : Device N) : Except Fault (List (Buffer N)) := do
  let (outs, d) ← processAll blocks d
  let (rest, _) ← d.finish
  return outs ++ rest

/-- Buffers one after another are a run, one step for each. -/
theorem Run.processAll {blocks more : List (Buffer N)} (h : Run start ins outs d)
    (hall : Device.processAll blocks d = .ok (more, d')) :
    Run start (ins ++ blocks) (outs ++ more) d' := by
  induction blocks generalizing ins outs d more with
  | nil =>
    obtain ⟨rfl, rfl⟩ := Prod.mk.inj (Except.ok.inj hall)
    rwa [List.append_nil, List.append_nil]
  | cons b rest ih =>
    rw [Device.processAll] at hall
    split at hall
    · cases hall
    rename_i out d₁ hprocess
    cases hrest : Device.processAll rest d₁ with
    | error fault =>
      rw [hrest] at hall
      cases hall
    | ok result =>
      rw [hrest] at hall
      obtain ⟨rfl, rfl⟩ := Prod.mk.inj (Except.ok.inj hall)
      have hrun := ih (h.process hprocess) hrest
      rwa [List.append_assoc, List.append_assoc, List.singleton_append] at hrun

/-- A drain is a run, with one step for each buffer that comes out. -/
theorem Run.drainUpTo {count : Nat} {rest : List (Buffer N)} (h : Run start ins outs d)
    (hdrain : Device.drainUpTo count d = .ok (rest, d')) : Run start ins (outs ++ rest) d' := by
  induction count generalizing outs d rest with
  | zero =>
    obtain ⟨rfl, rfl⟩ := Prod.mk.inj (Except.ok.inj hdrain)
    rwa [List.append_nil]
  | succ count ih =>
    rw [Device.drainUpTo] at hdrain
    cases hone : d.drain with
    | error fault =>
      rw [hone] at hdrain
      cases hdrain
    | ok result =>
      obtain ⟨out, d₁⟩ := result
      have hrun := h.drain hone
      rw [hone] at hdrain
      cases out with
      | none =>
        obtain ⟨rfl, rfl⟩ := Prod.mk.inj (Except.ok.inj hdrain)
        exact hrun
      | some o =>
        cases hrest : Device.drainUpTo count d₁ with
        | error fault =>
          simp only [bind, Except.bind, hrest] at hdrain
          cases hdrain
        | ok result =>
          simp only [bind, Except.bind, hrest] at hdrain
          obtain ⟨rfl, rfl⟩ := Prod.mk.inj (Except.ok.inj hdrain)
          have hall := ih hrun hrest
          rwa [List.append_assoc] at hall

/-- Buffers that belong to the stream meet no fault as long as nothing is drained. -/
theorem Stands.processAll (h : Stands start ins outs d drained) (hdraining : d.draining = false)
    {blocks : List (Buffer N)}
    (hblocks : ∀ b ∈ blocks, b.HasShape start.layout.channels b.length) :
    ∃ more d', Device.processAll blocks d = .ok (more, d') ∧
      Stands start (ins ++ blocks) (outs ++ more) d' 0 := by
  obtain rfl : drained = 0 := h.drained_eq_zero hdraining
  induction blocks generalizing ins outs d with
  | nil =>
    refine ⟨[], d, rfl, ?_⟩
    rwa [List.append_nil, List.append_nil]
  | cons b rest ih =>
    have hshape : b.HasShape d.layout.channels b.length :=
      h.layout_eq.symm ▸ hblocks b (List.mem_cons_self ..)
    obtain ⟨out, d', hprocess, hprocessed⟩ :=
      h.holds.process (accept_eq_ok_iff.mpr ⟨hshape, hdraining⟩)
    obtain ⟨more, d'', hrest, hstands⟩ := ih (hprocessed.draining_eq.trans hdraining)
      (fun b' hb' => hblocks b' (List.mem_cons_of_mem _ hb')) (h.process hprocess)
    refine ⟨out.toList ++ more, d'', ?_, ?_⟩
    · rw [Device.processAll, hprocess]
      simp only [hrest, bind, Except.bind, pure, Except.pure]
    · rwa [List.append_assoc, List.append_assoc, List.singleton_append] at hstands

end Compander.Device
