import Compander.Device
import Compander.Proofs.Lookahead.Queue

/-!
# What a device holds

A device holds a queue of samples for each channel, which without a lookahead is always
empty. A new device holds nothing, and it lets in whatever belongs to its stream until it
is drained.

* `Buffer.track` — the samples of one channel, through any number of buffers;
* `Buffer.HasShape` — how many channels a buffer has and how long they are;
* `Device.Holds` — a device holds some queues;
* `Device.accept_eq_ok_iff` — which buffers it lets in;
* `Device.isNew_of_setUp` — all there is to say about a device that has been set up;
* `Device.reconfigure_eq_setUp` — so it is with a device for another layout.

`Holds` is the invariant of everything that follows. Where the samples stand in the rings, and
where the cursor is, is not said here again: it is what `Lookahead.Holds` says, and nothing after
this module looks at a ring.
-/

namespace Compander

variable {N : Type}

/-! ## Samples by channel -/

/-- The samples of a channel of a buffer. -/
def Buffer.plane {α : Type} (b : Buffer α) (channel : Nat) : List α :=
  b.planes.getD channel []

theorem Buffer.plane_of_getElem? {α : Type} {b : Buffer α} {channel : Nat} {plane : List α}
    (h : b.planes[channel]? = some plane) : b.plane channel = plane := by
  rw [Buffer.plane, List.getD_eq_getElem?_getD, h, Option.getD_some]

/-- The samples of a channel of some buffers, one after another. -/
def Buffer.track {α : Type} (buffers : List (Buffer α)) (channel : Nat) : List α :=
  buffers.flatMap (·.plane channel)

theorem Buffer.track_append {α : Type} (buffers more : List (Buffer α)) (channel : Nat) :
    track (buffers ++ more) channel = track buffers channel ++ track more channel :=
  List.flatMap_append

theorem Buffer.track_singleton {α : Type} (b : Buffer α) (channel : Nat) :
    track [b] channel = b.plane channel := by
  rw [track, List.flatMap_singleton]

/-- All channels of a buffer have a number of samples. -/
structure Buffer.HasShape {α : Type} (b : Buffer α) (channels length : Nat) : Prop where
  /-- the number of channels -/
  channels_eq : b.channels = channels
  /-- the number of samples of each -/
  length_plane : ∀ plane ∈ b.planes, plane.length = length

/-- The planes of a well-formed buffer are as long as the buffer, so the check and the shape
agree. -/
theorem Buffer.hasShape_iff {α : Type} {b : Buffer α} {channels : Nat} :
    b.HasShape channels b.length ↔ b.channels = channels ∧ b.isWellFormed = true := by
  rw [isWellFormed, List.all_eq_true]
  exact ⟨fun h => ⟨h.1, fun p hp => decide_eq_true (h.2 p hp)⟩,
    fun h => ⟨h.1, fun p hp => of_decide_eq_true (h.2 p hp)⟩⟩

/-- If there is a channel, the length of a buffer is that of all of them. -/
theorem Buffer.HasShape.length_eq {α : Type} {b : Buffer α} {channels length : Nat}
    (h : b.HasShape channels length) (hpos : 0 < channels) : b.length = length := by
  obtain ⟨planes, stamp⟩ := b
  cases planes with
  | nil => exact absurd h.channels_eq (Nat.ne_of_lt hpos)
  | cons plane planes => exact h.length_plane plane (List.mem_cons_self ..)

/-- The samples of a channel that there is are as many as the buffer is long; a channel that
there is not has none. -/
theorem Buffer.HasShape.length_plane_of_lt {α : Type} {b : Buffer α} {channels length channel : Nat}
    (h : b.HasShape channels length) (hc : channel < channels) :
    (b.plane channel).length = length := by
  have hin : channel < b.planes.length := Nat.lt_of_lt_of_eq hc h.channels_eq.symm
  rw [plane_of_getElem? (List.getElem?_eq_getElem hin)]
  exact h.length_plane _ (List.getElem_mem hin)

/-- A buffer whose channels are known one by one has a shape, which is how the outputs of a
device get theirs. -/
theorem Buffer.HasShape.of_getElem? {α : Type} {b : Buffer α} {channels length : Nat}
    (hchannels : b.channels = channels)
    (h : ∀ channel < channels, ∃ plane, b.planes[channel]? = some plane ∧ plane.length = length) :
    b.HasShape channels length := by
  refine ⟨hchannels, fun plane hp => ?_⟩
  obtain ⟨channel, hchannel⟩ := List.getElem?_of_mem hp
  have hc : channel < channels := hchannels ▸ (List.getElem?_eq_some_iff.mp hchannel).1
  obtain ⟨plane', hplane', hlength⟩ := h channel hc
  rw [hchannel] at hplane'
  obtain rfl := Option.some.inj hplane'
  exact hlength

namespace Device

/-- What an outcome holds is what it succeeds with: no error becomes a value. -/
theorem eq_ok_of_toOption {ε α : Type} {outcome : Except ε α} {a : α}
    (h : outcome.toOption = some a) : outcome = .ok a := by
  cases outcome with
  | error e => cases h
  | ok a' => exact congrArg Except.ok (Option.some.inj h)

/-! ## Queues -/

/-- A device holds a queue for each channel. -/
structure Holds (d : Device N) (queue : Nat → List N) : Prop where
  /-- the stream has a channel -/
  channels_pos : 0 < d.layout.channels
  /-- each channel has a follower -/
  length_followers : d.followers.length = d.layout.channels
  /-- without a lookahead nothing is held -/
  direct : d.path = .direct → ∀ channel < d.layout.channels, queue channel = []
  /-- a lookahead holds the queues -/
  delayed : ∀ line, d.path = .delayed line →
    line.Holds queue ∧ line.channels = d.layout.channels

variable {d : Device N} {queue : Nat → List N}

/-- A device without a lookahead holds nothing, and its queues are empty at every moment. -/
theorem Holds.of_direct (hpath : d.path = .direct) (hpos : 0 < d.layout.channels)
    (hfoll : d.followers.length = d.layout.channels)
    (hqueue : ∀ channel < d.layout.channels, queue channel = []) : d.Holds queue := by
  refine ⟨hpos, hfoll, fun _ => hqueue, fun line hline => ?_⟩
  rw [hpath] at hline
  cases hline

/-- A device with a lookahead holds what the lookahead holds, if it has a ring for each
channel. -/
theorem Holds.of_delayed {line : Lookahead N} (hpath : d.path = .delayed line)
    (hpos : 0 < d.layout.channels) (hfoll : d.followers.length = d.layout.channels)
    (hline : line.Holds queue) (hsize : line.channels = d.layout.channels) : d.Holds queue := by
  refine ⟨hpos, hfoll, fun hdirect => ?_, fun line' hline' => ?_⟩
  · rw [hpath] at hdirect
    cases hdirect
  · rw [hpath] at hline'
    obtain rfl := Path.delayed.inj hline'
    exact ⟨hline, hsize⟩

theorem latency_of_delayed {line : Lookahead N} (hpath : d.path = .delayed line) :
    d.latency = line.capacity := by
  rw [latency, hpath]

theorem pending_of_delayed {line : Lookahead N} (hpath : d.path = .delayed line) :
    d.pending = line.filled := by
  rw [pending, hpath]

/-- Only the queues of the channels that there are matter; a function says something about the
others too, and it may be anything. -/
theorem Holds.congr {queue' : Nat → List N} (h : d.Holds queue)
    (heq : ∀ channel < d.layout.channels, queue' channel = queue channel) : d.Holds queue' := by
  refine ⟨h.channels_pos, h.length_followers, fun hpath channel hc => ?_, fun line hpath => ?_⟩
  · rw [heq channel hc, h.direct hpath channel hc]
  · obtain ⟨hline, hsize⟩ := h.delayed line hpath
    exact ⟨hline.congr fun channel hc => heq channel (hsize ▸ hc), hsize⟩

/-- Every channel holds as many samples as the device counts, so the queues are all of one
length. -/
theorem Holds.length_queue (h : d.Holds queue) {channel : Nat} (hc : channel < d.layout.channels) :
    (queue channel).length = d.pending := by
  rw [pending]
  cases hpath : d.path with
  | direct => rw [h.direct hpath channel hc, List.length_nil]
  | delayed line =>
    obtain ⟨hline, hsize⟩ := h.delayed line hpath
    exact hline.length_eq (hsize ▸ hc)

/-- No more is held than the output lags behind the input. -/
theorem Holds.pending_le (h : d.Holds queue) : d.pending ≤ d.latency := by
  rw [pending, latency]
  cases hpath : d.path with
  | direct => exact Nat.le_refl 0
  | delayed line => exact (h.delayed line hpath).1.fits.filled_le

/-- What a device holds once the oldest samples have been taken out of its lookahead. -/
theorem Holds.of_consume (h : d.Holds queue) {line : Lookahead N} (hpath : d.path = .delayed line)
    {d' : Device N} (hlayout : d'.layout = d.layout) (hfollowers : d'.followers = d.followers)
    (hpath' : d'.path = .delayed (line.consume (min line.filled drainLength))) :
    d'.Holds fun channel => (queue channel).drop drainLength := by
  obtain ⟨hline, hsize⟩ := h.delayed line hpath
  refine .of_delayed hpath' (hlayout ▸ h.channels_pos) ?_ ?_ (hlayout ▸ hsize)
  · rw [hfollowers, h.length_followers, hlayout]
  · refine (hline.consume _).congr fun channel hc => ?_
    have hlen := hline.length_eq hc
    -- a queue that is shorter than a buffer is dropped whole either way
    rcases Nat.le_total line.filled drainLength with hle | hle
    · rw [Nat.min_eq_left hle, List.drop_of_length_le (hlen ▸ hle),
        List.drop_of_length_le (hlen ▸ Nat.le_refl _)]
    · rw [Nat.min_eq_right hle]

/-! ## Letting a buffer in -/

/-- A buffer that belongs to the stream is refused only after the drain has begun. -/
theorem accept_of_hasShape {b : Buffer N} (h : b.HasShape d.layout.channels b.length) :
    d.accept b = if d.draining then .error .afterDrain else .ok () := by
  obtain ⟨hchannels, hformed⟩ := Buffer.hasShape_iff.mp h
  simp only [accept, hchannels, hformed, ne_eq, not_true_eq_false, if_false, Bool.not_true,
    Bool.false_eq_true]
  cases d.draining <;> rfl

/-- A buffer is let in if it belongs to the stream and the drain has not begun. -/
theorem accept_eq_ok_iff {b : Buffer N} :
    d.accept b = .ok () ↔
      b.HasShape d.layout.channels b.length ∧ d.draining = false := by
  rw [Buffer.hasShape_iff]
  simp only [accept, bind, Except.bind, throw, throwThe, MonadExceptOf.throw, pure, Except.pure]
  by_cases h₁ : b.channels = d.layout.channels <;> cases h₂ : b.isWellFormed <;>
    cases h₃ : d.draining <;> simp [h₁]

/-! ## Setting up -/

/-- All there is to say about a device that has been set up. -/
structure IsNew [Memory] [NarrowArithmetic N] [Precision Float N] (p : Parameters) (layout : Layout)
    (d : Device N) : Prop where
  /-- the layout has something to process -/
  layout_checked : layout.check = .ok ()
  /-- the parameters fit the channels -/
  parameters_checked : p.checkFor layout.channels = .ok ()
  /-- the parameters are kept -/
  parameters_eq : d.parameters = p
  /-- the layout is kept -/
  layout_eq : d.layout = layout
  /-- the curve is drawn -/
  curve_drawn : Transfer.draw p.points p.softKnee p.gain = .ok d.curve
  /-- each channel has its follower -/
  followers_eq : d.followers = (List.range layout.channels).map (followerFor p layout.rate)
  /-- the lookahead is as long as the parameters say -/
  latency_eq : d.latency = Decibel.samplesIn p.delay layout.rate
  /-- nothing is held -/
  holds : d.Holds fun _ => []
  /-- no buffer has set the clock -/
  nextStamp_eq : d.nextStamp = none
  /-- the drain has not begun -/
  draining_eq : d.draining = false

/-- The follower of a channel of a new device has heard nothing and has the time constants of
that channel. -/
theorem IsNew.getElem?_followers [Memory] [NarrowArithmetic N] [Precision Float N] {p : Parameters}
    {layout : Layout} (h : IsNew p layout d) {channel : Nat} (hc : channel < layout.channels) :
    d.followers[channel]? = some (followerFor p layout.rate channel) := by
  rw [h.followers_eq, List.getElem?_map, List.getElem?_range hc]
  rfl

/-- A layout that is not refused has something to process: it has channels, a rate, and a tick
that is a length of time. -/
theorem of_layout_check {layout : Layout} (h : layout.check = .ok ()) :
    0 < layout.channels ∧ 0 < layout.rate ∧ layout.tick.isValid = true := by
  simp only [Layout.check, bind, Except.bind, throw, throwThe, MonadExceptOf.throw, pure,
    Except.pure] at h
  split at h
  · cases h
  rename_i hchannels
  split at h
  · cases h
  rename_i hrate
  split at h
  · cases h
  rename_i htick
  exact ⟨Nat.pos_of_ne_zero hchannels, Nat.pos_of_ne_zero hrate, by simpa using htick⟩

/-- A path that was made for some parameters is as long as they say, and holds nothing. -/
theorem path_of_pathFor [Memory] [NarrowArithmetic N] [Precision Float N] {p : Parameters}
    {layout : Layout} {path : Path N} (h : pathFor p layout = .ok path) :
    path = .direct ∧ Decibel.samplesIn p.delay layout.rate = 0 ∨
      ∃ line, path = .delayed line ∧ line.Holds (fun _ => []) ∧
        line.channels = layout.channels ∧
        line.capacity = Decibel.samplesIn p.delay layout.rate := by
  simp only [pathFor] at h
  split at h
  · rename_i hzero
    exact .inl ⟨(Except.ok.inj h).symm, hzero⟩
  · cases hcreate : Lookahead.create (0.0 : N) layout.channels
        (Decibel.samplesIn p.delay layout.rate) with
    | error error =>
      rw [hcreate] at h
      cases h
    | ok line =>
      rw [hcreate] at h
      exact .inr ⟨line, (Except.ok.inj h).symm, Lookahead.holds_of_create hcreate⟩

/-- **A new device.** If a device can be set up, it is as the parameters and the layout
say, and holds nothing. -/
theorem isNew_of_setUp [Memory] [NarrowArithmetic N] [Precision Float N] {p : Parameters}
    {layout : Layout}
    (h : setUp p layout = .ok d) : IsNew p layout d := by
  simp only [setUp, bind, Except.bind, pure, Except.pure] at h
  split at h
  · cases h
  rename_i hlayout
  split at h
  · cases h
  rename_i hparameters
  split at h
  · cases h
  rename_i curve hcurve
  split at h
  · cases h
  split at h
  · cases h
  rename_i path hpath
  obtain rfl := Except.ok.inj h
  have hpos := (of_layout_check hlayout).1
  have hfoll : ((List.range layout.channels).map (followerFor (N := N) p layout.rate)).length =
      layout.channels := by
    rw [List.length_map, List.length_range]
  rcases path_of_pathFor hpath with ⟨rfl, hzero⟩ | ⟨line, rfl, hline, hchannels, hcapacity⟩
  · exact ⟨hlayout, hparameters, rfl, rfl, hcurve, rfl, hzero.symm,
      .of_direct rfl hpos hfoll fun _ _ => rfl, rfl, rfl⟩
  · exact ⟨hlayout, hparameters, rfl, rfl, hcurve, rfl, hcapacity,
      .of_delayed rfl hpos hfoll hline hchannels, rfl, rfl⟩

/-- A device for another layout is a new one with the same parameters: nothing else is left
of the device that it was. -/
theorem reconfigure_eq_setUp [Memory] [NarrowArithmetic N] [Precision Float N] (d : Device N)
    (layout : Layout) : d.reconfigure layout = setUp d.parameters layout := by
  rw [reconfigure]
  cases hnew : setUp (N := N) d.parameters layout with
  | error error => rfl
  | ok fresh =>
    have hfresh := isNew_of_setUp hnew
    obtain ⟨parameters, _, _, _, _, nextStamp, draining⟩ := fresh
    obtain rfl : parameters = d.parameters := hfresh.parameters_eq
    obtain rfl : nextStamp = none := hfresh.nextStamp_eq
    obtain rfl : draining = false := hfresh.draining_eq
    rfl

end Device

end Compander
