import Compander.Proofs.Device.History
import Compander.Proofs.Device.Setup

/-!
# Channels on their own

The channels of a stream share a curve, a clock, and the cursor of the lookahead. Still a
channel comes out as if it were the only one:

* `Parameters.only`, `Layout.single`, `Buffer.only`, `Device.Call.only`, `Device.Answer.only` —
  what is left of each for one channel;
* `Device.Alone` — a device for one channel is in step with a device for all of them;
* `Device.Alone.process`, `Device.Alone.drain`, `Device.Alone.finish`, `Device.alone_of_setUp` —
  no call takes them out of step;
* `Device.callAll_only` — so a channel's answers are those of the device that is set up for it
  alone, and do not depend on the samples of the others.

What is shared depends on the lengths and the stamps of buffers, and never on a sample. A
buffer that does not belong to the stream is left out: the planes of the other channels may be
what is wrong with it.
-/

namespace Compander

/-- The parameters with no time constants but those of a channel. -/
def Parameters.only (p : Parameters) (channel : Nat) : Parameters :=
  { p with attacks := [(p.timesOf channel).1], decays := [(p.timesOf channel).2] }

/-- The only time constants left for the channel are its own, and none are left if it has
none. -/
theorem Parameters.timesOf_only (p : Parameters) (channel : Nat) :
    (p.only channel).timesOf 0 = p.timesOf channel :=
  rfl

/-- Accepted parameters are accepted for each channel on its own: leaving out the other pairs
of time constants breaks no check. -/
theorem Parameters.Accepted.only {p : Parameters} (h : p.Accepted) (channel : Nat) :
    (p.only channel).Accepted := by
  obtain ⟨hattack, hdecay⟩ := h.timesOf_isTime channel
  refine { h with
    attacks_ne_nil := List.cons_ne_nil _ _, length_eq := rfl, attacks_isTime := ?_,
    decays_isTime := ?_ }
  · intro seconds hs
    obtain rfl := List.mem_singleton.mp hs
    exact hattack
  · intro seconds hs
    obtain rfl := List.mem_singleton.mp hs
    exact hdecay

/-- The layout with a single channel. -/
def Layout.single (l : Layout) : Layout :=
  { l with channels := 1 }

/-- A layout with something to process has something to process in each channel, since its
rate and its tick are kept and one channel is enough. -/
theorem Layout.check_single {l : Layout} (h : l.check = .ok ()) : l.single.check = .ok () := by
  obtain ⟨-, hrate, htick⟩ := Device.of_layout_check h
  simp only [check, single, htick, hrate.ne', if_false]
  rfl

namespace Buffer

variable {α : Type} {b : Buffer α} {channels length channel : Nat}

/-- A buffer with no channel but one, if there is that one. -/
def only (b : Buffer α) (channel : Nat) : Buffer α :=
  ⟨b.planes[channel]?.toList, b.stamp⟩

theorem HasShape.only_eq (h : b.HasShape channels length) (hc : channel < channels) :
    b.only channel = ⟨[b.plane channel], b.stamp⟩ := by
  have hin : channel < b.planes.length := Nat.lt_of_lt_of_eq hc h.channels_eq.symm
  have hplane : b.planes[channel]? = some b.planes[channel] := List.getElem?_eq_getElem hin
  rw [only, plane_of_getElem? hplane, hplane, Option.toList_some]

/-- One channel of a buffer belongs to a stream of one channel, as long as the buffer has that
channel. -/
theorem HasShape.only (h : b.HasShape channels length) (hc : channel < channels) :
    (b.only channel).HasShape 1 length := by
  rw [h.only_eq hc]
  refine ⟨rfl, fun plane hp => ?_⟩
  obtain rfl := List.mem_singleton.mp hp
  exact h.length_plane_of_lt hc

theorem HasShape.plane_only (h : b.HasShape channels length) (hc : channel < channels) :
    (b.only channel).plane 0 = b.plane channel := by
  rw [h.only_eq hc]
  rfl

/-- A buffer of one channel, with its samples, is what is left of a buffer for it. -/
theorem HasShape.eq_only (h : b.HasShape channels length) (hc : channel < channels)
    {alone : Buffer α} {length' : Nat} (halone : alone.HasShape 1 length')
    (hplane : alone.plane 0 = b.plane channel) (hstamp : alone.stamp = b.stamp) :
    alone = b.only channel := by
  rw [h.only_eq hc]
  obtain ⟨planes, stamp⟩ := alone
  obtain ⟨plane, rfl⟩ := List.length_eq_one_iff.mp halone.channels_eq
  obtain rfl : plane = b.plane channel := hplane
  obtain rfl : stamp = b.stamp := hstamp
  rfl

/-- What comes out of the device for one channel is what is left, for that channel, of what
comes out of the other: either nothing in both, or the same samples with the same stamp. A
buffer of one channel is settled by these two. -/
theorem eq_map_only {out aloneOut : Option (Buffer α)} {aloneLength : Nat}
    (hc : channel < channels)
    (hsome : aloneOut.isSome ↔ out.isSome)
    (hout : ∀ o, out = some o → o.HasShape channels length)
    (halone : ∀ o, aloneOut = some o → o.HasShape 1 aloneLength)
    (htrack : track aloneOut.toList 0 = track out.toList channel)
    (hstamp : aloneOut.bind stamp = out.bind stamp) :
    aloneOut = out.map (·.only channel) := by
  cases out with
  | none => simpa using hsome
  | some o =>
    cases aloneOut with
    | none => simp at hsome
    | some o' =>
      simp only [Option.toList_some, track_singleton] at htrack
      exact congrArg some ((hout o rfl).eq_only hc (halone o' rfl) htrack hstamp)

end Buffer

namespace Device

variable {N : Type} {channels channel : Nat}

/-! ## Calls for one channel -/

/-- What is left of a call for one channel. -/
def Call.only (channel : Nat) : Call N → Call N
  | .process b => .process (b.only channel)
  | .drain => .drain
  | .finish => .finish
  | .reconfigure layout => .reconfigure layout.single

/-- What is left of an answer for one channel. -/
def Answer.only (channel : Nat) : Answer N → Answer N
  | .processed left => .processed (left.map (Option.map (·.only channel)))
  | .drained left => .drained (left.map (Option.map (·.only channel)))
  | .finished left => .finished (left.map (List.map (·.only channel)))
  | .reconfigured done => .reconfigured done

/-- A call for a number of channels. -/
def Call.Belongs (channels : Nat) : Call N → Prop
  | .process b => b.HasShape channels b.length
  | .reconfigure layout => layout.channels = channels
  | _ => True

/-- A layout was refused. -/
def Answer.refusesLayout : Answer N → Bool
  | .reconfigured (.error _) => true
  | _ => false

/-! ## Devices in step -/

/-- A device that hears a single channel is in step with one that hears them all. -/
structure Alone (channels channel : Nat) (d alone : Device N) : Prop where
  /-- the channel is one of the stream -/
  lt : channel < channels
  /-- the number of channels -/
  channels_eq : d.layout.channels = channels
  /-- the parameters are those for the channel -/
  parameters_eq : alone.parameters = d.parameters.only channel
  /-- the layouts agree but for the number of channels -/
  layout_eq : alone.layout = d.layout.single
  /-- the curve is the same -/
  curve_eq : alone.curve = d.curve
  /-- the follower is the one of the channel -/
  follower_eq : alone.followers[0]? = d.followers[channel]?
  /-- the lookaheads are equally long -/
  latency_eq : alone.latency = d.latency
  /-- the clocks show the same -/
  nextStamp_eq : alone.nextStamp = d.nextStamp
  /-- the drain has begun in both or in neither -/
  draining_eq : alone.draining = d.draining
  /-- the queue is the one of the channel -/
  holds : ∃ queue, d.Holds queue ∧ alone.Holds fun _ => queue channel

variable {d d' alone alone' : Device N} {queue : Nat → List N} {b : Buffer N}
  {out aloneOut : Option (Buffer N)}

/-- The second device has one channel, whichever channel of the first it follows. -/
theorem Alone.channels_eq_one (h : Alone channels channel d alone) : alone.layout.channels = 1 := by
  rw [h.layout_eq, Layout.single]

/-- Both devices hold equally many samples, as the queues of the first are all of one
length. -/
theorem Alone.pending_eq (h : Alone channels channel d alone) : alone.pending = d.pending := by
  obtain ⟨queue, hd, halone⟩ := h.holds
  rw [← hd.length_queue (Nat.lt_of_lt_of_eq h.lt h.channels_eq.symm),
    ← halone.length_queue halone.channels_pos]

/-- The follower of the channel is there in both devices, and it is the same one. -/
theorem Alone.exists_follower (h : Alone channels channel d alone) :
    ∃ f, d.followers[channel]? = some f ∧ alone.followers[0]? = some f := by
  obtain ⟨queue, hd, -⟩ := h.holds
  have hin : channel < d.followers.length := by
    rw [hd.length_followers, h.channels_eq]
    exact h.lt
  refine ⟨_, List.getElem?_eq_getElem hin, ?_⟩
  rw [h.follower_eq, List.getElem?_eq_getElem hin]

variable [NarrowArithmetic N]

/-- A buffer that is let in by both keeps them in step, and what comes out of the second is
what is left of what comes out of the first. All that is used is what `Processed` says of
each. -/
theorem Alone.of_processed (h : Alone channels channel d alone)
    (hb : b.HasShape channels b.length) (hq : d.Holds queue)
    (haq : alone.Holds fun _ => queue channel) (hd : Processed d queue b out d')
    (halone : Processed alone (fun _ => queue channel) (b.only channel) aloneOut alone') :
    aloneOut = out.map (·.only channel) ∧ Alone channels channel d' alone' := by
  have honly := hb.only h.lt
  have hplane := hb.plane_only h.lt
  have hone := h.channels_eq_one
  obtain ⟨f, hf, haf⟩ := h.exists_follower
  have hclock : (aloneOut.bind Buffer.stamp, alone'.nextStamp) =
      (out.bind Buffer.stamp, d'.nextStamp) := by
    rw [halone.clock_eq, hd.clock_eq, h.latency_eq, h.pending_eq, h.nextStamp_eq, h.layout_eq,
      honly.length_eq Nat.one_pos]
    rfl
  obtain ⟨hstamp, hnext⟩ := Prod.mk.inj hclock
  have hsome : aloneOut.isSome ↔ out.isSome := by
    rw [halone.isSome_iff, hd.isSome_iff, h.latency_eq, h.pending_eq, honly.length_eq Nat.one_pos]
  have htrack : Buffer.track aloneOut.toList 0 = Buffer.track out.toList channel := by
    rw [halone.track_eq 0 f haf, hd.track_eq channel f hf, h.curve_eq, h.latency_eq, hplane]
  have hfollower : alone'.followers[0]? = d'.followers[channel]? := by
    rw [halone.followers_eq, hd.followers_eq,
      getElem?_hearPlanes (hb.channels_eq.trans (h.channels_eq ▸ hq.length_followers.symm)) hf,
      getElem?_hearPlanes (honly.channels_eq.trans (hone ▸ haq.length_followers.symm)) haf, hplane]
  have hout := Buffer.eq_map_only h.lt hsome (h.channels_eq ▸ hd.hasShape)
    (hone ▸ halone.hasShape) htrack hstamp
  refine ⟨hout, ?_⟩
  exact {
    lt := h.lt
    channels_eq := by rw [hd.layout_eq, h.channels_eq]
    parameters_eq := by rw [halone.parameters_eq, hd.parameters_eq, h.parameters_eq]
    layout_eq := by rw [halone.layout_eq, hd.layout_eq, h.layout_eq]
    curve_eq := by rw [halone.curve_eq, hd.curve_eq, h.curve_eq]
    follower_eq := hfollower
    latency_eq := by rw [halone.latency_eq, hd.latency_eq, h.latency_eq]
    nextStamp_eq := hnext
    draining_eq := by rw [halone.draining_eq, hd.draining_eq, h.draining_eq]
    holds := ⟨_, hd.holds, halone.holds.congr fun c hc => by
      obtain rfl : c = 0 := by
        rw [halone.layout_eq, hone] at hc
        exact Nat.lt_one_iff.mp hc
      rw [hplane, h.latency_eq]⟩ }

/-- **A buffer.** What comes out for one channel is that channel of what comes out. -/
theorem Alone.process (h : Alone channels channel d alone) (hb : b.HasShape channels b.length) :
    (alone.process (b.only channel)).1 =
        (d.process b).1.map (Option.map (·.only channel)) ∧
      Alone channels channel (d.process b).2 (alone.process (b.only channel)).2 := by
  obtain ⟨queue, hq, haq⟩ := h.holds
  have honly := hb.only h.lt
  have hone := h.channels_eq_one
  have hlength := honly.length_eq Nat.one_pos
  rw [← hlength, ← hone] at honly
  have haccept : alone.accept (b.only channel) = d.accept b := by
    rw [accept_of_hasShape honly, accept_of_hasShape (h.channels_eq.symm ▸ hb), h.draining_eq]
  cases hrefused : d.accept b with
  | error fault =>
    rw [process_of_refused hrefused, process_of_refused (haccept.trans hrefused)]
    exact ⟨rfl, h⟩
  | ok =>
    obtain ⟨out, d', hprocess, hprocessed⟩ := hq.process hrefused
    obtain ⟨aloneOut, alone', haprocess, haprocessed⟩ := haq.process (haccept.trans hrefused)
    obtain ⟨rfl, hafter⟩ := h.of_processed hb hq haq hprocessed haprocessed
    rw [hprocess, haprocess]
    exact ⟨rfl, hafter⟩

/-- What comes out of both in a call for held samples is the same for the channel, and they
stay in step. -/
theorem Alone.of_drained (h : Alone channels channel d alone) (hd : Drained d queue out d')
    (halone : Drained alone (fun _ => queue channel) aloneOut alone') :
    aloneOut = out.map (·.only channel) ∧ Alone channels channel d' alone' := by
  have hone := h.channels_eq_one
  obtain ⟨f, hf, haf⟩ := h.exists_follower
  have hclock : (aloneOut.bind Buffer.stamp, alone'.nextStamp) =
      (out.bind Buffer.stamp, d'.nextStamp) := by
    rw [halone.clock_eq, hd.clock_eq, h.pending_eq, h.nextStamp_eq, h.layout_eq]
    rfl
  obtain ⟨hstamp, hnext⟩ := Prod.mk.inj hclock
  have hsome : aloneOut.isSome ↔ out.isSome := by
    rw [halone.isSome_iff, hd.isSome_iff, h.pending_eq]
  have htrack : Buffer.track aloneOut.toList 0 = Buffer.track out.toList channel := by
    rw [halone.track_eq 0 f haf, hd.track_eq channel f hf, h.curve_eq]
  have hout := Buffer.eq_map_only h.lt hsome (h.channels_eq ▸ hd.hasShape)
    (hone ▸ halone.hasShape) htrack hstamp
  refine ⟨hout, ?_⟩
  exact {
    lt := h.lt
    channels_eq := by rw [hd.layout_eq, h.channels_eq]
    parameters_eq := by rw [halone.parameters_eq, hd.parameters_eq, h.parameters_eq]
    layout_eq := by rw [halone.layout_eq, hd.layout_eq, h.layout_eq]
    curve_eq := by rw [halone.curve_eq, hd.curve_eq, h.curve_eq]
    follower_eq := by rw [halone.followers_eq, hd.followers_eq, h.follower_eq]
    latency_eq := by rw [halone.latency_eq, hd.latency_eq, h.latency_eq]
    nextStamp_eq := hnext
    draining_eq := by
      rw [halone.draining_eq_or, hd.draining_eq_or, h.draining_eq, Bool.eq_iff_iff.mpr hsome]
    holds := ⟨_, hd.holds, halone.holds⟩ }

/-- **A call for held samples** meets no fault in either device, and keeps them in step. -/
theorem Alone.drain (h : Alone channels channel d alone) :
    ∃ out d' alone', d.drain = .ok (out, d') ∧
      alone.drain = .ok (out.map (·.only channel), alone') ∧ Alone channels channel d' alone' := by
  obtain ⟨queue, hq, haq⟩ := h.holds
  obtain ⟨out, d', hdrain, hdrained⟩ := hq.drain
  obtain ⟨aloneOut, alone', hadrain, hadrained⟩ := haq.drain
  obtain ⟨rfl, hafter⟩ := h.of_drained hdrained hadrained
  exact ⟨out, d', alone', hdrain, hadrain, hafter⟩

/-- Any number of calls for held samples keeps them in step, by induction on that number. -/
theorem Alone.drainUpTo (h : Alone channels channel d alone) (count : Nat) :
    ∃ outs d' alone', Device.drainUpTo count d = .ok (outs, d') ∧
      Device.drainUpTo count alone = .ok (outs.map (·.only channel), alone') ∧
        Alone channels channel d' alone' := by
  induction count generalizing d alone with
  | zero => exact ⟨[], d, alone, rfl, rfl, h⟩
  | succ count ih =>
    obtain ⟨out, d₁, alone₁, hdrain, hadrain, h₁⟩ := h.drain
    cases out with
    | none =>
      exact ⟨[], d₁, alone₁, drainUpTo_of_none hdrain, drainUpTo_of_none hadrain, h₁⟩
    | some o =>
      obtain ⟨outs, d₂, alone₂, hrest, harest, h₂⟩ := ih h₁
      exact ⟨o :: outs, d₂, alone₂, drainUpTo_of_some hdrain hrest,
        drainUpTo_of_some hadrain harest, h₂⟩

/-- All held samples: both hold equally many, so both make equally many calls for them. -/
theorem Alone.finish (h : Alone channels channel d alone) :
    ∃ outs d' alone', d.finish = .ok (outs, d') ∧
      alone.finish = .ok (outs.map (·.only channel), alone') ∧
        Alone channels channel d' alone' := by
  rw [Device.finish, Device.finish, h.pending_eq]
  exact h.drainUpTo d.pending

variable [Precision Float N] {p : Parameters} {layout : Layout}

/-- Two new devices, the second one for a channel of the first, are in step: both hold nothing
and neither has a clock yet. -/
theorem Alone.of_isNew [Memory] (h : IsNew p layout d)
    (halone : IsNew (p.only channel) layout.single alone) (hc : channel < layout.channels) :
    Alone layout.channels channel d alone where
  lt := hc
  channels_eq := by rw [h.layout_eq]
  parameters_eq := by rw [halone.parameters_eq, h.parameters_eq]
  layout_eq := by rw [halone.layout_eq, h.layout_eq]
  curve_eq := Except.ok.inj (halone.curve_drawn.symm.trans h.curve_drawn)
  follower_eq := by
    rw [halone.getElem?_followers Nat.one_pos, h.getElem?_followers hc, followerFor,
      followerFor, Parameters.timesOf_only]
    rfl
  latency_eq := halone.latency_eq.trans h.latency_eq.symm
  nextStamp_eq := halone.nextStamp_eq.trans h.nextStamp_eq.symm
  draining_eq := halone.draining_eq.trans h.draining_eq.symm
  holds := ⟨_, h.holds, halone.holds⟩

/-- **Setting up.** Where a device is set up for all channels, one is for each. -/
theorem alone_of_setUp [Memory] (h : setUp p layout = .ok d) (hc : channel < layout.channels) :
    ∃ alone : Device N, setUp (p.only channel) layout.single = .ok alone ∧
      Alone layout.channels channel d alone := by
  obtain ⟨hlayout, hparameters, hfinite, hfits⟩ := exists_setUp_iff.mp ⟨d, h⟩
  obtain ⟨haccepted, -⟩ := Parameters.checkFor_eq_ok_iff.mp hparameters
  have honly : (p.only channel).checkFor 1 = .ok () :=
    Parameters.checkFor_eq_ok_iff.mpr ⟨haccepted.only channel, Nat.le_refl 1⟩
  -- where there is room for some followers and rings there is for the first of them
  have hpos : 0 < layout.channels := Nat.zero_lt_of_lt hc
  have hroom : Fits (p.only channel) layout.single :=
    ⟨hfits.curve, Memory.hasRoom_of_le hpos hfits.followers,
      fun hsome => Memory.hasRoom_of_le hpos (hfits.rings hsome),
      fun hsome first hfirst => hfits.ring hsome first (Nat.lt_of_lt_of_le hfirst hpos)⟩
  obtain ⟨alone, halone⟩ : ∃ alone : Device N, setUp (p.only channel) layout.single = .ok alone :=
    exists_setUp_iff.mpr ⟨Layout.check_single hlayout, honly, hfinite, hroom⟩
  exact ⟨alone, halone, Alone.of_isNew (isNew_of_setUp h) (isNew_of_setUp halone) hc⟩

/-- **One call.** It belongs to the stream, and if it is for another layout that layout is not
refused. -/
theorem Alone.call [Memory] (h : Alone channels channel d alone) {c : Call N}
    (hc : c.Belongs channels)
    (hok : (d.call c).1.refusesLayout = false) :
    (alone.call (c.only channel)).1 = (d.call c).1.only channel ∧
      Alone channels channel (d.call c).2 (alone.call (c.only channel)).2 := by
  cases c with
  | process b =>
    obtain ⟨hanswer, hafter⟩ := h.process hc
    exact ⟨congrArg Answer.processed hanswer, hafter⟩
  | drain =>
    obtain ⟨out, d', alone', hdrain, hadrain, hafter⟩ := h.drain
    simp only [Device.call, Call.only, hdrain, hadrain]
    exact ⟨rfl, hafter⟩
  | finish =>
    obtain ⟨outs, d', alone', hfinish, hafinish, hafter⟩ := h.finish
    simp only [Device.call, Call.only, hfinish, hafinish]
    exact ⟨rfl, hafter⟩
  | reconfigure layout =>
    obtain rfl : layout.channels = channels := hc
    cases hnew : setUp (N := N) d.parameters layout with
    | error error =>
      simp only [Device.call, reconfigure_eq_setUp, hnew] at hok
      cases hok
    | ok fresh =>
      obtain ⟨alone', hanew, hafter⟩ := alone_of_setUp hnew h.lt
      rw [← h.parameters_eq] at hanew
      simp only [Device.call, Call.only, reconfigure_eq_setUp, hnew, hanew]
      exact ⟨rfl, hafter⟩

/-- **Any calls** keep them in step, as long as their buffers belong to the stream and no
layout is refused. The induction is on the calls, and each is one of the cases above. -/
theorem Alone.callAll [Memory] (h : Alone channels channel d alone) {calls : List (Call N)}
    (hcalls : ∀ c ∈ calls, c.Belongs channels)
    (hok : ∀ answer ∈ (Device.callAll calls d).1, answer.refusesLayout = false) :
    (Device.callAll (calls.map (Call.only channel)) alone).1 =
      (Device.callAll calls d).1.map (Answer.only channel) := by
  induction calls generalizing d alone with
  | nil => rfl
  | cons c rest ih =>
    rw [Device.callAll, List.forall_mem_cons] at hok
    obtain ⟨hc, hrest⟩ := List.forall_mem_cons.mp hcalls
    obtain ⟨hanswer, hafter⟩ := h.call hc hok.1
    rw [List.map_cons, Device.callAll, Device.callAll, List.map_cons, hanswer,
      ih hafter hrest hok.2]

/-- **Channels on their own.** A device is set up for some channels, and calls are made on it
that belong to the stream; if there are layouts among them, none is refused. Then a device can
be set up for each channel with the time constants of that channel alone. For that channel of
the buffers it answers every call like the device for all of them, with that channel of what
comes out, under the same stamp. So calls that differ in other channels are answered alike. -/
theorem callAll_only [Memory] (hnew : setUp p layout = .ok d) (hc : channel < layout.channels)
    {calls : List (Call N)} (hcalls : ∀ c ∈ calls, c.Belongs layout.channels)
    (hok : ∀ answer ∈ (callAll calls d).1, answer.refusesLayout = false) :
    (∃ alone : Device N, setUp (p.only channel) layout.single = .ok alone ∧
      (callAll (calls.map (Call.only channel)) alone).1 =
        (callAll calls d).1.map (Answer.only channel)) ∧
    ∀ others : List (Call N), (∀ c ∈ others, c.Belongs layout.channels) →
      (∀ answer ∈ (callAll others d).1, answer.refusesLayout = false) →
      others.map (Call.only channel) = calls.map (Call.only channel) →
        (callAll others d).1.map (Answer.only channel) =
          (callAll calls d).1.map (Answer.only channel) := by
  obtain ⟨alone, hanew, halone⟩ := alone_of_setUp hnew hc
  refine ⟨⟨alone, hanew, halone.callAll hcalls hok⟩, fun others hothers hok' hsame => ?_⟩
  rw [← halone.callAll hcalls hok, ← hsame, halone.callAll hothers hok']

/-- The second of two channels, with a pair of time constants of its own and a lookahead of
two, also once the device has been set up again. -/
theorem callAll_only_second :
    ∃ d alone : Device,
      setUp { attacks := [0.0, 0.5], decays := [0.0, 0.25], delay := 0.25 } (.perSample 2 8) =
        .ok d ∧
      setUp { attacks := [0.5], decays := [0.25], delay := 0.25 } (.perSample 1 8) = .ok alone ∧
      (callAll [.process ⟨[[0.25, -1.0, 0.5]], some 7⟩, .drain, .reconfigure (.perSample 1 8),
        .process ⟨[[0.75]], none⟩, .finish] alone).1 =
      (callAll [.process ⟨[[0.5, 0.125, 1.0], [0.25, -1.0, 0.5]], some 7⟩, .drain,
        .reconfigure (.perSample 2 8), .process ⟨[[0.25], [0.75]], none⟩, .finish] d).1.map
          (Answer.only 1) := by
  have hdone : (setUp (N := Float32) { attacks := [0.0, 0.5], decays := [0.0, 0.25], delay := 0.25 }
      (.perSample 2 8)).toOption.map (fun d =>
        (callAll [.process ⟨[[0.5, 0.125, 1.0], [0.25, -1.0, 0.5]], some 7⟩, .drain,
          .reconfigure (.perSample 2 8), .process ⟨[[0.25], [0.75]], none⟩, .finish] d).1.all
            (fun answer => !answer.refusesLayout)) = some true := by
    decide +kernel
  obtain ⟨d, hd, hdone⟩ := Option.map_eq_some_iff.mp hdone
  have hnew := eq_ok_of_toOption hd
  have hok := fun answer hmem => (Bool.not_eq_true' _).mp (List.all_eq_true.mp hdone answer hmem)
  have hsecond : 1 < (Layout.perSample 2 8).channels := by decide
  obtain ⟨⟨alone, halone, hsame⟩, -⟩ := callAll_only hnew hsecond (by
    simp only [List.forall_mem_cons, Call.Belongs]
    exact ⟨Buffer.hasShape_iff.mpr ⟨rfl, rfl⟩, trivial, trivial, Buffer.hasShape_iff.mpr ⟨rfl, rfl⟩,
      trivial, List.forall_mem_nil _⟩) hok
  exact ⟨d, alone, hnew, halone, hsame⟩

end Device

end Compander
