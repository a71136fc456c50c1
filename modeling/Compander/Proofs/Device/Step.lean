import Compander.Proofs.Device.Queues

/-!
# What one call does to a device

Seen as queues, a device does one thing with each channel, whatever the lookahead:

* `Device.Processed` — all there is to say about a buffer that is let in: a channel
  emits what leaves its queue when the buffer's plane is put in at the end, each
  sample under the gain of the volume that it leaves at;
* `Device.Drained`, `Device.Finished` — all there is to say about a call for held samples,
  and about a drain to the end;
* `Device.Holds.process`, `Device.Holds.drain`, `Device.Holds.finish` — that is what the calls
  do, and none meets a fault of its own.

The two paths are taken apart here and nowhere else. After this module a device without a
lookahead is one whose capacity is zero, and each later proof is about `Processed` and `Drained`
alone. In particular the clock, the followers and the shape of the output are fields of these, and
are not worked out a second time.
-/

namespace Compander.Device

variable {N : Type} {d : Device N} {queue : Nat → List N}

/-! ## What leaves a channel -/

variable [NarrowArithmetic N]

/-- What leaves a channel when the samples of a plane go in, each under the gain of the
volume that it leaves at. -/
def shapeLeaving (curve : Transfer N) (capacity : Nat) (held : List N) (f : Follower N)
    (plane : List N) : List N :=
  List.zipWith (shape curve) (Ring.leaving capacity (held ++ plane))
    ((f.volumes plane).drop (plane.length - (Ring.leaving capacity (held ++ plane)).length))

theorem length_shapeLeaving (curve : Transfer N) {capacity : Nat} {held : List N}
    (f : Follower N) (plane : List N) (h : held.length ≤ capacity) :
    (shapeLeaving curve capacity held f plane).length =
      held.length + plane.length - capacity := by
  simp only [shapeLeaving, List.length_zipWith, List.length_drop, Follower.length_volumes,
    Ring.length_leaving, List.length_append]
  omega

/-- Without a lookahead everything leaves at once, each sample under the gain of its own
volume. -/
theorem shapeLeaving_zero (curve : Transfer N) (f : Follower N) (plane : List N) :
    shapeLeaving curve 0 [] f plane = shapePlane curve f plane := by
  simp [shapeLeaving, shapePlane, Ring.leaving]

theorem length_shapePlane (curve : Transfer N) (f : Follower N) (plane : List N) :
    (shapePlane curve f plane).length = plane.length := by
  rw [shapePlane, List.length_zipWith, Follower.length_volumes, Nat.min_self]

theorem shapeEmitted_append (curve : Transfer N) (silent : Nat) (left volumes : List N) :
    shapeEmitted curve (List.replicate silent none ++ left.map some) volumes =
      List.zipWith (shape curve) left (volumes.drop silent) := by
  -- a volume at which nothing leaves is skipped
  induction silent generalizing volumes with
  | zero =>
    simp only [List.replicate_zero, List.nil_append, List.drop_zero]
    induction left generalizing volumes with
    | nil => simp [shapeEmitted]
    | cons x left ih =>
      cases volumes with
      | nil => simp [shapeEmitted]
      | cons v volumes => simp [shapeEmitted, ih]
  | succ silent ih =>
    cases volumes with
    | nil => simp [shapeEmitted, List.replicate_succ]
    | cons v volumes => simp [shapeEmitted, List.replicate_succ, ih]

/-- The planes from a channel on have gone through a lookahead: what came out of each,
and the rings afterwards. -/
structure PlanesFed (curve : Transfer N) (queue : Nat → List N) (line : Lookahead N)
    (after : Cursor) (channel : Nat) (planes : List (List N)) (followers : List (Follower N))
    (outs : List (List N)) (rings : Array (Ring N)) : Prop where
  /-- something came out of each channel, if only an empty plane -/
  length_outs : outs.length = planes.length
  /-- what came out -/
  outs_eq : ∀ (i : Nat) (plane : List N) (f : Follower N),
    planes[i]? = some plane → followers[i]? = some f →
      outs[i]? = some (shapeLeaving curve line.capacity (queue (channel + i)) f plane)
  /-- no ring is lost -/
  size_eq : rings.size = line.rings.size
  /-- the rings of the channels before are as they were -/
  before : ∀ c < channel, rings[c]? = line.rings[c]?
  /-- what the rings hold -/
  holds : ∀ (i : Nat) (plane : List N) (ring : Ring N),
    planes[i]? = some plane → rings[channel + i]? = some ring →
      Ring.Holds line.capacity ring after
        (Ring.staying line.capacity (queue (channel + i) ++ plane))

/-- Planes of one length, each put into the ring of its channel from the committed
cursor on, come out as they should, and no fault arises. -/
theorem feedPlanes_of_holds (curve : Transfer N) {length channel : Nat}
    {planes : List (List N)} {followers : List (Follower N)} {line : Lookahead N} {last : Cursor}
    (hlen : planes.length = followers.length)
    (hsize : channel + planes.length = line.rings.size)
    (hplanes : ∀ plane ∈ planes, plane.length = length)
    (hrings : ∀ c (hc : c < line.rings.size), channel ≤ c →
      Ring.Holds line.capacity line.rings[c] line.cursor (queue c))
    (hlast : planes = [] → last = line.cursor.advance line.capacity length) :
    ∃ outs rings,
      feedPlanes curve (line.emittedFor length) channel planes followers line last =
        (.ok outs, { line with rings }, line.cursor.advance line.capacity length) ∧
      PlanesFed curve queue line (line.cursor.advance line.capacity length) channel planes
        followers outs rings := by
  induction planes generalizing channel followers line last with
  | nil =>
    refine ⟨[], line.rings, ?_, rfl, ?_, rfl, fun _ _ => rfl, ?_⟩
    · rw [feedPlanes, hlast rfl]
      simp
    · intro i plane f hp
      simp at hp
    · intro i plane ring hp
      simp at hp
  | cons plane planes ih =>
    cases followers with
    | nil => simp at hlen
    | cons f followers =>
      have hc : channel < line.rings.size := by
        rw [List.length_cons] at hsize
        omega
      have hplane : plane.length = length := hplanes plane (List.mem_cons_self ..)
      have hhere := hrings channel hc (Nat.le_refl _)
      have hheld : (queue channel).length ≤ line.capacity :=
        hhere.length_eq ▸ hhere.fits.filled_le
      obtain ⟨ring, hfeed, hring⟩ := Lookahead.feed_of_holds hc hhere plane
      have hout : shapeEmitted curve (List.replicate _ none ++ _) (f.volumes plane) =
          shapeLeaving curve line.capacity (queue channel) f plane :=
        shapeEmitted_append curve _ _ _
      have hcount : (shapeLeaving curve line.capacity (queue channel) f plane).length =
          line.emittedFor length := by
        rw [length_shapeLeaving _ _ _ hheld, Lookahead.emittedFor, hplane, hhere.length_eq]
        rw [hhere.length_eq] at hheld
        omega
      -- the other channels go through the lookahead with this ring put back
      obtain ⟨outs, rings, hrest, hfed⟩ := @ih (channel + 1) followers
        { line with rings := line.rings.set channel ring hc }
        (line.cursor.advance line.capacity length)
        (Nat.succ.inj hlen)
        (by rw [Array.size_set, ← hsize, List.length_cons, Nat.add_right_comm, Nat.add_assoc])
        (fun p hp => hplanes p (List.mem_cons_of_mem _ hp))
        (fun c hc' hle => by
          rw [Array.size_set] at hc'
          simp only
          rw [Array.getElem_set_ne hc hc' (by omega)]
          exact hrings c hc' (by omega))
        (fun _ => rfl)
      refine ⟨shapeLeaving curve line.capacity (queue channel) f plane :: outs, rings, ?_,
        ?_, ?_, ?_, ?_, ?_⟩
      · change feedPlanes curve (line.emittedFor length) (channel + 1) planes followers _ _ = _
          at hrest
        rw [feedPlanes, hfeed]
        simp only [hout]
        rw [if_neg (not_not_intro hcount), hplane, hrest]
        rfl
      · rw [List.length_cons, hfed.length_outs, List.length_cons]
      · intro i plane' f' hp hf
        cases i with
        | zero =>
          obtain rfl := Option.some.inj hp
          obtain rfl := Option.some.inj hf
          rfl
        | succ i =>
          have := hfed.outs_eq i plane' f' hp hf
          rwa [Nat.add_right_comm] at this
      · rw [hfed.size_eq, Array.size_set]
      · intro c hlt
        rw [hfed.before c (Nat.lt_succ_of_lt hlt)]
        exact Array.getElem?_set_ne hc (by omega)
      · intro i plane' ring' hp hr
        cases i with
        | zero =>
          obtain rfl := Option.some.inj hp
          rw [Nat.add_zero, hfed.before channel (Nat.lt_succ_self _),
            Array.getElem?_set_self hc] at hr
          obtain rfl := Option.some.inj hr
          rw [← hplane]
          exact hring
        | succ i =>
          have := hfed.holds i plane' ring' hp
          rw [Nat.add_right_comm] at this
          exact this hr

/-- What came out of a channel of a buffer is what left its queue, however many channels were
fed before it. -/
theorem PlanesFed.getElem?_outs {curve : Transfer N} {line : Lookahead N} {after : Cursor}
    {b : Buffer N} {followers : List (Follower N)} {outs : List (List N)} {rings : Array (Ring N)}
    (h : PlanesFed curve queue line after 0 b.planes followers outs rings)
    (hlen : b.planes.length = followers.length) {channel : Nat} {f : Follower N}
    (hf : followers[channel]? = some f) :
    outs[channel]? =
      some (shapeLeaving curve line.capacity (queue channel) f (b.plane channel)) := by
  have hin : channel < b.planes.length := hlen ▸ (List.getElem?_eq_some_iff.mp hf).1
  have hplane : b.planes[channel]? = some b.planes[channel] := List.getElem?_eq_getElem hin
  have hout := h.outs_eq channel _ f hplane hf
  rwa [Nat.zero_add, ← Buffer.plane_of_getElem? hplane] at hout

/-- The lookahead once all channels have gone through it and the cursor of the last one is
committed. -/
theorem PlanesFed.lookahead_holds {curve : Transfer N} {line : Lookahead N} {after : Cursor}
    {b : Buffer N} {followers : List (Follower N)} {outs : List (List N)} {rings : Array (Ring N)}
    (h : PlanesFed curve queue line after 0 b.planes followers outs rings)
    (hsize : b.channels = line.channels) (hfits : after.Fits line.capacity) :
    Lookahead.Holds { line with rings, cursor := after }
      fun channel => Ring.staying line.capacity (queue channel ++ b.plane channel) := by
  refine ⟨hfits, fun channel hc => ?_⟩
  have hin : channel < b.planes.length := by
    change channel < b.channels
    rw [hsize, Lookahead.channels, ← h.size_eq]
    exact hc
  have hplane : b.planes[channel]? = some b.planes[channel] := List.getElem?_eq_getElem hin
  have hring := h.holds channel _ rings[channel] hplane
  rw [Nat.zero_add] at hring
  rw [Buffer.plane_of_getElem? hplane]
  exact hring (Array.getElem?_eq_getElem hc)

/-- All there is to say about a buffer that was let in. -/
structure Processed (d : Device N) (queue : Nat → List N) (b : Buffer N)
    (out : Option (Buffer N)) (d' : Device N) : Prop where
  /-- the parameters stay -/
  parameters_eq : d'.parameters = d.parameters
  /-- the layout stays -/
  layout_eq : d'.layout = d.layout
  /-- the curve stays -/
  curve_eq : d'.curve = d.curve
  /-- the lookahead keeps its length -/
  latency_eq : d'.latency = d.latency
  /-- the drain has not begun -/
  draining_eq : d'.draining = d.draining
  /-- the followers have heard the buffer -/
  followers_eq : d'.followers = hearPlanes d.followers b.planes
  /-- what is held now -/
  holds : d'.Holds fun channel => Ring.staying d.latency (queue channel ++ b.plane channel)
  /-- when something comes out -/
  isSome_iff : out.isSome ↔ d.latency = 0 ∨ d.latency < d.pending + b.length
  /-- how much comes out -/
  hasShape : ∀ o, out = some o →
    o.HasShape d.layout.channels (d.pending + b.length - d.latency)
  /-- what comes out, if anything -/
  track_eq : ∀ (channel : Nat) (f : Follower N), d.followers[channel]? = some f →
    Buffer.track out.toList channel =
      shapeLeaving d.curve d.latency (queue channel) f (b.plane channel)
  /-- without a lookahead a buffer keeps its stamp -/
  direct_stamp : d.latency = 0 → out.bind Buffer.stamp = b.stamp ∧ d'.nextStamp = d.nextStamp
  /-- with one, the first buffer that comes in sets the clock, and what comes out moves it -/
  delayed_stamp : 0 < d.latency →
    (out = none → d'.nextStamp = some (d.nextStamp.getD (b.stamp.getD 0))) ∧
    ∀ o, out = some o → o.stamp = some (d.nextStamp.getD (b.stamp.getD 0)) ∧
      d'.nextStamp = some (d.layout.tick.after (d.nextStamp.getD (b.stamp.getD 0))
        (d.pending + b.length - d.latency) d.layout.rate)

theorem length_hearPlanes {followers : List (Follower N)} {planes : List (List N)}
    (h : planes.length = followers.length) :
    (hearPlanes followers planes).length = followers.length := by
  rw [hearPlanes, List.length_zipWith, h, Nat.min_self]

/-- Each follower has heard the plane of its channel, and no other plane. -/
theorem getElem?_hearPlanes {followers : List (Follower N)} {b : Buffer N}
    (hlen : b.planes.length = followers.length) {channel : Nat} {f : Follower N}
    (hf : followers[channel]? = some f) :
    (hearPlanes followers b.planes)[channel]? = some (f.after (b.plane channel)) := by
  have hin : channel < b.planes.length := hlen ▸ (List.getElem?_eq_some_iff.mp hf).1
  have hplane : b.planes[channel]? = some b.planes[channel] := List.getElem?_eq_getElem hin
  rw [Buffer.plane_of_getElem? hplane]
  exact List.getElem?_zipWith_eq_some.mpr ⟨f, _, hf, hplane, rfl⟩

/-- Without a lookahead, the shaped planes of a buffer come out, with the stamp that it came
in with. -/
theorem Holds.process_direct (h : d.Holds queue) {b : Buffer N} (hb : d.accept b = .ok ())
    (hpath : d.path = .direct) :
    ∃ out d', d.process b = (.ok out, d') ∧ Processed d queue b out d' := by
  obtain ⟨hshape, -⟩ := accept_eq_ok_iff.mp hb
  have hlat : d.latency = 0 := by rw [latency, hpath]
  have hpend : d.pending = 0 := by rw [pending, hpath]
  have hlen : b.planes.length = d.followers.length :=
    hshape.channels_eq.trans h.length_followers.symm
  have hqueue := h.direct hpath
  have hpos := h.channels_pos
  have hfoll := h.length_followers
  refine ⟨some { b with planes := List.zipWith (shapePlane d.curve) d.followers b.planes },
    { d with followers := hearPlanes d.followers b.planes }, ?_, rfl, rfl, rfl, rfl, rfl, rfl,
    ?_, ?_, ?_, ?_, ?_, ?_⟩
  · obtain ⟨parameters, layout, curve, followers, path, nextStamp, draining⟩ := d
    obtain rfl : path = .direct := hpath
    simp only [process, hb]
  · refine .of_direct hpath hpos ((length_hearPlanes hlen).trans hfoll) fun channel _ => ?_
    rw [hlat]
    exact List.drop_length
  · simp [hlat]
  · intro o ho
    obtain rfl := Option.some.inj ho
    refine ⟨?_, ?_⟩
    · rw [Buffer.channels, List.length_zipWith, hlen, Nat.min_self, hfoll]
    · intro plane hp
      obtain ⟨i, hi⟩ := List.getElem?_of_mem hp
      obtain ⟨f, p, -, hin, rfl⟩ := List.getElem?_zipWith_eq_some.mp hi
      rw [length_shapePlane, hshape.length_plane p (List.mem_of_getElem? hin), hpend, hlat,
        Nat.zero_add, Nat.sub_zero]
  · intro channel f hf
    have hc : channel < d.followers.length := (List.getElem?_eq_some_iff.mp hf).1
    have hin : b.planes[channel]? = some b.planes[channel] := List.getElem?_eq_getElem _
    rw [hlat, hqueue channel (hfoll ▸ hc), shapeLeaving_zero, Buffer.plane_of_getElem? hin,
      Option.toList_some, Buffer.track_singleton]
    exact Buffer.plane_of_getElem? (List.getElem?_zipWith_eq_some.mpr ⟨f, _, hf, hin, rfl⟩)
  · intro _
    exact ⟨rfl, rfl⟩
  · intro hpos'
    exact absurd hlat (Nat.ne_of_gt hpos')

/-- The device once a buffer has gone through its lookahead. -/
def heard (d : Device N) (b : Buffer N) (line : Lookahead N) : Device N :=
  { d with
    followers := hearPlanes d.followers b.planes
    path := .delayed line
    nextStamp := some (d.nextStamp.getD (b.stamp.getD 0)) }

/-- A buffer that goes through the lookahead without a fault: what is answered and what
becomes of the device, given what feeding and committing answered. -/
theorem process_eq_of_fed {b : Buffer N} (hb : d.accept b = .ok ())
    {line fed committed : Lookahead N} (hpath : d.path = .delayed line) {outs : List (List N)}
    {last : Cursor}
    (hfeed : feedPlanes d.curve (line.emittedFor b.length) 0 b.planes d.followers line line.cursor =
      (.ok outs, fed, last))
    (hcommit : fed.commit last = .ok committed) :
    d.process b =
      if line.emittedFor b.length = 0 then (.ok none, d.heard b committed)
      else
        (.ok (some ((d.heard b committed).emit outs (line.emittedFor b.length)).1),
          ((d.heard b committed).emit outs (line.emittedFor b.length)).2) := by
  obtain ⟨parameters, layout, curve, followers, path, nextStamp, draining⟩ := d
  obtain rfl : path = .delayed line := hpath
  simp only [process, hb]
  simp only [hfeed, hcommit]
  rfl

/-- How much leaves a channel when the plane of a buffer goes in, which is the same for every
channel. -/
theorem Holds.length_shapeLeaving (h : d.Holds queue) {b : Buffer N}
    (hshape : b.HasShape d.layout.channels b.length) {channel : Nat}
    (hc : channel < d.layout.channels) (f : Follower N) :
    (shapeLeaving d.curve d.latency (queue channel) f (b.plane channel)).length =
      d.pending + b.length - d.latency := by
  have hqueue := h.length_queue hc
  rw [Device.length_shapeLeaving _ _ _ (hqueue ▸ h.pending_le), hqueue,
    hshape.length_plane_of_lt hc]

/-- The planes of a buffer that belongs to the stream go through the lookahead without a
fault. -/
theorem Holds.feedPlanes (h : d.Holds queue) {b : Buffer N}
    (hshape : b.HasShape d.layout.channels b.length) {line : Lookahead N}
    (hpath : d.path = .delayed line) :
    ∃ outs rings,
      Device.feedPlanes d.curve (line.emittedFor b.length) 0 b.planes d.followers line
          line.cursor =
        (.ok outs, { line with rings }, line.cursor.advance line.capacity b.length) ∧
      PlanesFed d.curve queue line (line.cursor.advance line.capacity b.length) 0 b.planes
        d.followers outs rings := by
  obtain ⟨hline, hsize⟩ := h.delayed line hpath
  have hfoll := h.length_followers
  have hlen : b.planes.length = d.followers.length := hshape.channels_eq.trans hfoll.symm
  have hpos := h.channels_pos
  refine feedPlanes_of_holds d.curve hlen ?_ hshape.length_plane (fun c hc _ => hline.ring c hc)
    (fun hnil => ?_)
  · rw [Nat.zero_add, hlen, hfoll]
    exact hsize.symm
  · rw [hnil, List.length_nil] at hlen
    omega

/-- What a device holds once a buffer has gone through its lookahead. The clock does not
matter for that, nor does the stamp of what comes out. -/
theorem Holds.of_fed (h : d.Holds queue) {b : Buffer N}
    (hshape : b.HasShape d.layout.channels b.length) {line : Lookahead N}
    (hpath : d.path = .delayed line) {outs : List (List N)} {rings : Array (Ring N)}
    (hfed : PlanesFed d.curve queue line (line.cursor.advance line.capacity b.length) 0 b.planes
      d.followers outs rings)
    {d' : Device N} (hlayout : d'.layout = d.layout)
    (hfollowers : d'.followers = hearPlanes d.followers b.planes)
    (hpath' : d'.path =
      .delayed { line with rings, cursor := line.cursor.advance line.capacity b.length }) :
    d'.Holds fun channel => Ring.staying d.latency (queue channel ++ b.plane channel) := by
  obtain ⟨hline, hsize⟩ := h.delayed line hpath
  have hfoll : d'.followers.length = d'.layout.channels := by
    rw [hfollowers, length_hearPlanes (hshape.channels_eq.trans h.length_followers.symm),
      h.length_followers, hlayout]
  have hafter := hfed.lookahead_holds (hshape.channels_eq.trans hsize.symm)
    (hline.fits.advance b.length)
  rw [latency_of_delayed hpath]
  exact .of_delayed hpath' (hlayout ▸ h.channels_pos) hfoll hafter
    (hfed.size_eq.trans (hsize.trans (congrArg Layout.channels hlayout.symm)))

/-- With a lookahead, what leaves the queues comes out, and neither feeding nor committing
meets a fault. -/
theorem Holds.process_delayed (h : d.Holds queue) {b : Buffer N} (hb : d.accept b = .ok ())
    {line : Lookahead N} (hpath : d.path = .delayed line) :
    ∃ out d', d.process b = (.ok out, d') ∧ Processed d queue b out d' := by
  obtain ⟨hshape, -⟩ := accept_eq_ok_iff.mp hb
  obtain ⟨hline, hsize⟩ := h.delayed line hpath
  have hlat := latency_of_delayed hpath
  have hpend := pending_of_delayed hpath
  have hfoll := h.length_followers
  have hlen : b.planes.length = d.followers.length := hshape.channels_eq.trans hfoll.symm
  have hcap : 0 < line.capacity := Nat.zero_lt_of_lt hline.fits.writeIndex_lt
  have hemit : line.emittedFor b.length = d.pending + b.length - d.latency := by
    have hle := hline.fits.filled_le
    rw [hlat, hpend, Lookahead.filled, Lookahead.emittedFor]
    omega
  obtain ⟨outs, rings, hfeed, hfed⟩ := h.feedPlanes hshape hpath
  have hprocess := process_eq_of_fed hb hpath hfeed
    (Lookahead.commit_of_fits (hline.fits.advance b.length))
  -- as long as nothing leaves the queues no buffer comes out, not even an empty one
  by_cases hnone : line.emittedFor b.length = 0
  · rw [if_pos hnone] at hprocess
    rw [hemit] at hnone
    refine ⟨none, _, hprocess, rfl, rfl, rfl, hlat.symm, rfl, rfl,
      h.of_fed hshape hpath hfed rfl rfl rfl, ?_, ?_, ?_, ?_, ?_⟩
    · rw [Option.isSome_none]
      constructor
      · intro hf
        cases hf
      · omega
    · intro o ho
      cases ho
    · intro channel f hf
      have hc : channel < d.layout.channels := hfoll ▸ (List.getElem?_eq_some_iff.mp hf).1
      symm
      apply List.eq_nil_of_length_eq_zero
      rw [h.length_shapeLeaving hshape hc, hnone]
    · intro hz
      omega
    · intro _
      refine ⟨fun _ => rfl, fun o ho => ?_⟩
      cases ho
  · rw [if_neg hnone] at hprocess
    have houts : ∀ (channel : Nat) (f : Follower N), d.followers[channel]? = some f →
        outs[channel]? = some (shapeLeaving d.curve d.latency (queue channel) f
          (b.plane channel)) :=
      fun channel f hf => hlat ▸ hfed.getElem?_outs hlen hf
    refine ⟨_, _, hprocess, rfl, rfl, rfl, hlat.symm, rfl, rfl,
      h.of_fed hshape hpath hfed rfl rfl rfl, ?_, ?_, ?_, ?_, ?_⟩
    · rw [hemit] at hnone
      rw [Option.isSome_some]
      constructor
      · omega
      · intro _
        rfl
    · intro o ho
      obtain rfl := Option.some.inj ho
      refine .of_getElem? (hfed.length_outs.trans hshape.channels_eq) fun channel hc => ?_
      exact ⟨_, houts channel _ (List.getElem?_eq_getElem (hfoll ▸ hc)),
        h.length_shapeLeaving hshape hc _⟩
    · intro channel f hf
      rw [Option.toList_some, Buffer.track_singleton]
      exact Buffer.plane_of_getElem? (houts channel f hf)
    · intro hz
      omega
    · intro _
      refine ⟨fun hn => ?_, fun o ho => ?_⟩
      · cases hn
      · obtain rfl := Option.some.inj ho
        rw [← hemit]
        exact ⟨rfl, rfl⟩

/-- **A buffer that is let in.** No fault arises from it, and it goes through the queue
of each channel. -/
theorem Holds.process (h : d.Holds queue) {b : Buffer N} (hb : d.accept b = .ok ()) :
    ∃ out d', d.process b = (.ok out, d') ∧ Processed d queue b out d' := by
  cases hpath : d.path with
  | direct => exact h.process_direct hb hpath
  | delayed line => exact h.process_delayed hb hpath

/-- A buffer that is not let in leaves the device as it is, its clock and its followers
included. -/
theorem process_of_refused {b : Buffer N} {fault : Fault} (hb : d.accept b = .error fault) :
    d.process b = (.error fault, d) := by
  simp only [Device.process, hb]

/-- Whatever came out of a device, the buffer was let in, and all that `Processed` says is
so. -/
theorem Holds.processed (h : d.Holds queue) {b : Buffer N} {out : Option (Buffer N)}
    {d' : Device N} (hb : d.process b = (.ok out, d')) :
    d.accept b = .ok () ∧ Processed d queue b out d' := by
  cases haccept : d.accept b with
  | error fault =>
    rw [process_of_refused haccept] at hb
    cases hb
  | ok =>
    obtain ⟨out', d'', hprocess, hprocessed⟩ := h.process haccept
    rw [hprocess] at hb
    cases hb
    exact ⟨rfl, hprocessed⟩

/-- How a buffer that is let in moves the clock, and the stamp of what comes out. Without a
lookahead the clock is not used. -/
theorem Processed.clock_eq {b : Buffer N} {out : Option (Buffer N)} {d' : Device N}
    (h : Processed d queue b out d') :
    (out.bind Buffer.stamp, d'.nextStamp) =
      if d.latency = 0 then (b.stamp, d.nextStamp)
      else if d.latency < d.pending + b.length then
        (some (d.nextStamp.getD (b.stamp.getD 0)),
          some (d.layout.tick.after (d.nextStamp.getD (b.stamp.getD 0))
            (d.pending + b.length - d.latency) d.layout.rate))
      else (none, some (d.nextStamp.getD (b.stamp.getD 0))) := by
  have hsome := h.isSome_iff
  by_cases hdirect : d.latency = 0
  · obtain ⟨hstamp, hnext⟩ := h.direct_stamp hdirect
    rw [if_pos hdirect, hstamp, hnext]
  · obtain ⟨hnone, hemitted⟩ := h.delayed_stamp (Nat.pos_of_ne_zero hdirect)
    rw [if_neg hdirect]
    cases out with
    | none =>
      have hlt : ¬d.latency < d.pending + b.length := fun hlt => nomatch hsome.mpr (.inr hlt)
      rw [if_neg hlt, hnone rfl, Option.bind_none]
    | some o =>
      obtain ⟨hstamp, hnext⟩ := hemitted o rfl
      rw [if_pos ((hsome.mp rfl).resolve_left hdirect), Option.bind_some, hstamp, hnext]

/-- What was held and what came in is what comes out and what is held. -/
theorem Processed.length_add_pending {b : Buffer N} {out : Option (Buffer N)} {d' : Device N}
    (h : Processed d queue b out d') (hd : d.Holds queue)
    (hshape : b.HasShape d.layout.channels b.length) :
    (out.map Buffer.length).getD 0 + d'.pending = d.pending + b.length := by
  have hpos := hd.channels_pos
  have hle := hd.pending_le
  have hheld : d'.pending = min (d.pending + b.length) d.latency := by
    rw [← h.holds.length_queue (h.layout_eq.symm ▸ hpos), Ring.length_staying, List.length_append,
      hd.length_queue hpos, hshape.length_plane_of_lt hpos]
  cases out with
  | none =>
    have hnone : ¬(d.latency = 0 ∨ d.latency < d.pending + b.length) :=
      fun hsome => nomatch h.isSome_iff.mpr hsome
    rw [Option.map_none, Option.getD_none]
    omega
  | some o =>
    rw [Option.map_some, Option.getD_some, (h.hasShape o rfl).length_eq hpos]
    omega

/-- The only faults of a device are those of buffers that it refuses, and they leave it as
it is. -/
theorem Holds.refused (h : d.Holds queue) {b : Buffer N} {fault : Fault} {d' : Device N}
    (hb : d.process b = (.error fault, d')) : d.accept b = .error fault ∧ d' = d := by
  cases haccept : d.accept b with
  | error fault' =>
    rw [process_of_refused haccept] at hb
    cases hb
    exact ⟨rfl, rfl⟩
  | ok =>
    obtain ⟨out, d'', hprocess, -⟩ := h.process haccept
    rw [hprocess] at hb
    cases hb

/-! ## Draining -/

/-- All there is to say about a call for held samples. -/
structure Drained (d : Device N) (queue : Nat → List N) (out : Option (Buffer N))
    (d' : Device N) : Prop where
  /-- the parameters stay -/
  parameters_eq : d'.parameters = d.parameters
  /-- the layout stays -/
  layout_eq : d'.layout = d.layout
  /-- the curve stays -/
  curve_eq : d'.curve = d.curve
  /-- the lookahead keeps its length -/
  latency_eq : d'.latency = d.latency
  /-- the followers hear nothing -/
  followers_eq : d'.followers = d.followers
  /-- what is held now -/
  holds : d'.Holds fun channel => (queue channel).drop drainLength
  /-- nothing comes out once nothing is held, and the device does not change -/
  eq_of_none : out = none → d.pending = 0 ∧ d' = d
  /-- the drain has begun as soon as something comes out -/
  draining_eq : ∀ o, out = some o → 0 < d.pending ∧ d'.draining = true
  /-- how much comes out -/
  hasShape : ∀ o, out = some o → o.HasShape d.layout.channels (min d.pending drainLength)
  /-- what comes out, if anything -/
  track_eq : ∀ (channel : Nat) (f : Follower N), d.followers[channel]? = some f →
    Buffer.track out.toList channel =
      ((queue channel).take drainLength).map (shape d.curve · f.volume)
  /-- what comes out moves the clock -/
  stamp : ∀ o, out = some o → o.stamp = some (d.nextStamp.getD 0) ∧
    d'.nextStamp = some (d.layout.tick.after (d.nextStamp.getD 0)
      (min d.pending drainLength) d.layout.rate)

/-- The oldest samples of the channels from one on, each under the last gain of its
channel. -/
theorem drainPlanes_of_holds (curve : Transfer N) {line : Lookahead N} (hline : line.Holds queue)
    (count : Nat) {channel : Nat} {followers : List (Follower N)}
    (hsize : channel + followers.length = line.channels) :
    ∃ outs, drainPlanes curve line count channel followers = .ok outs ∧
      outs.length = followers.length ∧
      ∀ (i : Nat) (f : Follower N), followers[i]? = some f →
        outs[i]? = some (((queue (channel + i)).take count).map (shape curve · f.volume)) := by
  induction followers generalizing channel with
  | nil => exact ⟨[], rfl, rfl, fun i f hf => by simp at hf⟩
  | cons f followers ih =>
    rw [List.length_cons] at hsize
    obtain ⟨outs, hrest, hlength, houts⟩ := @ih (channel + 1) (by omega)
    have hold : line.oldest channel count = .ok ((queue channel).take count) :=
      hline.oldest (by omega) count
    refine ⟨((queue channel).take count).map (shape curve · f.volume) :: outs, ?_, ?_, ?_⟩
    · rw [drainPlanes, hold, hrest]
      rfl
    · rw [List.length_cons, hlength, List.length_cons]
    · intro i f' hf
      cases i with
      | zero =>
        obtain rfl := Option.some.inj hf
        rfl
      | succ i =>
        have := houts i f' hf
        rwa [Nat.add_right_comm] at this

/-- The device once the oldest samples have been taken out of its lookahead. -/
def drained (d : Device N) (line : Lookahead N) : Device N :=
  { d with path := .delayed line, draining := true }

/-- Nothing comes out of a device that holds nothing, and it does not change, not even its
drain mark. -/
theorem Holds.drained_of_pending_eq_zero (h : d.Holds queue) (hpend : d.pending = 0) :
    Drained d queue none d := by
  have hnil : ∀ channel < d.layout.channels, queue channel = [] := fun channel hc =>
    List.eq_nil_of_length_eq_zero ((h.length_queue hc).trans hpend)
  refine ⟨rfl, rfl, rfl, rfl, rfl, h.congr fun channel hc => ?_, fun _ => ⟨hpend, rfl⟩,
    ?_, ?_, ?_, ?_⟩
  · rw [hnil channel hc, List.drop_nil]
  · intro o ho
    cases ho
  · intro o ho
    cases ho
  · intro channel f hf
    have hc : channel < d.layout.channels :=
      h.length_followers ▸ (List.getElem?_eq_some_iff.mp hf).1
    rw [hnil channel hc, List.take_nil, List.map_nil]
    rfl
  · intro o ho
    cases ho

/-- A device whose lookahead holds something lets the oldest samples out, as many as a drain
takes or all there are. -/
theorem Holds.drain_of_pos (h : d.Holds queue) {line : Lookahead N} (hpath : d.path = .delayed line)
    (hsome : 0 < line.filled) :
    ∃ o d', d.drain = .ok (some o, d') ∧ Drained d queue (some o) d' := by
  obtain ⟨hline, hsize⟩ := h.delayed line hpath
  have hlat := latency_of_delayed hpath
  have hpend := pending_of_delayed hpath
  have hfoll := h.length_followers
  have hcount : min line.filled drainLength ≠ 0 := by
    rw [drainLength]
    omega
  have hchannels : 0 + d.followers.length = line.channels := by
    rw [Nat.zero_add, hfoll, hsize]
  obtain ⟨outs, hplanes, hlength, houts⟩ :=
    drainPlanes_of_holds d.curve hline (min line.filled drainLength) hchannels
  have hdrain : d.drain = .ok
      (some ((d.drained (line.consume (min line.filled drainLength))).emit outs
          (min line.filled drainLength)).1,
        ((d.drained (line.consume (min line.filled drainLength))).emit outs
          (min line.filled drainLength)).2) := by
    simp only [Device.drain, hpath, hcount, if_false, hplanes]
    rfl
  refine ⟨_, _, hdrain, rfl, rfl, rfl, hlat.symm, rfl, h.of_consume hpath rfl rfl rfl,
    ?_, ?_, ?_, ?_, ?_⟩
  · intro hn
    cases hn
  · intro o _
    exact ⟨hpend ▸ hsome, rfl⟩
  · intro o ho
    obtain rfl := Option.some.inj ho
    refine .of_getElem? (hlength.trans hfoll) fun channel hc => ?_
    refine ⟨_, houts channel _ (List.getElem?_eq_getElem (hfoll ▸ hc)), ?_⟩
    rw [Nat.zero_add, List.length_map, List.length_take, h.length_queue hc, hpend]
    omega
  · intro channel f hf
    have hc : channel < d.layout.channels := hfoll ▸ (List.getElem?_eq_some_iff.mp hf).1
    have htake : (queue channel).take (min line.filled drainLength) =
        (queue channel).take drainLength := by
      rw [← hpend, ← h.length_queue hc, List.take_eq_take_iff]
      omega
    have hout := houts channel f hf
    rw [Nat.zero_add, htake] at hout
    rw [Option.toList_some, Buffer.track_singleton]
    exact Buffer.plane_of_getElem? hout
  · intro o ho
    obtain rfl := Option.some.inj ho
    rw [hpend]
    exact ⟨rfl, rfl⟩

/-- **A call for held samples.** No fault arises from it, and the oldest samples of each
channel come out, as many as a buffer holds. -/
theorem Holds.drain (h : d.Holds queue) :
    ∃ out d', d.drain = .ok (out, d') ∧ Drained d queue out d' := by
  cases hpath : d.path with
  | direct =>
    refine ⟨none, d, ?_, h.drained_of_pending_eq_zero ?_⟩
    · rw [Device.drain, hpath]
    · rw [pending, hpath]
  | delayed line =>
    rcases Nat.eq_zero_or_pos line.filled with hnone | hsome
    · refine ⟨none, d, ?_, h.drained_of_pending_eq_zero ((pending_of_delayed hpath).trans hnone)⟩
      simp only [Device.drain, hpath, hnone, Nat.zero_min, if_true]
      rfl
    · obtain ⟨o, d', hdrain, hdrained⟩ := h.drain_of_pos hpath hsome
      exact ⟨some o, d', hdrain, hdrained⟩

/-- Whatever a call for held samples answers is as it should be; it answers no fault at
all. -/
theorem Holds.of_drain (h : d.Holds queue) {out : Option (Buffer N)} {d' : Device N}
    (hd : d.drain = .ok (out, d')) : Drained d queue out d' := by
  obtain ⟨out', d'', hdrain, hdrained⟩ := h.drain
  rw [hdrain] at hd
  cases hd
  exact hdrained

/-- Something comes out as long as something is held, so asking until nothing comes out
empties the device. -/
theorem Drained.isSome_iff {out : Option (Buffer N)} {d' : Device N}
    (h : Drained d queue out d') : out.isSome ↔ 0 < d.pending := by
  cases out with
  | none => simp [(h.eq_of_none rfl).1]
  | some o => simp [(h.draining_eq o rfl).1]

/-- How a call for held samples moves the clock, and the stamp of what comes out. -/
theorem Drained.clock_eq {out : Option (Buffer N)} {d' : Device N}
    (h : Drained d queue out d') :
    (out.bind Buffer.stamp, d'.nextStamp) =
      if d.pending = 0 then (none, d.nextStamp)
      else (some (d.nextStamp.getD 0), some (d.layout.tick.after (d.nextStamp.getD 0)
        (min d.pending drainLength) d.layout.rate)) := by
  cases out with
  | none =>
    obtain ⟨hnone, rfl⟩ := h.eq_of_none rfl
    rw [if_pos hnone, Option.bind_none]
  | some o =>
    obtain ⟨hsome, -⟩ := h.draining_eq o rfl
    obtain ⟨hstamp, hnext⟩ := h.stamp o rfl
    rw [if_neg (Nat.ne_of_gt hsome), Option.bind_some, hstamp, hnext]

/-- The drain has begun once something has come out, and from then on no buffer is let in. -/
theorem Drained.draining_eq_or {out : Option (Buffer N)} {d' : Device N}
    (h : Drained d queue out d') :
    d'.draining = (d.draining || out.isSome) := by
  cases out with
  | none =>
    obtain ⟨-, rfl⟩ := h.eq_of_none rfl
    simp
  | some o => simp [(h.draining_eq o rfl).2]

/-- What was held is what comes out and what is still held; no sample is lost in a drain. -/
theorem Drained.length_add_pending {out : Option (Buffer N)} {d' : Device N}
    (h : Drained d queue out d') (hd : d.Holds queue) :
    (out.map Buffer.length).getD 0 + d'.pending = d.pending := by
  have hpos := hd.channels_pos
  cases out with
  | none =>
    obtain ⟨-, rfl⟩ := h.eq_of_none rfl
    exact Nat.zero_add _
  | some o =>
    have hheld : d'.pending = d.pending - drainLength := by
      rw [← h.holds.length_queue (h.layout_eq.symm ▸ hpos), List.length_drop,
        hd.length_queue hpos]
    rw [Option.map_some, Option.getD_some, (h.hasShape o rfl).length_eq hpos]
    omega

/-! ## Draining to the end -/

theorem drainUpTo_of_none {d' : Device N} {count : Nat} (h : d.drain = .ok (none, d')) :
    drainUpTo (count + 1) d = .ok ([], d') := by
  rw [drainUpTo, h]
  rfl

theorem drainUpTo_of_some {o : Buffer N} {outs : List (Buffer N)} {d₁ d₂ : Device N} {count : Nat}
    (h : d.drain = .ok (some o, d₁)) (hrest : drainUpTo count d₁ = .ok (outs, d₂)) :
    drainUpTo (count + 1) d = .ok (o :: outs, d₂) := by
  rw [drainUpTo, h]
  simp only [bind, Except.bind, hrest, pure, Except.pure]

/-- What becomes of a device that is drained to the end. -/
structure Finished (d : Device N) (outs : List (Buffer N)) (d' : Device N) : Prop where
  /-- the device holds some queues -/
  holds : ∃ queue, d'.Holds queue
  /-- the parameters stay -/
  parameters_eq : d'.parameters = d.parameters
  /-- the drain has begun if something came out -/
  draining_eq : d'.draining = (d.draining || !outs.isEmpty)

/-- Draining meets no fault, and may end only when nothing is held, if there are calls enough
for that. -/
theorem Holds.drainUpTo (h : d.Holds queue) (count : Nat) :
    ∃ outs d', Device.drainUpTo count d = .ok (outs, d') ∧ Finished d outs d' ∧
      (d.pending ≤ count → d'.pending = 0) := by
  induction count generalizing d queue with
  | zero => exact ⟨[], d, rfl, ⟨⟨queue, h⟩, rfl, by simp⟩, Nat.le_zero.mp⟩
  | succ count ih =>
    obtain ⟨out, d₁, hdrain, hdrained⟩ := h.drain
    cases out with
    | none =>
      obtain ⟨hnone, rfl⟩ := hdrained.eq_of_none rfl
      exact ⟨[], d₁, drainUpTo_of_none hdrain, ⟨⟨queue, h⟩, rfl, by simp⟩, fun _ => hnone⟩
    | some o =>
      obtain ⟨hsome, hdraining⟩ := hdrained.draining_eq o rfl
      obtain ⟨outs, d₂, hrest, hfinished, hpending⟩ := ih hdrained.holds
      refine ⟨o :: outs, d₂, drainUpTo_of_some hdrain hrest, ⟨hfinished.holds, ?_, ?_⟩,
        fun hcount => hpending ?_⟩
      · rw [hfinished.parameters_eq, hdrained.parameters_eq]
      · simp [hfinished.draining_eq, hdraining]
      · -- a drained buffer has a sample at least, so the calls that are left are enough
        have hless := hdrained.length_add_pending h
        rw [Option.map_some, Option.getD_some,
          (hdrained.hasShape o rfl).length_eq h.channels_pos, drainLength] at hless
        omega

/-- All that is held comes out without a fault, in as many buffers as it takes. -/
theorem Holds.finish (h : d.Holds queue) :
    ∃ outs d', d.finish = .ok (outs, d') ∧ Finished d outs d' ∧ d'.pending = 0 := by
  obtain ⟨outs, d', hdrain, hfinished, hpending⟩ := h.drainUpTo d.pending
  exact ⟨outs, d', hdrain, hfinished, hpending (Nat.le_refl _)⟩

end Compander.Device
