import Compander.Proofs.Device.Signal
import Compander.Proofs.Parameters.Checks
import Compander.Proofs.Session.Faults

/-!
# Whole planes through a session

`Session.render` cuts whole planes into blocks, pushes these one after another, and drains the
device onto a tape. What comes out is what the device makes of the planes as one stream, so the
size of the blocks leaves no trace:

* `Session.cuts_cut` — the blocks are the planes cut into pieces;
* `Tape.Continued` — a tape to which some buffers were appended;
* `Session.pushAll_of_processAll`, `Session.finishUpTo_of_drainUpTo` — the session puts on the
  tape what the device lets out;
* `Session.render_of_isNew` — whole planes through a session on a new device;
* `renderPlanes_of_setUp`, `exists_stream_of_setUp` — they come out as from one device that gets
  them in a single buffer.

The session adds nothing to the stream: its own checks are passed by every block, and the tape has
no reason to refuse a buffer. Planes that differ in length are refused before a device is set up,
and the error is the same whatever the size of the blocks.
-/

namespace Compander

open Device (IsNew followerFor shapeAhead)

/-! ## Cutting planes into blocks -/

namespace Session

variable {planes : List (List Float32)} {length count frames channel start : Nat}

theorem plane_map (planes : List (List Float32)) (stamp : Option Int)
    (change : List Float32 → List Float32) (hnil : change [] = []) (channel : Nat) :
    (⟨planes.map change, stamp⟩ : Buffer Float32).plane channel =
      change (planes.getD channel []) := by
  rw [Buffer.plane, List.getD_eq_getElem?_getD, List.getElem?_map, List.getD_eq_getElem?_getD]
  cases planes[channel]? with
  | none => exact hnil.symm
  | some plane => rfl

/-- The blocks of a channel are its first samples, put together again in order. -/
theorem track_cut (channel : Nat) :
    Buffer.track (cut length count start planes) channel =
      (planes.getD channel []).take (length * count) := by
  induction count generalizing start planes with
  | zero => rw [Nat.mul_zero, List.take_zero, cut, Buffer.track, List.flatMap_nil]
  | succ count ih =>
    have hrest : Buffer.track (cut length count (start + length) (planes.map (·.drop length)))
        channel = _ := ih
    have hdrop := plane_map planes none (·.drop length) List.drop_nil channel
    rw [Buffer.plane] at hdrop
    rw [hdrop] at hrest
    rw [cut, Buffer.track, List.flatMap_cons, ← Buffer.track, hrest,
      plane_map planes _ (·.take length) List.take_nil, Nat.mul_succ, Nat.add_comm, List.take_add]

/-- The blocks of equally long planes are well-formed, the last one too, which may be
short. -/
theorem hasShape_of_mem_cut (hplanes : ∀ plane ∈ planes, plane.length = frames) {b : Buffer Float32}
    (hb : b ∈ cut length count start planes) : b.HasShape planes.length b.length := by
  induction count generalizing start planes frames with
  | zero => cases hb
  | succ count ih =>
    rcases List.mem_cons.mp hb with rfl | hrest
    · have hshape : (⟨planes.map (·.take length), some (start : Int)⟩ : Buffer Float32).HasShape
          planes.length (min length frames) := by
        refine ⟨List.length_map .., fun plane hplane => ?_⟩
        obtain ⟨whole, hwhole, rfl⟩ := List.mem_map.mp hplane
        rw [List.length_take, hplanes whole hwhole]
      rcases Nat.eq_zero_or_pos planes.length with hnone | hsome
      · obtain rfl := List.eq_nil_of_length_eq_zero hnone
        exact ⟨rfl, nofun⟩
      · exact (hshape.length_eq hsome).symm ▸ hshape
    · have hlater : ∀ plane ∈ planes.map (·.drop length), plane.length = frames - length := by
        intro plane hplane
        obtain ⟨whole, hwhole, rfl⟩ := List.mem_map.mp hplane
        rw [List.length_drop, hplanes whole hwhole]
      have hshape := ih hlater hrest
      rwa [List.length_map] at hshape

/-- Equally long planes have as many samples as the first, which is the one that is asked. -/
theorem length_getD_eq_frames (hplanes : ∀ plane ∈ planes, plane.length = Session.frames planes)
    (hc : channel < planes.length) : (planes.getD channel []).length = Session.frames planes := by
  rw [List.getD_eq_getElem?_getD, List.getElem?_eq_getElem hc]
  exact hplanes _ (List.getElem_mem hc)

/-- **Cutting planes.** As many blocks as it takes hold every sample of equally long planes. -/
theorem cuts_cut (hplanes : ∀ plane ∈ planes, plane.length = Session.frames planes)
    (hlength : 0 < length) :
    Cuts planes.length (fun channel => planes.getD channel [])
      (cut length ((Session.frames planes + length - 1) / length) start planes) := by
  refine ⟨fun b hb => (hasShape_of_mem_cut hplanes hb).channels_eq,
    fun b hb => (Buffer.hasShape_iff.mp (hasShape_of_mem_cut hplanes hb)).2, fun channel hc => ?_⟩
  rw [track_cut, List.take_of_length_le]
  rw [length_getD_eq_frames hplanes hc]
  have hmod := Nat.mod_lt (Session.frames planes + length - 1) hlength
  have hdiv := Nat.div_add_mod (Session.frames planes + length - 1) length
  omega

end Session

/-! ## Tapes -/

namespace Tape

/-- A tape to which some buffers were appended. -/
structure Continued (before : Tape) (buffers : List (Buffer Float32)) (channels : Nat)
    (after : Tape) : Prop where
  /-- there is a track for each channel -/
  length_eq : after.tracks.length = channels
  /-- the buffers are at the end of each track -/
  plane_eq : ∀ channel < channels,
    after.plane channel = before.plane channel ++ Buffer.track buffers channel

variable {tape tape' tape'' : Tape} {b : Buffer Float32} {buffers more : List (Buffer Float32)}
  {channels length : Nat}

theorem Continued.refl (h : tape.tracks.length = channels) : Continued tape [] channels tape :=
  ⟨h, fun _ _ => (List.append_nil _).symm⟩

theorem Continued.trans (h : Continued tape buffers channels tape')
    (h' : Continued tape' more channels tape'') :
    Continued tape (buffers ++ more) channels tape'' := by
  refine ⟨h'.length_eq, fun channel hc => ?_⟩
  rw [h'.plane_eq channel hc, h.plane_eq channel hc, Buffer.track_append, List.append_assoc]

/-- A tape takes every buffer of the stream that it has tracks for, and continues with its
planes. -/
theorem exists_append (hpos : 0 < channels) (htape : tape.tracks.length = channels)
    (hb : b.HasShape channels length) :
    ∃ tape', tape.append b = (.ok (), tape') ∧ Continued tape [b] channels tape' := by
  obtain ⟨tracks⟩ := tape
  have hlength : tracks.length = b.planes.length := htape.trans hb.channels_eq.symm
  have hextend : Tape.append ⟨tracks⟩ b = (.ok (), ⟨extend tracks b.planes⟩) := by
    cases tracks with
    | nil => exact absurd htape (Nat.ne_of_lt hpos)
    | cons track rest =>
      rw [append]
      · exact if_pos hlength
      · exact List.cons_ne_nil track rest
  refine ⟨_, hextend, (length_extend hlength).trans hb.channels_eq, fun channel hc => ?_⟩
  have hin : channel < tracks.length := Nat.lt_of_lt_of_eq hc htape.symm
  have hin' : channel < b.planes.length := Nat.lt_of_lt_of_eq hc hb.channels_eq.symm
  have hplane : b.planes[channel]? = some b.planes[channel] := List.getElem?_eq_getElem hin'
  rw [plane_extend hin hin', Buffer.track_singleton, Buffer.plane_of_getElem? hplane]

/-- The planes of a tape that began without samples are those of the buffers on it. -/
theorem Continued.planes_eq (h : Continued (blank channels) buffers channels tape) :
    tape.planes = (List.range channels).map (Buffer.track buffers) := by
  apply List.ext_getElem?
  intro channel
  rw [planes, List.getElem?_map, List.getElem?_map]
  rcases Nat.lt_or_ge channel channels with hc | hc
  · have hin : channel < tape.tracks.length := Nat.lt_of_lt_of_eq hc h.length_eq.symm
    have htrack : tape.tracks[channel]? = some tape.tracks[channel] :=
      List.getElem?_eq_getElem hin
    have hplane := h.plane_eq channel hc
    rw [plane_blank, List.nil_append, plane, List.getD_eq_getElem?_getD, htrack,
      Option.getD_some] at hplane
    rw [htrack, List.getElem?_range hc, Option.map_some, Option.map_some, hplane]
  · rw [List.getElem?_eq_none (h.length_eq.symm ▸ hc),
      List.getElem?_eq_none (by rw [List.length_range]; exact hc)]
    rfl

end Tape

/-! ## A session with a tape -/

namespace Session

variable {s : Session} {tape : Tape} {queue : Nat → List Float32} {d : Device}
  {outs : List (Buffer Float32)}

/-- What a session hands to a tape is on it, and is counted and answered as its length. -/
theorem exists_deliver {channels length : Nat} (s : Session) {o : Buffer Float32}
    (hpos : 0 < channels)
    (htape : tape.tracks.length = channels) (ho : o.HasShape channels length) :
    ∃ tape', s.deliver tape o = (.ok o.length, s.counted o, tape') ∧
      tape.Continued [o] channels tape' := by
  obtain ⟨tape', happend, hcontinued⟩ := Tape.exists_append hpos htape ho
  refine ⟨tape', ?_, hcontinued⟩
  have hwrite : Sink.write tape o = (.ok (), tape') := happend
  rw [deliver]
  simp only [hwrite]
  rfl

/-- A buffer that the device takes in comes out on the tape, as far as anything comes out. -/
theorem exists_push_of_process {b : Buffer Float32} {out : Option (Buffer Float32)}
    (h : s.device.Holds queue) (htape : tape.tracks.length = s.device.layout.channels)
    (hb : b.HasShape s.device.layout.channels b.length)
    (hprocess : s.device.process b = (.ok out, d)) :
    ∃ count s' tape', s.push tape b = (.ok count, s', tape') ∧ s'.device = d ∧
      tape.Continued out.toList s.device.layout.channels tape' := by
  have hprocessed := (h.processed hprocess).2
  rw [push_of_hasShape s tape hb, hprocess]
  cases out with
  | none => exact ⟨0, _, _, rfl, rfl, .refl htape⟩
  | some o =>
    obtain ⟨tape', hdeliver, hcontinued⟩ :=
      (s.fed d b).exists_deliver h.channels_pos htape (hprocessed.hasShape o rfl)
    exact ⟨_, _, _, hdeliver, rfl, hcontinued⟩

/-- Buffers that the device takes in one after another come out on the tape, by induction on
the buffers. -/
theorem pushAll_of_processAll {blocks : List (Buffer Float32)} (h : s.device.Holds queue)
    (htape : tape.tracks.length = s.device.layout.channels)
    (hblocks : ∀ b ∈ blocks, b.HasShape s.device.layout.channels b.length)
    (hall : Device.processAll blocks s.device = .ok (outs, d)) :
    ∃ s' tape', pushAll blocks s tape = (.ok (), s', tape') ∧ s'.device = d ∧
      tape.Continued outs s.device.layout.channels tape' := by
  induction blocks generalizing s tape queue outs with
  | nil =>
    obtain ⟨rfl, rfl⟩ := Prod.mk.inj (Except.ok.inj hall)
    exact ⟨s, tape, rfl, rfl, .refl htape⟩
  | cons b rest ih =>
    rw [Device.processAll] at hall
    split at hall
    · cases hall
    rename_i out d₁ hprocess
    have hprocessed := (h.processed hprocess).2
    obtain ⟨count, s₁, tape₁, hpush, rfl, hfirst⟩ :=
      exists_push_of_process h htape (hblocks b (List.mem_cons_self ..)) hprocess
    cases hrest : Device.processAll rest s₁.device with
    | error fault =>
      rw [hrest] at hall
      cases hall
    | ok result =>
      rw [hrest] at hall
      obtain ⟨rfl, rfl⟩ := Prod.mk.inj (Except.ok.inj hall)
      have hlayout := congrArg Layout.channels hprocessed.layout_eq
      obtain ⟨s₂, tape₂, hpushAll, hdevice, hlater⟩ := ih hprocessed.holds
        (hfirst.length_eq.trans hlayout.symm)
        (fun b' hb' => hlayout.symm ▸ hblocks b' (List.mem_cons_of_mem _ hb')) hrest
      refine ⟨s₂, tape₂, ?_, hdevice, hfirst.trans (hlayout ▸ hlater)⟩
      rw [pushAll, hpush]
      exact hpushAll

/-- Buffers that the device drains come out on the tape, by induction on their number. -/
theorem finishUpTo_of_drainUpTo {count : Nat} (h : s.device.Holds queue)
    (htape : tape.tracks.length = s.device.layout.channels)
    (hall : Device.drainUpTo count s.device = .ok (outs, d)) :
    ∃ total s' tape', finishUpTo count s tape = (.ok total, s', tape') ∧
      tape.Continued outs s.device.layout.channels tape' := by
  induction count generalizing s tape queue outs with
  | zero =>
    obtain ⟨rfl, rfl⟩ := Prod.mk.inj (Except.ok.inj hall)
    exact ⟨0, s, tape, rfl, .refl htape⟩
  | succ count ih =>
    obtain ⟨out, d₁, hdrain, hdrained⟩ := h.drain
    cases out with
    | none =>
      rw [Device.drainUpTo_of_none hdrain] at hall
      obtain ⟨rfl, rfl⟩ := Prod.mk.inj (Except.ok.inj hall)
      refine ⟨0, { s with device := d₁ }, tape, ?_, .refl htape⟩
      rw [finishUpTo, hdrain]
    | some o =>
      have hlayout := congrArg Layout.channels hdrained.layout_eq
      obtain ⟨tape₁, hdeliver, hfirst⟩ :=
        { s with device := d₁ : Session }.exists_deliver h.channels_pos htape
          (hdrained.hasShape o rfl)
      obtain ⟨rest, d₂, hrest, -⟩ := hdrained.holds.drainUpTo count
      rw [Device.drainUpTo_of_some hdrain hrest] at hall
      obtain ⟨rfl, rfl⟩ := Prod.mk.inj (Except.ok.inj hall)
      obtain ⟨total, s₂, tape₂, hfinish, hlater⟩ :=
        ih (s := counted { s with device := d₁ } o) hdrained.holds
          (hfirst.length_eq.trans hlayout.symm) hrest
      refine ⟨o.length + total, s₂, tape₂, ?_, ?_⟩
      · rw [finishUpTo, hdrain]
        simp only [hdeliver, hfinish]
        rfl
      · exact hfirst.trans (hlayout ▸ hlater)

/-- What a session makes of planes is what its device makes of them as a stream. -/
theorem render_of_stream {planes : List (List Float32)} {length : Nat}
    (h : d.Holds fun _ => []) (hchannels : d.layout.channels = planes.length)
    (hplanes : ∀ plane ∈ planes, plane.length = frames planes)
    (hstream : d.stream (cut length ((frames planes + length - 1) / length) 0 planes) = .ok outs) :
    ∃ tape, (on d).render planes length = .ok tape ∧
      tape.planes = (List.range planes.length).map (Buffer.track outs) := by
  have hblank : (Tape.blank planes.length).tracks.length = d.layout.channels :=
    List.length_replicate.trans hchannels.symm
  rw [Device.stream, bind_eq_ok_iff] at hstream
  obtain ⟨⟨more, d₁⟩, hall, hstream⟩ := hstream
  rw [bind_eq_ok_iff] at hstream
  obtain ⟨⟨rest, d₂⟩, hfinish, hstream⟩ := hstream
  obtain rfl := Except.ok.inj hstream
  obtain ⟨s, tape₁, hpush, rfl, hfirst⟩ := pushAll_of_processAll (s := on d) h hblank
    (fun b hb => hchannels.symm ▸ hasShape_of_mem_cut hplanes hb) hall
  obtain ⟨drained, hstands⟩ := (Device.Run.new.processAll hall).stands h
  have hlayout := congrArg Layout.channels hstands.layout_eq
  obtain ⟨total, s', tape₂, hfinish, hlast⟩ :=
    finishUpTo_of_drainUpTo hstands.holds (hfirst.length_eq.trans hlayout.symm) hfinish
  have hwhole : (Tape.blank planes.length).Continued (more ++ rest) d.layout.channels tape₂ :=
    hfirst.trans (hlayout ▸ hlast)
  rw [hchannels] at hwhole
  refine ⟨tape₂, ?_, hwhole.planes_eq⟩
  simp only [render, hpush, finish, hfinish]

/-- What a new session makes of planes, in blocks of whatever length: each channel as one
stream. -/
theorem render_of_isNew [Memory] {p : Parameters} {rate length : Nat} {planes : List (List Float32)}
    (hnew : IsNew p (.perSample planes.length rate) d)
    (hplanes : ∀ plane ∈ planes, plane.length = frames planes) (hlength : 0 < length) :
    ((on d).render planes length).map Tape.planes =
      .ok ((List.range planes.length).map fun channel =>
        shapeAhead d.curve d.latency (followerFor p rate channel) (planes.getD channel [])) := by
  have hcuts : Cuts planes.length (fun channel => planes.getD channel [])
      (cut length ((frames planes + length - 1) / length) 0 planes) := cuts_cut hplanes hlength
  obtain ⟨outs, -, hstream, -, htrack⟩ := hnew.stream hcuts.hasShape
  obtain ⟨tape, hrender, hout⟩ := render_of_stream hnew.holds
    (congrArg Layout.channels hnew.layout_eq) hplanes hstream
  rw [hrender, Except.map, hout]
  refine congrArg Except.ok (List.map_congr_left fun channel hc => ?_)
  have hc := List.mem_range.mp hc
  rw [htrack channel hc, hcuts.track_eq channel hc]
  rfl

end Session

/-! ## Whole planes through a new session -/

section renderPlanes

variable {p : Parameters} {planes : List (List Float32)} {rate : Nat} {d : Device}

/-- Planes that differ in length are refused, before anything else is looked at. -/
theorem renderPlanes_of_ragged [Memory] {error : StreamError}
    (h : checkLengths planes (Session.frames planes) = .error error) (blockSize : Nat) :
    renderPlanes p planes rate blockSize = .error (.error error) := by
  rw [renderPlanes, h]

/-- So are equally long planes for which no device is set up, with the error of the setup. -/
theorem renderPlanes_of_setUp_eq_error [Memory] {error : SetupError}
    (hplanes : ∀ plane ∈ planes, plane.length = Session.frames planes)
    (h : Device.setUp (N := Float32) p (.perSample planes.length rate) = .error error)
    (blockSize : Nat) : renderPlanes p planes rate blockSize = .error (.error (.setup error)) := by
  rw [renderPlanes, checkLengths_eq_ok_iff.mpr hplanes, Session.start, h]

/-- All others come out, as one device makes them of the samples of each channel. -/
theorem renderPlanes_of_setUp [Memory]
    (hplanes : ∀ plane ∈ planes, plane.length = Session.frames planes)
    (h : Device.setUp p (.perSample planes.length rate) = .ok d) (blockSize : Nat) :
    renderPlanes p planes rate blockSize =
      .ok ((List.range planes.length).map fun channel =>
        shapeAhead d.curve d.latency (followerFor p rate channel) (planes.getD channel [])) := by
  have hstart := Session.start_eq_ok_iff.mpr ⟨d, h, rfl⟩
  rw [renderPlanes, checkLengths_eq_ok_iff.mpr hplanes, hstart]
  exact Session.render_of_isNew (Device.isNew_of_setUp h) hplanes (by omega)

/-- A device that gets equally long planes in a single buffer makes the same of them. -/
theorem exists_stream_of_setUp [Memory]
    (hplanes : ∀ plane ∈ planes, plane.length = Session.frames planes)
    (h : Device.setUp p (.perSample planes.length rate) = .ok d) (stamp : Option Int) :
    ∃ outs, d.stream [⟨planes, stamp⟩] = .ok outs ∧
      (List.range planes.length).map (Buffer.track outs) =
        (List.range planes.length).map fun channel =>
          shapeAhead d.curve d.latency (followerFor p rate channel) (planes.getD channel []) := by
  have hwhole : ∀ b ∈ [(⟨planes, stamp⟩ : Buffer Float32)],
      b.HasShape (Layout.perSample planes.length rate).channels b.length :=
    List.forall_mem_singleton.mpr ⟨rfl, hplanes⟩
  obtain ⟨outs, -, hstream, -, htrack⟩ := (Device.isNew_of_setUp h).stream hwhole
  refine ⟨outs, hstream, List.map_congr_left fun channel hc => ?_⟩
  rw [htrack channel (List.mem_range.mp hc), Buffer.track_singleton]
  rfl

/-- As many samples come out of each channel as went in, so the output has the shape of the
input. -/
theorem map_length_shapeAhead (curve : Transfer Float32) (ahead : Nat)
    (follower : Nat → Follower Float32) (planes : List (List Float32)) :
    ((List.range planes.length).map fun channel =>
      shapeAhead curve ahead (follower channel) (planes.getD channel [])).map List.length =
        planes.map List.length := by
  apply List.ext_getElem
  · simp
  · intro channel hc hc'
    rw [List.length_map] at hc'
    simp [shapeAhead, hc']

end renderPlanes

end Compander
