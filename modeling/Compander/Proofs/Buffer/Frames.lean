import Compander.Proofs.Buffer.Interleaving

/-!
# Frames

A buffer is read frame by frame, and within a frame channel by channel. Up to the end of the
shortest channel that is interleaving, and there the reading stops with a fault if the first
channel goes on:

* `Buffer.toFrames_of_length_le` — what is read if no channel ends before the first;
* `Buffer.shortest_of_toFrames_eq_error` — which channel is at fault, and where;
* `Buffer.exists_toFrames_eq_error_iff` — when a channel is;
* `Buffer.frames_and_planes` — interleaved samples and planes as two forms of one buffer.

Reading is a number of steps, each of which may fail, within a number of such steps. So there
are a few lemmas first about steps of this kind: which error they end in is decided by the
first that fails, and that there is an error at all by whether any does.
-/

namespace Compander.Buffer

variable {α β ε : Type}

/-! ## Steps that may fail -/

section mapM

variable {f : α → Except ε β} {items : List α} {e : ε}

/-- The first step of several, and then the others: an error of the first is the error of
all. -/
theorem mapM_cons_eq (f : α → Except ε β) (item : α) (items : List α) :
    (item :: items).mapM f = match f item with
      | .ok first => (items.mapM f).map (first :: ·)
      | .error e => .error e := by
  rw [List.mapM_cons]
  cases f item with
  | error e => rfl
  | ok first => cases items.mapM f <;> rfl

/-- Steps that all succeed have the results that they have one by one. -/
theorem mapM_eq_ok {g : α → β} (h : ∀ item ∈ items, f item = .ok (g item)) :
    items.mapM f = .ok (items.map g) := by
  induction items with
  | nil => rfl
  | cons item items ih =>
    rw [mapM_cons_eq, h item List.mem_cons_self,
      ih fun other ho => h other (List.mem_cons_of_mem _ ho)]
    rfl

/-- If steps end in an error, it is the error of one of them, and those before it succeed. -/
theorem exists_of_mapM_eq_error (h : items.mapM f = .error e) :
    ∃ before item after, items = before ++ item :: after ∧
      (∀ other ∈ before, ∃ result, f other = .ok result) ∧ f item = .error e := by
  induction items with
  | nil => cases h
  | cons item items ih =>
    rw [mapM_cons_eq] at h
    cases hfirst : f item with
    | error first =>
      rw [hfirst] at h
      obtain rfl := Except.error.inj h
      exact ⟨[], item, items, rfl, nofun, hfirst⟩
    | ok first =>
      rw [hfirst] at h
      cases hrest : items.mapM f with
      | ok rest =>
        rw [hrest] at h
        cases h
      | error second =>
        rw [hrest] at h
        obtain rfl := Except.error.inj h
        obtain ⟨before, failed, after, rfl, hbefore, hfailed⟩ := ih hrest
        refine ⟨item :: before, failed, after, rfl, ?_, hfailed⟩
        exact List.forall_mem_cons.mpr ⟨⟨first, hfirst⟩, hbefore⟩

/-- Steps end in an error exactly if one of them does, whichever that is. -/
theorem exists_mapM_eq_error_iff (f : α → Except ε β) (items : List α) :
    (∃ e, items.mapM f = .error e) ↔ ∃ item ∈ items, ∃ e, f item = .error e := by
  induction items with
  | nil => exact iff_of_false nofun nofun
  | cons item items ih =>
    have hcons : (∃ e, (item :: items).mapM f = .error e) ↔
        (∃ e, f item = .error e) ∨ ∃ e, items.mapM f = .error e := by
      rw [mapM_cons_eq]
      cases f item with
      | error e => simp
      | ok first => cases items.mapM f <;> simp [Except.map]
    rw [hcons, ih]
    simp only [List.mem_cons, exists_eq_or_imp]

/-- Steps in the order of their numbers: the error is that of the first that fails. -/
theorem exists_of_mapM_range_eq_error {f : Nat → Except ε β} {n : Nat} {e : ε}
    (h : (List.range n).mapM f = .error e) :
    ∃ i < n, (∀ j < i, ∃ result, f j = .ok result) ∧ f i = .error e := by
  obtain ⟨before, i, after, hrange, hbefore, hfailed⟩ := exists_of_mapM_eq_error h
  have hlt : before.length < n := by
    have hlength := congrArg List.length hrange
    rw [List.length_range, List.length_append, List.length_cons] at hlength
    omega
  have hplace : ∀ j < n, (before ++ i :: after)[j]? = some j := fun j hj => by
    rw [← hrange, List.getElem?_range hj]
  have hi : before.length = i := by
    have hmiddle := hplace before.length hlt
    rw [List.getElem?_append_right (Nat.le_refl _), Nat.sub_self] at hmiddle
    exact (Option.some.inj hmiddle).symm
  subst hi
  refine ⟨before.length, hlt, fun j hj => hbefore j ?_, hfailed⟩
  have hj' := hplace j (Nat.lt_trans hj hlt)
  rw [List.getElem?_append_left hj] at hj'
  exact List.mem_of_getElem? hj'

end mapM

/-! ## Reading frames -/

section read

variable {plane : List α} {planes : List (List α)} {frame : Nat} {fault : Fault} {b : Buffer α}

theorem sampleAt_eq_error_iff : sampleAt plane.toArray frame = .error fault ↔
    plane.length ≤ frame ∧ fault = .outOfBounds plane.length frame := by
  rw [sampleAt, List.getElem?_toArray, List.size_toArray]
  rcases Nat.lt_or_ge frame plane.length with hlt | hge
  · rw [List.getElem?_eq_getElem hlt]
    exact iff_of_false nofun fun h => Nat.not_le_of_lt hlt h.1
  · rw [List.getElem?_eq_none hge]
    simp only [Except.error.injEq, hge, true_and, eq_comm]

/-- A frame can be read up to where the first channel ends: as long as no channel has, its
samples are all there. -/
theorem frameAt_of_lt (h : ∀ plane ∈ planes, frame < plane.length) :
    frameAt (planes.map List.toArray) frame =
      .ok (planes.filterMap fun plane => plane[frame]?) := by
  induction planes with
  | nil => rfl
  | cons plane planes ih =>
    obtain ⟨hplane, hplanes⟩ := List.forall_mem_cons.mp h
    have hrest := ih hplanes
    rw [frameAt] at hrest
    have hfirst : plane[frame]? = some plane[frame] := List.getElem?_eq_getElem hplane
    have hsample : sampleAt plane.toArray frame = .ok plane[frame] := by
      rw [sampleAt, List.getElem?_toArray, hfirst]
    have hcons : (plane :: planes).filterMap (fun plane => plane[frame]?) =
        plane[frame] :: planes.filterMap fun plane => plane[frame]? :=
      List.filterMap_cons_some hfirst
    rw [frameAt, List.map_cons, mapM_cons_eq, hsample, hrest, hcons]
    rfl

/-- The channel at fault in a frame is one that has ended, and the fault says how long it
is. -/
theorem exists_of_frameAt_eq_error (h : frameAt (planes.map List.toArray) frame = .error fault) :
    ∃ plane ∈ planes, plane.length ≤ frame ∧ fault = .outOfBounds plane.length frame := by
  rw [frameAt] at h
  obtain ⟨before, track, after, hplanes, -, hfailed⟩ := exists_of_mapM_eq_error h
  have hmem : track ∈ planes.map List.toArray := by
    rw [hplanes]
    exact List.mem_append_right _ List.mem_cons_self
  obtain ⟨plane, hplane, rfl⟩ := List.mem_map.mp hmem
  exact ⟨plane, hplane, sampleAt_eq_error_iff.mp hfailed⟩

/-- Some channel is at fault in a frame exactly if one of them has ended by then. -/
theorem exists_frameAt_eq_error_iff (planes : List (List α)) (frame : Nat) :
    (∃ fault, frameAt (planes.map List.toArray) frame = .error fault) ↔
      ∃ plane ∈ planes, plane.length ≤ frame := by
  rw [frameAt, exists_mapM_eq_error_iff]
  constructor
  · rintro ⟨track, htrack, fault, hfault⟩
    obtain ⟨plane, hplane, rfl⟩ := List.mem_map.mp htrack
    exact ⟨plane, hplane, (sampleAt_eq_error_iff.mp hfault).1⟩
  · rintro ⟨plane, hplane, hended⟩
    exact ⟨_, List.mem_map_of_mem hplane, _, sampleAt_eq_error_iff.mpr ⟨hended, rfl⟩⟩

theorem toFrames_eq (b : Buffer α) : b.toFrames =
    ((List.range b.length).mapM (frameAt (b.planes.map List.toArray))).map List.flatten := by
  rw [toFrames]
  cases (List.range b.length).mapM (frameAt (b.planes.map List.toArray)) <;> rfl

theorem toFrames_eq_error_iff : b.toFrames = .error fault ↔
    (List.range b.length).mapM (frameAt (b.planes.map List.toArray)) = .error fault := by
  rw [toFrames_eq]
  cases (List.range b.length).mapM (frameAt (b.planes.map List.toArray)) with
  | ok frames => exact iff_of_false nofun nofun
  | error first => rw [Except.map, Except.error.injEq, Except.error.injEq]

/-- Channels that are as long as the first are interleaved, longer ones up to its end. -/
theorem toFrames_of_length_le (h : ∀ plane ∈ b.planes, b.length ≤ plane.length) :
    b.toFrames = .ok (interleave b.planes b.length) := by
  rw [toFrames_eq, mapM_eq_ok fun frame hframe => frameAt_of_lt fun plane hplane =>
    Nat.lt_of_lt_of_le (List.mem_range.mp hframe) (h plane hplane), interleave_eq,
    List.flatMap_def]
  rfl

/-- Reading stops with a fault exactly if a channel ends before the first, by which the frames
are counted. -/
theorem exists_toFrames_eq_error_iff (b : Buffer α) :
    (∃ fault, b.toFrames = .error fault) ↔ ∃ plane ∈ b.planes, plane.length < b.length := by
  simp only [toFrames_eq_error_iff, exists_mapM_eq_error_iff, exists_frameAt_eq_error_iff,
    List.mem_range]
  constructor
  · rintro ⟨frame, hframe, plane, hplane, hended⟩
    exact ⟨plane, hplane, Nat.lt_of_le_of_lt hended hframe⟩
  · rintro ⟨plane, hplane, hshort⟩
    exact ⟨plane.length, hshort, plane, hplane, Nat.le_refl _⟩

/-- **The channel at fault** is the shortest of them, in the frame where it has ended: frames
are read in order, so no other channel can have ended earlier. -/
theorem shortest_of_toFrames_eq_error (h : b.toFrames = .error fault) :
    ∃ plane ∈ b.planes, plane.length < b.length ∧
      (∀ other ∈ b.planes, plane.length ≤ other.length) ∧
      fault = .outOfBounds plane.length plane.length := by
  obtain ⟨frame, hframe, hbefore, hfailed⟩ :=
    exists_of_mapM_range_eq_error (toFrames_eq_error_iff.mp h)
  obtain ⟨plane, hplane, hended, rfl⟩ := exists_of_frameAt_eq_error hfailed
  -- a channel that ended earlier would have been at fault earlier
  have hlong : ∀ other ∈ b.planes, frame ≤ other.length := by
    intro other hother
    apply Nat.le_of_not_lt
    intro hshort
    obtain ⟨samples, hsamples⟩ := hbefore other.length hshort
    obtain ⟨fault, hfault⟩ := (exists_frameAt_eq_error_iff b.planes other.length).mpr
      ⟨other, hother, Nat.le_refl _⟩
    rw [hsamples] at hfault
    cases hfault
  obtain rfl := Nat.le_antisymm hended (hlong plane hplane)
  exact ⟨plane, hplane, hframe, hlong, rfl⟩

end read

/-! ## Both ways -/

theorem isWellFormed_iff {b : Buffer α} :
    b.isWellFormed = true ↔ ∀ plane ∈ b.planes, plane.length = b.length := by
  simp only [isWellFormed, List.all_eq_true, decide_eq_true_eq]

/-- The first channel of a buffer of full frames has a sample of each. -/
theorem length_ofFrames (samples : List α) {channels : Nat} (hpos : 0 < channels)
    (stamp : Option Int) :
    (ofFrames samples channels stamp).length = samples.length / channels := by
  obtain ⟨plane, hplane, -⟩ := getElem?_separate samples hpos
  have hfirst : (separate samples channels).head? = some plane := by
    rwa [List.head?_eq_getElem?]
  rw [length, ofFrames, hfirst]
  exact length_of_mem_separate (List.mem_of_getElem? hplane)

/-- **Frames and planes** are two forms of the same samples. A buffer of interleaved samples is
well-formed, with one plane for each channel, in which the samples of that channel stand, one for
each full frame, and gives the samples of the full frames back. A well-formed buffer with a channel
can be interleaved, and is the buffer of what comes out. Any other buffer can be unless one of its
channels ends before the first; then the shortest is at fault. -/
theorem frames_and_planes (samples : List α) {channels : Nat} (hpos : 0 < channels)
    (stamp : Option Int) (b : Buffer α) :
    ((ofFrames samples channels stamp).isWellFormed = true ∧
      (ofFrames samples channels stamp).channels = channels ∧
      (∀ plane ∈ (ofFrames samples channels stamp).planes,
        plane.length = samples.length / channels) ∧
      (∀ channel < channels, ∃ plane,
        (ofFrames samples channels stamp).planes[channel]? = some plane ∧
          ∀ frame < samples.length / channels,
            plane[frame]? = samples[frame * channels + channel]?) ∧
      (ofFrames samples channels stamp).toFrames =
        .ok (samples.take (samples.length / channels * channels))) ∧
    (b.isWellFormed = true → 0 < b.channels →
      ∃ frames, b.toFrames = .ok frames ∧ ofFrames frames b.channels b.stamp = b) ∧
    ((∃ fault, b.toFrames = .error fault) ↔ ∃ plane ∈ b.planes, plane.length < b.length) ∧
    ∀ fault, b.toFrames = .error fault → ∃ plane ∈ b.planes,
      (∀ other ∈ b.planes, plane.length ≤ other.length) ∧
        fault = .outOfBounds plane.length plane.length := by
  have hlength := length_ofFrames samples hpos stamp
  have hplanes : ∀ plane ∈ (ofFrames samples channels stamp).planes,
      plane.length = samples.length / channels := fun plane => length_of_mem_separate
  refine ⟨⟨?_, length_separate samples channels, hplanes,
    fun channel hchannel => getElem?_separate samples hchannel, ?_⟩, fun hwell hchannels => ?_,
    exists_toFrames_eq_error_iff b, fun fault h => ?_⟩
  · rw [isWellFormed_iff, hlength]
    exact hplanes
  · have hfull : ∀ plane ∈ (ofFrames samples channels stamp).planes,
        (ofFrames samples channels stamp).length ≤ plane.length := fun plane hplane =>
      Nat.le_of_eq (hlength.trans (hplanes plane hplane).symm)
    rw [toFrames_of_length_le hfull, hlength, ofFrames, interleave_separate samples hpos]
  · have heven := isWellFormed_iff.mp hwell
    refine ⟨_, toFrames_of_length_le fun plane hplane => ?_, ?_⟩
    · exact Nat.le_of_eq (heven plane hplane).symm
    · rw [ofFrames, Buffer.channels, separate_interleave heven hchannels]
  · obtain ⟨plane, hplane, -, hleast, hfault⟩ := shortest_of_toFrames_eq_error h
    exact ⟨plane, hplane, hleast, hfault⟩

/-- Five samples of two channels, and a buffer whose second channel is short. -/
theorem frames_and_planes_of_two_channels :
    0 < 2 ∧ (ofFrames [1, 2, 3, 4, 5] 2 none).isWellFormed = true ∧
      (ofFrames [1, 2, 3, 4, 5] 2 none).toFrames = .ok [1, 2, 3, 4] ∧
      (∃ fault, (⟨[[1, 2, 3], [4], [5, 6]], some 0⟩ : Buffer Nat).toFrames = .error fault) ∧
      ∃ frames, (⟨[[1, 3], [2, 4]], some 0⟩ : Buffer Nat).toFrames = .ok frames ∧
        ofFrames frames 2 (some 0) = ⟨[[1, 3], [2, 4]], some 0⟩ := by
  have hpos : 0 < 2 := by decide
  obtain ⟨⟨hwell, -, -, -, hframes⟩, -, hfault, -⟩ :=
    frames_and_planes [1, 2, 3, 4, 5] hpos none ⟨[[1, 2, 3], [4], [5, 6]], some 0⟩
  obtain ⟨-, hback, -⟩ := frames_and_planes [1] hpos none ⟨[[1, 3], [2, 4]], some 0⟩
  exact ⟨hpos, hwell, hframes, hfault.mpr ⟨[4], by decide, by decide⟩, hback rfl hpos⟩

end Compander.Buffer
