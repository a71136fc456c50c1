import Compander.Proofs.Device.Run
import Compander.Session

/-!
# The balance of a session

A session counts the samples that come in and those that go out, and its device counts
those that it holds. Whatever becomes of a call, the counts agree: a sample that came in
has gone out, is held, or was lost when the device was set up anew. The balance is an
invariant of the calls. Each of them is taken apart once into what can become of it
(`push_cases`, `finishUpTo_cases`), what one call does to the counts follows by cases
(`Moved`), and what any calls do by induction over them.

A session can be put on a device that has been in use. Such a device may hold samples
that no call on the session has counted, so the balance starts from what it held.

* `Tape.Grown` — every track of a tape has grown by some number of samples;
* `Session.Moved` — what one call does to the counts;
* `Session.Run` — any calls on a session that meet no fault;
* `Session.Run.balanced` — the counts of every run, and what its calls answer;
* `Session.not_balanced_of_used` — the counts alone do not balance on a device in use.
-/

namespace Compander

/-! ## Tapes -/

/-- The samples of a channel on a tape so far. -/
def Tape.plane (t : Tape) (channel : Nat) : List Float32 :=
  (t.tracks.getD channel #[]).toList

/-- Every track of a tape has got a number of samples more behind those that it had. A
tape that had no tracks has got one for each channel of the stream, or has been left as
it was because nothing came. -/
structure Tape.Grown (channels : Nat) (before after : Tape) (count : Nat) : Prop where
  /-- tracks neither come nor go -/
  length_eq : before.tracks ≠ [] → after.tracks.length = before.tracks.length
  /-- the first samples decide how many tracks there are -/
  length_of_blank : before.tracks = [] →
    after.tracks.length = channels ∨ after.tracks = [] ∧ count = 0
  /-- each track keeps what it had and has got as much as all the others -/
  appended : ∀ channel < after.tracks.length, ∃ added, added.length = count ∧
    after.plane channel = before.plane channel ++ added

namespace Tape

variable {tape tape' tape'' : Tape} {b : Buffer Float32} {channels length count more : Nat}

theorem plane_blank (channels channel : Nat) : (blank channels).plane channel = [] := by
  rw [plane, blank, List.getD_eq_getElem?_getD, List.getElem?_replicate]
  split <;> rfl

theorem plane_eq_nil {channel : Nat} (h : tape.tracks.length ≤ channel) :
    tape.plane channel = [] := by
  rw [plane, List.getD_eq_getElem?_getD, List.getElem?_eq_none h, Option.getD_none]

theorem Grown.refl (channels : Nat) (tape : Tape) : Grown channels tape tape 0 :=
  ⟨fun _ => rfl, fun hnil => .inr ⟨hnil, rfl⟩, fun _ _ => ⟨[], rfl, (List.append_nil _).symm⟩⟩

/-- As long as a tape has no tracks nothing has come onto it, so the growth of such a tape is
none at all. -/
theorem Grown.eq_of_tracks_eq_nil (h : Grown channels tape tape' count) (hpos : 0 < channels)
    (hnil : tape'.tracks = []) : tape = tape' ∧ count = 0 := by
  by_cases hblank : tape.tracks = []
  · rcases h.length_of_blank hblank with hchannels | ⟨-, hcount⟩
    · rw [hnil] at hchannels
      exact absurd hchannels (Nat.ne_of_lt hpos)
    · obtain ⟨tracks⟩ := tape
      obtain ⟨tracks'⟩ := tape'
      exact ⟨congrArg Tape.mk (hblank.trans hnil.symm), hcount⟩
  · have hlength := h.length_eq hblank
    rw [hnil] at hlength
    exact absurd (List.length_eq_zero_iff.mp hlength.symm) hblank

/-- What comes onto a tape at one time and at another adds up, on every track. -/
theorem Grown.trans (h : Grown channels tape tape' count)
    (h' : Grown channels tape' tape'' more) (hpos : 0 < channels) :
    Grown channels tape tape'' (count + more) := by
  by_cases hnil : tape'.tracks = []
  · obtain ⟨rfl, rfl⟩ := h.eq_of_tracks_eq_nil hpos hnil
    rwa [Nat.zero_add]
  have hlength := h'.length_eq hnil
  refine ⟨fun hne => hlength.trans (h.length_eq hne), fun hblank => .inl ?_,
    fun channel hc => ?_⟩
  · rcases h.length_of_blank hblank with hchannels | ⟨hnil', -⟩
    · exact hlength.trans hchannels
    · exact absurd hnil' hnil
  · obtain ⟨first, hfirst, hplane⟩ := h.appended channel (hlength ▸ hc)
    obtain ⟨last, hlast, hplane'⟩ := h'.appended channel hc
    refine ⟨first ++ last, ?_, ?_⟩
    · rw [List.length_append, hfirst, hlast]
    · rw [hplane', hplane, List.append_assoc]

section extend

variable {tracks : List (Array Float32)} {planes : List (List Float32)}

theorem length_extend (h : tracks.length = planes.length) :
    (extend tracks planes).length = planes.length := by
  rw [extend, List.length_zipWith, h, Nat.min_self]

/-- A plane goes behind the track of its channel, and the other tracks are left to their own
planes. -/
theorem plane_extend {channel : Nat} (h : channel < tracks.length)
    (h' : channel < planes.length) :
    plane ⟨extend tracks planes⟩ channel = plane ⟨tracks⟩ channel ++ planes[channel] := by
  have htrack : tracks[channel]? = some tracks[channel] := List.getElem?_eq_getElem h
  have hextended : (extend tracks planes)[channel]? = some (tracks[channel] ++ planes[channel]) :=
    List.getElem?_zipWith_eq_some.mpr ⟨_, _, htrack, List.getElem?_eq_getElem h', rfl⟩
  rw [plane, plane, List.getD_eq_getElem?_getD, hextended, List.getD_eq_getElem?_getD, htrack,
    Option.getD_some, Option.getD_some, Array.toList_appendList]

/-- The planes of a buffer put as much behind every track, since they are of one length. -/
theorem exists_plane_extend (hb : b.HasShape channels length)
    (htracks : tracks.length = b.planes.length) :
    ∀ channel < (extend tracks b.planes).length, ∃ added, added.length = length ∧
      plane ⟨extend tracks b.planes⟩ channel = plane ⟨tracks⟩ channel ++ added := by
  intro channel hc
  rw [length_extend htracks] at hc
  exact ⟨_, hb.length_plane _ (List.getElem_mem hc), plane_extend (htracks ▸ hc) hc⟩

end extend

/-- A tape without tracks takes any buffer, and one with tracks takes what has as many
channels. What it does not take leaves it as it is. -/
theorem append_cases {taken : Except StreamError Unit} (hb : b.HasShape channels length)
    (h : tape.append b = (taken, tape')) :
    (taken = .ok () ∧ Grown channels tape tape' length ∧ tape'.tracks.length = channels) ∨
      ∃ error, taken = .error error ∧ tape' = tape ∧ tape.tracks.length ≠ channels := by
  obtain ⟨tracks⟩ := tape
  cases tracks with
  | nil =>
    have hblank : (List.replicate b.channels (#[] : Array Float32)).length = b.planes.length :=
      List.length_replicate
    have hlength := (length_extend hblank).trans hb.channels_eq
    cases h
    refine .inl ⟨rfl, ⟨fun hne => absurd rfl hne, fun _ => .inl hlength, fun channel hc => ?_⟩,
      hlength⟩
    have hempty : plane ⟨[]⟩ channel = plane (blank b.channels) channel :=
      (plane_eq_nil (Nat.zero_le channel)).trans (plane_blank b.channels channel).symm
    rw [hempty]
    exact exists_plane_extend hb hblank channel hc
  | cons track tracks =>
    have hne : track :: tracks ≠ [] := List.cons_ne_nil _ _
    by_cases htracks : (track :: tracks).length = b.channels
    · rw [append, if_pos htracks] at h
      · cases h
        have hlength := length_extend htracks
        exact .inl ⟨rfl, ⟨fun _ => hlength.trans htracks.symm, fun hnil => absurd hnil hne,
          exists_plane_extend hb htracks⟩, hlength.trans hb.channels_eq⟩
      · exact hne
    · rw [append, if_neg htracks] at h
      · cases h
        exact .inr ⟨_, rfl, rfl, hb.channels_eq ▸ htracks⟩
      · exact hne

end Tape

/-! ## One call -/

namespace Session

/-- A call does not meet a fault of the device. -/
def NoFault {α : Type} (answer : Except Refusal α) : Prop :=
  ∀ fault, answer ≠ .error (.fault fault)

/-- A session that has counted a buffer on its way out. -/
def counted (s : Session) (b : Buffer Float32) : Session :=
  { s with samplesOut := s.samplesOut + b.length, buffersOut := s.buffersOut + 1 }

/-- What a call that hands something to a sink does to the counts of a session. -/
structure Moved (s s' : Session) (answer : Except Refusal Nat) : Prop where
  /-- the device holds some queues -/
  holds : ∃ queue, s'.device.Holds queue
  /-- what came in during the call went out or is held now -/
  balance : s'.samplesIn + (s.samplesOut + s.device.pending) =
    s.samplesIn + (s'.samplesOut + s'.device.pending)
  /-- an answer says how many samples went out -/
  samplesOut_eq : ∀ count, answer = .ok count → s'.samplesOut = s.samplesOut + count

variable {σ : Type} [Sink σ] {s s' : Session} {sink sink' : σ} {b : Buffer Float32}
  {answer : Except Refusal Nat} {queue : Nat → List Float32}

/-- A buffer counts as gone out whether the sink takes it or not; what the sink says is passed
on. -/
theorem deliver_cases (h : s.deliver sink b = (answer, s', sink')) :
    s' = s.counted b ∧
      ((answer = .ok b.length ∧ Sink.write sink b = (.ok (), sink')) ∨
        ∃ error, answer = .error (.error error) ∧ Sink.write sink b = (.error error, sink')) := by
  rw [deliver] at h
  split at h
  · rename_i sink₁ hwrite
    cases h
    exact ⟨rfl, .inl ⟨rfl, hwrite⟩⟩
  · rename_i error sink₁ hwrite
    cases h
    exact ⟨rfl, .inr ⟨error, rfl, hwrite⟩⟩

/-- A call that changes nothing moves nothing, and keeps what the device held. -/
theorem Moved.refused (h : s.device.Holds queue) (refusal : Refusal) :
    Moved s s (.error refusal) :=
  ⟨⟨queue, h⟩, rfl, fun _ hok => (nomatch hok)⟩

/-- A call at the end of the stream that finds nothing held answers zero and changes
nothing. -/
theorem Moved.idle (h : s.device.Holds queue) : Moved s s (.ok 0) := by
  refine ⟨⟨queue, h⟩, rfl, fun count hok => ?_⟩
  cases hok
  rfl

/-- A session whose device has taken a buffer in. -/
def fed (s : Session) (device : Device) (b : Buffer Float32) : Session :=
  { s with device, samplesIn := s.samplesIn + b.length }

/-- A push is refused before anything changes, or its buffer goes to the device, which may
meet a fault or let a buffer out or none. Each later proof about a push goes by these
cases. -/
theorem push_cases (hpush : s.push sink b = (answer, s', sink')) :
    (∃ error, answer = .error (.error error) ∧ s' = s ∧ sink' = sink) ∨
    (∃ fault, answer = .error (.fault fault)) ∨
    ∃ out device, s.device.process b = (.ok out, device) ∧
      (out = none → answer = .ok 0 ∧ s' = s.fed device b ∧ sink' = sink) ∧
      ∀ o, out = some o → (s.fed device b).deliver sink o = (answer, s', sink') := by
  obtain ⟨device, samplesIn, samplesOut, buffersOut⟩ := s
  rw [push] at hpush
  split at hpush
  · obtain ⟨rfl, rfl, rfl⟩ := hpush
    exact .inl ⟨_, rfl, rfl, rfl⟩
  split at hpush
  · obtain ⟨rfl, rfl, rfl⟩ := hpush
    exact .inl ⟨_, rfl, rfl, rfl⟩
  cases hprocess : device.process b with
  | mk left device' =>
    simp only [hprocess] at hpush
    cases left with
    | error fault =>
      obtain ⟨rfl, rfl, rfl⟩ := hpush
      exact .inr (.inl ⟨_, rfl⟩)
    | ok out =>
      -- from here on the buffer counts as having come in, whatever the sink says
      refine .inr (.inr ⟨out, device', rfl, fun hnone => ?_, fun o hsome => ?_⟩)
      · subst hnone
        obtain ⟨rfl, rfl, rfl⟩ := hpush
        exact ⟨rfl, rfl, rfl⟩
      · subst hsome
        exact hpush

/-- A push that meets no fault moves the counts by its own length and by the length of what
comes out. -/
theorem moved_of_push (h : s.device.Holds queue)
    (hpush : s.push sink b = (answer, s', sink')) (hfault : NoFault answer) :
    Moved s s' answer := by
  rcases push_cases hpush with ⟨error, rfl, rfl, rfl⟩ | ⟨fault, rfl⟩ |
    ⟨out, device, hprocess, hnone, hsome⟩
  · exact .refused h _
  · exact absurd rfl (hfault fault)
  obtain ⟨haccept, hprocessed⟩ := h.processed hprocess
  have hbalance :=
    hprocessed.length_add_pending h (Device.accept_eq_ok_iff.mp haccept).1
  cases out with
  | none =>
    obtain ⟨rfl, rfl, rfl⟩ := hnone rfl
    rw [Option.map_none, Option.getD_none] at hbalance
    refine ⟨⟨_, hprocessed.holds⟩, ?_, fun count hok => ?_⟩
    · simp only [fed]
      omega
    · cases hok
      rfl
  | some o =>
    obtain ⟨rfl, hanswer⟩ := deliver_cases (hsome o rfl)
    rw [Option.map_some, Option.getD_some] at hbalance
    refine ⟨⟨_, hprocessed.holds⟩, ?_, fun count hok => ?_⟩
    · simp only [fed, counted]
      omega
    · rcases hanswer with ⟨rfl, -⟩ | ⟨error, rfl, -⟩
      · cases hok
        rfl
      · cases hok

/-- At the end of the stream nothing is held, or the sink refuses the next buffer of held
samples, or takes it and the drain goes on. -/
theorem finishUpTo_cases {count : Nat} (h : s.device.Holds queue)
    (hfinish : s.finishUpTo (count + 1) sink = (answer, s', sink')) :
    (s.device.pending = 0 ∧ answer = .ok 0 ∧ s' = s ∧ sink' = sink) ∨
    ∃ o device, s.device.drain = .ok (some o, device) ∧
      ((∃ error, Sink.write sink o = (.error error, sink') ∧
          answer = .error (.error error) ∧ s' = counted { s with device } o) ∨
        ∃ rest sink₁, Sink.write sink o = (.ok (), sink₁) ∧
          (counted { s with device } o).finishUpTo count sink₁ = (rest, s', sink') ∧
          answer = rest.map (o.length + ·)) := by
  obtain ⟨out, device, hdrain, hdrained⟩ := h.drain
  rw [finishUpTo, hdrain] at hfinish
  cases out with
  | none =>
    obtain ⟨hnone, rfl⟩ := hdrained.eq_of_none rfl
    cases hfinish
    exact .inl ⟨hnone, rfl, rfl, rfl⟩
  | some o =>
    refine .inr ⟨o, device, hdrain, ?_⟩
    simp only at hfinish
    split at hfinish
    · rename_i refusal s₁ sink₁ hdeliver
      cases hfinish
      obtain ⟨rfl, ⟨hok, -⟩ | ⟨error, herror, hwrite⟩⟩ := deliver_cases hdeliver
      · cases hok
      · exact .inl ⟨error, hwrite, herror, rfl⟩
    · rename_i written s₁ sink₁ hdeliver
      obtain ⟨rfl, ⟨hok, hwrite⟩ | ⟨error, herror, -⟩⟩ := deliver_cases hdeliver
      · cases hok
        cases hfinish
        exact .inr ⟨_, sink₁, hwrite, rfl, rfl⟩
      · cases herror

/-- A call for all that is held moves the counts by what comes out, up to an error of the
sink. -/
theorem moved_of_finishUpTo {count : Nat} (h : s.device.Holds queue)
    (hfinish : s.finishUpTo count sink = (answer, s', sink')) : Moved s s' answer := by
  induction count generalizing s sink answer queue with
  | zero =>
    cases hfinish
    exact .idle h
  | succ count ih =>
    rcases finishUpTo_cases h hfinish with ⟨-, rfl, rfl, rfl⟩ | ⟨o, device, hdrain, hrest⟩
    · exact .idle h
    have hdrained := h.of_drain hdrain
    have hbalance := hdrained.length_add_pending h
    rw [Option.map_some, Option.getD_some] at hbalance
    rcases hrest with ⟨error, -, rfl, rfl⟩ | ⟨rest, sink₁, -, hrest, rfl⟩
    · -- the refused buffer has left the device and counts as gone out
      refine ⟨⟨_, hdrained.holds⟩, ?_, fun count hok => (nomatch hok)⟩
      simp only [counted]
      omega
    · have hmoved := ih (s := counted { s with device } o) hdrained.holds hrest
      have hmiddle := hmoved.balance
      simp only [counted] at hmiddle
      refine ⟨hmoved.holds, by omega, fun total hok => ?_⟩
      cases rest with
      | error refusal => cases hok
      | ok more =>
        have hmore := hmoved.samplesOut_eq more rfl
        cases hok
        rw [hmore, counted, Nat.add_assoc]

/-! ## Calls with a tape -/

variable {tape tape' : Tape}

/-- A push with a tape for its sink: the tape grows by the answer, or stays as it is. -/
theorem tape_of_push (h : s.device.Holds queue)
    (hpush : s.push tape b = (answer, s', tape')) :
    (∀ count, answer = .ok count → Tape.Grown s.device.layout.channels tape tape' count) ∧
      ∀ error, answer = .error (.error error) → tape' = tape := by
  rcases push_cases hpush with ⟨error, rfl, rfl, rfl⟩ | ⟨fault, rfl⟩ |
    ⟨out, device, hprocess, hnone, hsome⟩
  · exact ⟨fun _ hok => (nomatch hok), fun _ _ => rfl⟩
  · exact ⟨fun _ hok => (nomatch hok), fun _ herror => (nomatch herror)⟩
  obtain ⟨-, hprocessed⟩ := h.processed hprocess
  cases out with
  | none =>
    obtain ⟨rfl, rfl, rfl⟩ := hnone rfl
    exact ⟨fun count hok => by cases hok; exact .refl _ _, fun _ _ => rfl⟩
  | some o =>
    have hshape := hprocessed.hasShape o rfl
    have hlength := hshape.length_eq h.channels_pos
    obtain ⟨-, ⟨rfl, hwrite⟩ | ⟨error, rfl, hwrite⟩⟩ := deliver_cases (hsome o rfl)
    · rcases Tape.append_cases hshape hwrite with ⟨-, hgrown, -⟩ | ⟨error, hcase, -⟩
      · refine ⟨fun count hok => ?_, fun error herror => (nomatch herror)⟩
        cases hok
        exact hlength ▸ hgrown
      · cases hcase
    · rcases Tape.append_cases hshape hwrite with ⟨hcase, -⟩ | ⟨error', -, hsame, -⟩
      · cases hcase
      · exact ⟨fun count hok => (nomatch hok), fun _ _ => hsame⟩

/-- A call for all that is held with a tape for its sink. If the tape refuses a buffer, it
refuses the first. -/
theorem tape_of_finishUpTo {count : Nat} (h : s.device.Holds queue)
    (hfinish : s.finishUpTo count tape = (answer, s', tape')) :
    (∀ total, answer = .ok total → Tape.Grown s.device.layout.channels tape tape' total) ∧
      ∀ refusal, answer = .error refusal →
        tape' = tape ∧ tape.tracks.length ≠ s.device.layout.channels := by
  induction count generalizing s tape answer queue with
  | zero =>
    cases hfinish
    exact ⟨fun total hok => by cases hok; exact .refl _ _, fun _ herror => (nomatch herror)⟩
  | succ count ih =>
    rcases finishUpTo_cases h hfinish with ⟨-, rfl, rfl, rfl⟩ | ⟨o, device, hdrain, hrest⟩
    · exact ⟨fun total hok => by cases hok; exact .refl _ _, fun _ herror => (nomatch herror)⟩
    have hdrained := h.of_drain hdrain
    have hshape := hdrained.hasShape o rfl
    have hlength := hshape.length_eq h.channels_pos
    rcases hrest with ⟨error, hwrite, rfl, -⟩ | ⟨rest, tape₁, hwrite, hrest, rfl⟩
    · rcases Tape.append_cases hshape hwrite with ⟨hcase, -⟩ | ⟨error', -, hsame⟩
      · cases hcase
      · exact ⟨fun _ hok => (nomatch hok), fun _ _ => hsame⟩
    · rcases Tape.append_cases hshape hwrite with ⟨-, hgrown, htracks⟩ | ⟨error, hcase, -⟩
      · have hlayout := congrArg Layout.channels hdrained.layout_eq
        obtain ⟨hok, hrefused⟩ := ih (s := counted { s with device } o) hdrained.holds hrest
        cases rest with
        | error refusal =>
          -- the tape has a track for each channel by now, so it would not refuse
          obtain ⟨-, hne⟩ := hrefused refusal rfl
          exact absurd (htracks.trans hlayout.symm) hne
        | ok more =>
          refine ⟨fun total htotal => ?_, fun _ herror => (nomatch herror)⟩
          cases htotal
          rw [hlength]
          exact hgrown.trans (hlayout ▸ hok more rfl) h.channels_pos
      · cases hcase

/-! ## Runs -/

/-- A session on a device, which may be in use already. -/
def on (d : Device) : Session :=
  { device := d }

/-- A new session is one on a new device, with both counts at zero. -/
theorem start_eq_ok_iff [Memory] {p : Parameters} {layout : Layout} :
    start p layout = .ok s ↔ ∃ d, Device.setUp p layout = .ok d ∧ s = on d := by
  rw [start]
  cases hd : Device.setUp (N := Float32) p layout with
  | error error => simp
  | ok d => simp [on, eq_comm]

/-- Calls on a session that meet no fault, each with a sink of its own: how many samples
were held whenever the device was set up anew, and the session after the calls. -/
inductive Run [Memory] (start : Session) : Nat → Session → Prop where
  /-- no call yet -/
  | new : Run start 0 start
  /-- a buffer in -/
  | push {σ : Type} [Sink σ] {lost : Nat} {s s' : Session} {sink sink' : σ}
      {b : Buffer Float32} {answer : Except Refusal Nat} :
      Run start lost s → s.push sink b = (answer, s', sink') → NoFault answer → Run start lost s'
  /-- the end of the stream -/
  | finish {σ : Type} [Sink σ] {lost : Nat} {s s' : Session} {sink sink' : σ}
      {answer : Except Refusal Nat} :
      Run start lost s → s.finish sink = (answer, s', sink') → Run start lost s'
  /-- another layout -/
  | reconfigure {lost : Nat} {s s' : Session} {layout : Layout} :
      Run start lost s → s.reconfigure layout = .ok s' → Run start (lost + s.device.pending) s'
  /-- another layout that does not fit -/
  | keep {lost : Nat} {s : Session} {layout : Layout} {error : StreamError} :
      Run start lost s → s.reconfigure layout = .error error → Run start lost s

/-- A session on a device that is set up anew keeps its counts, though the new device holds
nothing. -/
theorem reconfigure_eq_ok [Memory] {layout : Layout} (h : s.reconfigure layout = .ok s') :
    ∃ d, Device.setUp s.device.parameters layout = .ok d ∧ s' = { s with device := d } := by
  rw [Session.reconfigure] at h
  split at h
  · rename_i d hd
    cases h
    exact ⟨d, Device.reconfigure_eq_setUp s.device layout ▸ hd, rfl⟩
  · cases h

/-- The balance after any calls. What the device held when the session took it over counts
as having come in. -/
theorem Run.balance [Memory] {d : Device} {lost : Nat} (h : Run (on d) lost s)
    (hd : d.Holds queue) :
    (∃ queue, s.device.Holds queue) ∧
      s.samplesIn + d.pending = s.samplesOut + s.device.pending + lost := by
  induction h with
  | new => exact ⟨⟨queue, hd⟩, rfl⟩
  | push _ hpush hfault ih =>
    obtain ⟨⟨queue, hholds⟩, hbalance⟩ := ih
    have hmoved := moved_of_push hholds hpush hfault
    have := hmoved.balance
    exact ⟨hmoved.holds, by omega⟩
  | finish _ hfinish ih =>
    obtain ⟨⟨queue, hholds⟩, hbalance⟩ := ih
    have hmoved := moved_of_finishUpTo hholds hfinish
    have := hmoved.balance
    exact ⟨hmoved.holds, by omega⟩
  | reconfigure _ hnew ih =>
    obtain ⟨-, hbalance⟩ := ih
    obtain ⟨d', hd', rfl⟩ := reconfigure_eq_ok hnew
    -- the new device holds nothing, and what the former one held is lost
    have hholds := (Device.isNew_of_setUp hd').holds
    have hpend := hholds.length_queue hholds.channels_pos
    rw [List.length_nil] at hpend
    refine ⟨⟨_, hholds⟩, ?_⟩
    simp only
    omega
  | keep _ _ ih => exact ih

/-- **The balance of a session.** After any calls on a session, whose device may be new
(`start_eq_ok_iff`) or have been in use before, what the device held at first and what came in
since has gone out, is held, or was lost with a former setup. On a device that nothing has gone
into, what came in is all there is. No more is held than the output lags behind. The answers
count what goes out, whatever the sink; a tape gets as much on every track, behind what was
there, and a call that is refused leaves it alone. -/
theorem Run.balanced [Memory] {p : Parameters} {layout : Layout} {d₀ d : Device}
    {ins outs : List (Buffer Float32)} {lost : Nat} (hnew : Device.setUp p layout = .ok d₀)
    (hused : Device.Run d₀ ins outs d) (h : Run (on d) lost s) :
    s.samplesIn + d.pending = s.samplesOut + s.device.pending + lost ∧
      (ins = [] → s.samplesIn = s.samplesOut + s.device.pending + lost) ∧
      s.device.pending ≤ s.device.latency ∧
      (∀ (σ : Type) [Sink σ] (sink sink' : σ) (b : Buffer Float32) (s' : Session) (count : Nat),
        s.push sink b = (.ok count, s', sink') ∨ s.finish sink = (.ok count, s', sink') →
          s'.samplesOut = s.samplesOut + count) ∧
      ∀ (tape tape' : Tape) (b : Buffer Float32) (s' : Session) (answer : Except Refusal Nat),
        s.push tape b = (answer, s', tape') ∨ s.finish tape = (answer, s', tape') →
          (∀ count, answer = .ok count →
            Tape.Grown s.device.layout.channels tape tape' count) ∧
            ∀ error, answer = .error (.error error) → tape' = tape := by
  obtain ⟨drained, hstands⟩ := hused.stands (Device.isNew_of_setUp hnew).holds
  obtain ⟨⟨queue, hholds⟩, hbalance⟩ := h.balance hstands.holds
  refine ⟨hbalance, fun hnil => ?_, hholds.pending_le, ?_, ?_⟩
  · subst hnil
    have := hstands.pending_eq_zero
    omega
  · rintro σ _ sink sink' b s' count (hpush | hfinish)
    · exact (moved_of_push hholds hpush fun _ => nofun).samplesOut_eq count rfl
    · exact (moved_of_finishUpTo hholds hfinish).samplesOut_eq count rfl
  · rintro tape tape' b s' answer (hpush | hfinish)
    · exact tape_of_push hholds hpush
    · obtain ⟨hok, hrefused⟩ := tape_of_finishUpTo hholds hfinish
      exact ⟨hok, fun error herror => (hrefused _ herror).1⟩

/-- Three samples go into a lookahead of two, and the other two are lost when the device is
set up anew. Three more put one sample on a tape that had no track. -/
theorem balanced_after_reconfigure :
    ∃ (d : Device) (s s' : Session) (tape : Tape),
      Device.setUp { attacks := [0.0], decays := [0.0], delay := 0.25 } (.perSample 1 8) = .ok d ∧
      Run (on d) 2 s ∧ s.samplesIn = 3 ∧ s.samplesOut = 1 ∧
      s.samplesIn = s.samplesOut + s.device.pending + 2 ∧
      s.push (⟨[]⟩ : Tape) ⟨[[0.5, 0.25, -1.0]], none⟩ = (.ok 1, s', tape) ∧
      tape.tracks.map Array.size = [1] ∧
      Tape.Grown s.device.layout.channels ⟨[]⟩ tape 1 := by
  have hcalls : (((start { attacks := [0.0], decays := [0.0], delay := 0.25 }
      (.perSample 1 8)).toOption.bind fun s =>
        let (answer, s, _) := s.push (Tape.blank 1) ⟨[[0.5, 0.25, -1.0]], none⟩
        (s.reconfigure (.perSample 1 8)).toOption.map fun s' =>
          let (answer', _, tape) := s'.push (⟨[]⟩ : Tape) ⟨[[0.5, 0.25, -1.0]], none⟩
          ((answer.toOption, s.device.pending, s'.samplesIn, s'.samplesOut),
            (answer'.toOption, tape.tracks.map Array.size)))) =
      some ((some 1, 2, 3, 1), (some 1, [1])) := by
    decide +kernel
  obtain ⟨s₀, hstart, hcalls⟩ := Option.bind_eq_some_iff.mp hcalls
  obtain ⟨d, hnew, rfl⟩ := start_eq_ok_iff.mp (Device.eq_ok_of_toOption hstart)
  cases hpush : (on d).push (Tape.blank 1) ⟨[[0.5, 0.25, -1.0]], none⟩ with
  | mk answer rest =>
    obtain ⟨s, tape⟩ := rest
    rw [hpush] at hcalls
    obtain ⟨s', hreconfigure, hcounts⟩ := Option.map_eq_some_iff.mp hcalls
    cases hpush' : s'.push (⟨[]⟩ : Tape) ⟨[[0.5, 0.25, -1.0]], none⟩ with
    | mk answer' rest' =>
      obtain ⟨s'', tape'⟩ := rest'
      simp only [hpush', Prod.mk.injEq] at hcounts
      obtain ⟨⟨hanswer, hpending, hin, hout⟩, hanswer', hsizes⟩ := hcounts
      have hok := Device.eq_ok_of_toOption hanswer
      obtain rfl := Device.eq_ok_of_toOption hanswer'
      have hrun : Run (on d) 2 s' := by
        have hfirst := Run.new.push hpush fun fault hfault => nomatch hok.symm.trans hfault
        have hall := hfirst.reconfigure (Device.eq_ok_of_toOption hreconfigure)
        rwa [hpending] at hall
      obtain ⟨-, hbalance, -, -, htape⟩ := Run.balanced hnew .new hrun
      exact ⟨d, s', s'', tape', hnew, hrun, hin, hout, hbalance rfl, hpush', hsizes,
        (htape _ _ _ _ _ (.inl hpush')).1 1 rfl⟩

/-- A device that holds a sample when a session takes it over puts the counts of the session
out by that sample: after a buffer of one more it holds two, of which one was counted. -/
theorem not_balanced_of_used :
    ¬∀ (p : Parameters) (layout : Layout) (d₀ d : Device) (ins outs : List (Buffer Float32))
      (lost : Nat) (s : Session), Device.setUp p layout = .ok d₀ → Device.Run d₀ ins outs d →
        Run (on d) lost s → s.samplesIn = s.samplesOut + s.device.pending + lost := by
  intro hbalanced
  have hcalls : ((Device.setUp (N := Float32)
      { attacks := [0.0], decays := [0.0], delay := 0.25 } (.perSample 1 8)).toOption.bind
        fun d₀ => (Device.processAll [⟨[[0.5]], none⟩] d₀).toOption.map fun (_, d) =>
          let (answer, s, _) := (on d).push (⟨[]⟩ : Tape) ⟨[[0.25]], none⟩
          (answer.toOption, s.samplesIn, s.samplesOut, s.device.pending)) =
      some (some 0, 1, 0, 2) := by
    decide +kernel
  obtain ⟨d₀, hnew, hcalls⟩ := Option.bind_eq_some_iff.mp hcalls
  obtain ⟨⟨outs, d⟩, hall, hcounts⟩ := Option.map_eq_some_iff.mp hcalls
  cases hpush : (on d).push (⟨[]⟩ : Tape) ⟨[[0.25]], none⟩ with
  | mk answer rest =>
    obtain ⟨s, tape⟩ := rest
    simp only [hpush, Prod.mk.injEq] at hcounts
    obtain ⟨hanswer, hin, hout, hpending⟩ := hcounts
    have hok := Device.eq_ok_of_toOption hanswer
    have hused := Device.Run.new.processAll (Device.eq_ok_of_toOption hall)
    have hrun := Run.new.push hpush fun fault hfault => nomatch hok.symm.trans hfault
    have := hbalanced _ _ d₀ d _ _ 0 s (Device.eq_ok_of_toOption hnew) hused hrun
    omega

end Session

end Compander
