import Compander.Proofs.Device.History
import Compander.Proofs.Lookahead.Fifo

/-!
# The end of a stream

Once no buffer comes in any more, a device is asked for what it still holds, buffer by buffer
or all at once. However these calls are mixed, the held samples come out in full buffers, oldest
first, and the last buffer takes what is left over:

* `Device.held` — the samples that a channel holds;
* `Device.Drains` — a device that is asked again and again, until nothing comes out;
* `Device.Holds.finish_iff_drains` — that comes to an end, and taking all at once is the same;
* `Device.Left`, `Device.Left.trans` — what has come out of a device so far, and what is left in
  it;
* `Device.Emptied`, `Device.emptied_of_callAll` — what has come out in the end.

`Left` is what makes the order of the calls immaterial: it is kept by one call for held samples
and by a drain to the end, and two of them in a row are one. The gain of a channel no longer
moves while it is drained, since its follower hears nothing.
-/

namespace Compander

/-- A buffer with the same sample throughout, on all channels, has the shape that it is made
for. -/
theorem Buffer.hasShape_constant {α : Type} (sample : α) (channels length : Nat)
    (stamp : Option Int) : (constant sample channels length stamp).HasShape channels length :=
  ⟨List.length_replicate, fun plane hp => by
    rw [(List.mem_replicate.mp hp).2, List.length_replicate]⟩

namespace Device

variable {N : Type}

/-- The samples that a channel holds, oldest first. -/
def held (d : Device N) (channel : Nat) : Except Fault (List N) :=
  match d.path with
  | .direct => .ok []
  | .delayed line => line.pending channel

theorem Holds.held {d : Device N} {queue : Nat → List N} (h : d.Holds queue) {channel : Nat}
    (hc : channel < d.layout.channels) : d.held channel = .ok (queue channel) := by
  rw [Device.held]
  cases hpath : d.path with
  | direct => rw [h.direct hpath channel hc]
  | delayed line =>
    obtain ⟨hline, hsize⟩ := h.delayed line hpath
    exact hline.pending (hsize ▸ hc)

variable [NarrowArithmetic N] {d d₁ d' : Device N} {queue : Nat → List N}
  {outs more : List (Buffer N)} {count : Nat}

/-! ## Asking until nothing comes out -/

/-- A device that is asked for held samples until nothing comes out any more: what came out, and
the device in the end. -/
inductive Drains : Device N → List (Buffer N) → Device N → Prop where
  /-- nothing comes out -/
  | done {d d' : Device N} : d.drain = .ok (none, d') → Drains d [] d'
  /-- a buffer comes out, and the device is asked again -/
  | next {d d₁ d' : Device N} {o : Buffer N} {outs : List (Buffer N)} :
      d.drain = .ok (some o, d₁) → Drains d₁ outs d' → Drains d (o :: outs) d'

/-- Asking ends in one way only: what comes out and the device that is left are settled by the
device that is asked. -/
theorem Drains.unique (h : Drains d outs d₁) (h' : Drains d more d') : outs = more ∧ d₁ = d' := by
  induction h generalizing more with
  | done hdrain =>
    cases h' with
    | done hdrain' =>
      rw [hdrain] at hdrain'
      cases hdrain'
      exact ⟨rfl, rfl⟩
    | next hdrain' =>
      rw [hdrain] at hdrain'
      cases hdrain'
  | next hdrain _ ih =>
    cases h' with
    | done hdrain' =>
      rw [hdrain] at hdrain'
      cases hdrain'
    | next hdrain' hrest =>
      rw [hdrain] at hdrain'
      cases hdrain'
      obtain ⟨rfl, rfl⟩ := ih hrest
      exact ⟨rfl, rfl⟩

/-- A device that holds nothing puts nothing out, and does not change, so it may be asked once
too often. -/
theorem Holds.drain_of_pending_eq_zero (h : d.Holds queue) (hnone : d.pending = 0) :
    d.drain = .ok (none, d) := by
  obtain ⟨out, d', hdrain, hdrained⟩ := h.drain
  cases out with
  | none =>
    obtain ⟨-, rfl⟩ := hdrained.eq_of_none rfl
    exact hdrain
  | some o => exact absurd hnone (Nat.ne_of_gt (hdrained.draining_eq o rfl).1)

/-- A number of buffers that leaves nothing is all there is, so counting the calls and asking
until nothing comes out agree. -/
theorem Holds.drains_of_drainUpTo (h : d.Holds queue)
    (hall : Device.drainUpTo count d = .ok (outs, d')) (hnone : d'.pending = 0) :
    Drains d outs d' := by
  induction count generalizing d queue outs with
  | zero =>
    obtain ⟨rfl, rfl⟩ := Prod.mk.inj (Except.ok.inj hall)
    exact .done (h.drain_of_pending_eq_zero hnone)
  | succ count ih =>
    obtain ⟨out, d₁, hdrain, hdrained⟩ := h.drain
    cases out with
    | none =>
      rw [drainUpTo_of_none hdrain] at hall
      obtain ⟨rfl, rfl⟩ := Prod.mk.inj (Except.ok.inj hall)
      exact .done hdrain
    | some o =>
      obtain ⟨rest, d₂, hrest, -⟩ := hdrained.holds.drainUpTo count
      rw [drainUpTo_of_some hdrain hrest] at hall
      obtain ⟨rfl, rfl⟩ := Prod.mk.inj (Except.ok.inj hall)
      exact .next hdrain (ih hdrained.holds hrest)

/-- **All at once.** Asking again and again comes to an end, and what comes out in one call for
all held samples is what comes out then. -/
theorem Holds.finish_iff_drains (h : d.Holds queue) :
    d.finish = .ok (outs, d') ↔ Drains d outs d' := by
  obtain ⟨all, d₁, hfinish, -, hnone⟩ := h.finish
  have hdrains := h.drains_of_drainUpTo hfinish hnone
  constructor
  · intro hout
    rw [hfinish] at hout
    obtain ⟨rfl, rfl⟩ := Prod.mk.inj (Except.ok.inj hout)
    exact hdrains
  · intro hout
    obtain ⟨rfl, rfl⟩ := hout.unique hdrains
    exact hfinish

/-! ## What is left -/

/-- What has come out of a device since it held some queues, and what is left in it. -/
structure Left (d : Device N) (queue : Nat → List N) (outs : List (Buffer N)) (d' : Device N) :
    Prop where
  /-- the parameters stay -/
  parameters_eq : d'.parameters = d.parameters
  /-- the layout stays -/
  layout_eq : d'.layout = d.layout
  /-- the curve stays -/
  curve_eq : d'.curve = d.curve
  /-- the followers hear nothing -/
  followers_eq : d'.followers = d.followers
  /-- each buffer took as much as it holds -/
  holds : d'.Holds fun channel => (queue channel).drop (outs.length * drainLength)
  /-- each buffer has a sample, and as many as there are and as it holds -/
  hasShape : ∀ (k : Nat) (o : Buffer N), outs[k]? = some o → k * drainLength < d.pending ∧
    o.HasShape d.layout.channels (min (d.pending - k * drainLength) drainLength)
  /-- what has come out -/
  track_eq : ∀ (channel : Nat) (f : Follower N), d.followers[channel]? = some f →
    Buffer.track outs channel =
      ((queue channel).take (outs.length * drainLength)).map (shape d.curve · f.volume)

theorem Left.refl (h : d.Holds queue) : Left d queue [] d := by
  refine ⟨rfl, rfl, rfl, rfl, ?_, fun k o ho => ?_, fun channel f _ => ?_⟩
  · simpa using h
  · cases ho
  · simp [Buffer.track]

/-- What is left is what no buffer took, each but the last being a full one. -/
theorem Left.pending_eq (h : Left d queue outs d') (hd : d.Holds queue) :
    d'.pending = d.pending - outs.length * drainLength := by
  have hpos := hd.channels_pos
  rw [← h.holds.length_queue (h.layout_eq.symm ▸ hpos), List.length_drop, hd.length_queue hpos]

/-- Buffers that come out after others take what those have left, so two histories of calls
for held samples make one. -/
theorem Left.trans (hd : d.Holds queue) (h : Left d queue outs d₁)
    (h' : Left d₁ (fun channel => (queue channel).drop (outs.length * drainLength)) more d') :
    Left d queue (outs ++ more) d' := by
  have hlength : (outs ++ more).length * drainLength =
      outs.length * drainLength + more.length * drainLength := by
    rw [List.length_append, Nat.add_mul]
  refine ⟨h'.parameters_eq.trans h.parameters_eq, h'.layout_eq.trans h.layout_eq,
    h'.curve_eq.trans h.curve_eq, h'.followers_eq.trans h.followers_eq, ?_, fun k o ho => ?_,
    fun channel f hf => ?_⟩
  · refine h'.holds.congr fun channel _ => ?_
    rw [List.drop_drop, hlength]
  · rcases Nat.lt_or_ge k outs.length with hlt | hge
    · rw [List.getElem?_append_left hlt] at ho
      exact h.hasShape k o ho
    · -- counted on from the buffers before
      rw [List.getElem?_append_right hge] at ho
      obtain ⟨hsome, hshape⟩ := h'.hasShape _ o ho
      have hplace : k * drainLength =
          outs.length * drainLength + (k - outs.length) * drainLength := by
        rw [← Nat.add_mul, Nat.add_sub_cancel' hge]
      rw [h.pending_eq hd, Nat.sub_sub, ← hplace, h.layout_eq] at hshape
      rw [h.pending_eq hd] at hsome
      exact ⟨by omega, hshape⟩
  · have hsecond := h'.track_eq channel f (h.followers_eq.symm ▸ hf)
    rw [Buffer.track_append, h.track_eq channel f hf, hsecond, h.curve_eq, ← List.map_append,
      hlength, List.take_add]

/-- One call for held samples takes a full buffer off the front of every queue, or all there
is. -/
theorem Drained.left {out : Option (Buffer N)} (h : Drained d queue out d') (hd : d.Holds queue) :
    Left d queue out.toList d' := by
  cases out with
  | none =>
    obtain ⟨-, rfl⟩ := h.eq_of_none rfl
    exact .refl hd
  | some o =>
    refine ⟨h.parameters_eq, h.layout_eq, h.curve_eq, h.followers_eq, ?_, fun k o' ho => ?_,
      fun channel f hf => ?_⟩
    · simpa using h.holds
    · obtain ⟨rfl, rfl⟩ : k = 0 ∧ o = o' := by
        simpa [List.getElem?_singleton] using ho
      simpa using And.intro (h.draining_eq o rfl).1 (h.hasShape o rfl)
    · simpa using h.track_eq channel f hf

/-- Asking until nothing comes out takes full buffers off the front, one by one. -/
theorem Drains.left (h : Drains d outs d') (hd : d.Holds queue) : Left d queue outs d' := by
  induction h generalizing queue with
  | done hdrain => exact (hd.of_drain hdrain).left hd
  | next hdrain _ ih =>
    have hfirst := (hd.of_drain hdrain).left hd
    exact hfirst.trans hd (ih hfirst.holds)

/-! ## The end of a stream -/

/-- A call for held samples. -/
def Call.IsEnding : Call N → Prop
  | .drain | .finish => True
  | .process _ | .reconfigure _ => False

/-- The buffers of an answer. -/
def Answer.buffers : Answer N → Except Fault (List (Buffer N))
  | .processed left | .drained left => left.map Option.toList
  | .finished left => left
  | .reconfigured _ => .ok []

/-- The buffers of some answers, one after another. -/
def emitted : List (Answer N) → Except Fault (List (Buffer N))
  | [] => .ok []
  | answer :: rest => do return (← answer.buffers) ++ (← emitted rest)

section calls

variable [Precision Float N]

/-- One call for held samples meets no fault, and a call for all of them leaves nothing. -/
theorem Holds.left_of_call [Memory] (h : d.Holds queue) {c : Call N} (hc : c.IsEnding) :
    ∃ outs, (d.call c).1.buffers = .ok outs ∧ Left d queue outs (d.call c).2 ∧
      (c = .finish → (d.call c).2.pending = 0) := by
  cases c with
  | process b => cases hc
  | reconfigure layout => cases hc
  | drain =>
    obtain ⟨out, d', hdrain, hdrained⟩ := h.drain
    simp only [Device.call, hdrain]
    refine ⟨out.toList, rfl, hdrained.left h, fun hcall => ?_⟩
    cases hcall
  | finish =>
    obtain ⟨outs, d', hfinish, -, hnone⟩ := h.finish
    simp only [Device.call, hfinish]
    exact ⟨outs, rfl, (h.finish_iff_drains.mp hfinish).left h, fun _ => hnone⟩

/-- Any calls for held samples meet no fault, and what they put out together is the front of
every queue, by induction on the calls. -/
theorem Holds.left_of_callAll [Memory] (h : d.Holds queue) {calls : List (Call N)}
    (hcalls : ∀ c ∈ calls, c.IsEnding) :
    ∃ outs, emitted (Device.callAll calls d).1 = .ok outs ∧
      Left d queue outs (Device.callAll calls d).2 := by
  induction calls generalizing d queue with
  | nil => exact ⟨[], rfl, .refl h⟩
  | cons c rest ih =>
    obtain ⟨hc, hrest⟩ := List.forall_mem_cons.mp hcalls
    obtain ⟨first, hfirst, hleft, -⟩ := h.left_of_call hc
    obtain ⟨later, hlater, hleft'⟩ := ih hleft.holds hrest
    refine ⟨first ++ later, ?_, hleft.trans h hleft'⟩
    rw [Device.callAll, emitted, hfirst, hlater]
    rfl

/-- Calls after calls: the later ones are made on the device that the first have left. -/
theorem callAll_append [Memory] (first later : List (Call N)) (d : Device N) :
    callAll (first ++ later) d =
      ((callAll first d).1 ++ (callAll later (callAll first d).2).1,
        (callAll later (callAll first d).2).2) := by
  induction first generalizing d with
  | nil => rfl
  | cons c rest ih => rw [List.cons_append, callAll, ih, callAll, List.cons_append]

end calls

/-- What has come out of a device that holds nothing any more. -/
structure Emptied (d : Device N) (outs : List (Buffer N)) (d' : Device N) : Prop where
  /-- as few buffers as it takes -/
  length_eq : outs.length = (d.pending + drainLength - 1) / drainLength
  /-- all channels of a buffer are equally long -/
  hasShape : ∀ o ∈ outs, o.HasShape d.layout.channels o.length
  /-- each buffer but the last is full -/
  full : ∀ (k : Nat) (o : Buffer N), outs[k]? = some o → k + 1 < outs.length →
    o.length = drainLength
  /-- the last one has a sample at least -/
  last : ∀ o, outs.getLast? = some o → 0 < o.length ∧ o.length ≤ drainLength
  /-- all that a channel held has come out, under the gain of its volume -/
  track_eq : ∀ channel < d.layout.channels, ∃ samples f, d.held channel = .ok samples ∧
    samples.length = d.pending ∧ d.followers[channel]? = some f ∧
      Buffer.track outs channel =
        samples.map fun sample => Decibel.clip (sample * d.curve.gain f.volume)
  /-- nothing is held -/
  pending_eq : d'.pending = 0
  /-- nothing comes out any more -/
  drain_eq : d'.drain = .ok (none, d')
  /-- the followers stay -/
  followers_eq : d'.followers = d.followers
  /-- the curve stays -/
  curve_eq : d'.curve = d.curve
  /-- the layout stays -/
  layout_eq : d'.layout = d.layout

/-- A device that has nothing left has put out all that it held, in as many full buffers as
fit and one for the rest. -/
theorem Left.emptied (h : Left d queue outs d') (hd : d.Holds queue) (hnone : d'.pending = 0) :
    Emptied d outs d' := by
  have hpos := hd.channels_pos
  have hpending := h.pending_eq hd
  -- the number of buffers follows from the last one, which is not empty
  have hlast : ∀ k, k + 1 = outs.length → k * drainLength < d.pending := fun k hk =>
    (h.hasShape k _ (List.getElem?_eq_getElem (by omega))).1
  have hlength : outs.length = (d.pending + drainLength - 1) / drainLength := by
    rw [drainLength] at *
    cases hcount : outs.length with
    | zero => omega
    | succ k =>
      have := hlast k hcount.symm
      omega
  have hlengthOf : ∀ (k : Nat) (o : Buffer N), outs[k]? = some o →
      o.length = min (d.pending - k * drainLength) drainLength := fun k o ho =>
    (h.hasShape k o ho).2.length_eq hpos
  refine ⟨hlength, fun o ho => ?_, fun k o ho hk => ?_, fun o ho => ?_, fun channel hc => ?_,
    hnone, (h.holds.drain_of_pending_eq_zero hnone), h.followers_eq, h.curve_eq, h.layout_eq⟩
  · obtain ⟨k, hk⟩ := List.getElem?_of_mem ho
    rw [hlengthOf k o hk]
    exact (h.hasShape k o hk).2
  · have hmore := (h.hasShape (k + 1) _ (List.getElem?_eq_getElem hk)).1
    rw [hlengthOf k o ho]
    rw [Nat.add_mul] at hmore
    omega
  · rw [List.getLast?_eq_getElem?] at ho
    have hsome := (h.hasShape _ o ho).1
    rw [hlengthOf _ o ho, drainLength]
    rw [drainLength] at hsome
    omega
  · have hf : d.followers[channel]? = some _ :=
      List.getElem?_eq_getElem (hd.length_followers.symm ▸ hc)
    refine ⟨queue channel, _, hd.held hc, hd.length_queue hc, hf, ?_⟩
    rw [h.track_eq channel _ hf, List.take_of_length_le]
    · rfl
    · rw [hd.length_queue hc]
      omega

/-- **The end of a stream.** After any calls on a new device, failing ones included, asking for
held samples until nothing comes out comes to an end, and one call for all of them answers the
same. However calls for held samples are mixed before a last one for all of them, none meets a
fault, and together they empty the device: all that each channel held comes out in as few buffers
as it takes, oldest first, each sample under the gain for the volume of its channel. -/
theorem emptied_of_callAll [Memory] [Precision Float N] {p : Parameters} {layout : Layout}
    {start : Device N} (hnew : setUp p layout = .ok start) (calls : List (Call N))
    {answers : List (Answer N)} (hcalls : callAll calls start = (answers, d)) :
    (∃ outs d', Drains d outs d' ∧ d.finish = .ok (outs, d')) ∧
    ∀ endings : List (Call N), (∀ c ∈ endings, c.IsEnding) →
      ∃ outs, emitted (callAll (endings ++ [.finish]) d).1 = .ok outs ∧
        Emptied d outs (callAll (endings ++ [.finish]) d).2 := by
  obtain ⟨⟨queue, hholds⟩, -, -⟩ := (isNew_of_setUp hnew).holds.callAll calls
  rw [hcalls] at hholds
  refine ⟨?_, fun endings hendings => ?_⟩
  · obtain ⟨outs, d', hfinish, -, -⟩ := hholds.finish
    exact ⟨outs, d', hholds.finish_iff_drains.mp hfinish, hfinish⟩
  · have hall : ∀ c ∈ endings ++ [Call.finish], c.IsEnding := fun c hc =>
      (List.mem_append.mp hc).elim (hendings c) fun hlast => by
        rw [List.mem_singleton.mp hlast]
        trivial
    obtain ⟨outs, houts, hleft⟩ := hholds.left_of_callAll hall
    -- after the last call nothing is held
    obtain ⟨_, -, hbefore⟩ := hholds.left_of_callAll hendings
    obtain ⟨_, -, -, hnone⟩ := hbefore.holds.left_of_call (c := .finish) trivial
    refine ⟨outs, houts, hleft.emptied hholds ?_⟩
    rw [callAll_append]
    exact hnone rfl

/-- A lookahead of 3000 samples is filled, drained once and then finished twice: two buffers come
out. -/
theorem emptied_of_callAll_in_two_buffers :
    ∃ (start d : Device) (answers : List (Answer Float32)),
      setUp { attacks := [0.0], decays := [0.0], delay := 0.375 } (.perSample 1 8000) =
        .ok start ∧
      callAll [.process (Buffer.constant 0.5 1 3000 none)] start = (answers, d) ∧
      ∃ outs, emitted (callAll ([.drain, .finish] ++ [.finish]) d).1 = .ok outs ∧
        outs.length = 2 ∧ Emptied d outs (callAll ([.drain, .finish] ++ [.finish]) d).2 := by
  have hok : (setUp (N := Float32) { attacks := [0.0], decays := [0.0], delay := 0.375 }
      (.perSample 1 8000)).toOption.isSome = true := by
    decide +kernel
  obtain ⟨start, hsome⟩ := Option.isSome_iff_exists.mp hok
  have hnew := eq_ok_of_toOption hsome
  have hstart := isNew_of_setUp hnew
  have hlatency : start.latency = 3000 := by
    rw [hstart.latency_eq]
    decide +kernel
  -- nothing leaves the lookahead while it fills
  obtain ⟨b, hb⟩ : ∃ b, b = Buffer.constant (0.5 : Float32) 1 3000 none := ⟨_, rfl⟩
  have hshape : b.HasShape start.layout.channels 3000 := by
    rw [hb, hstart.layout_eq]
    exact Buffer.hasShape_constant _ _ _ _
  have hlength := hshape.length_eq hstart.holds.channels_pos
  rw [← hlength] at hshape
  obtain ⟨out, d, hprocess, hprocessed⟩ :=
    hstart.holds.process (accept_eq_ok_iff.mpr ⟨hshape, hstart.draining_eq⟩)
  have hempty : start.pending = 0 :=
    (hstart.holds.length_queue hstart.holds.channels_pos).symm
  have hnone : out = none := by
    have hsome := hprocessed.isSome_iff
    rw [hlatency, hempty, hlength] at hsome
    cases out with
    | none => rfl
    | some o => exact absurd (hsome.mp rfl) (by decide)
  have hpending : d.pending = 3000 := by
    have hfilled := hprocessed.length_add_pending hstart.holds hshape
    rw [hnone, hempty, hlength] at hfilled
    simpa using hfilled
  have hcall : callAll [.process b] start = ([.processed (.ok out)], d) := by
    rw [callAll, callAll, call, hprocess]
  obtain ⟨-, hall⟩ := emptied_of_callAll hnew [.process b] hcall
  obtain ⟨outs, houts, hemptied⟩ := hall [.drain, .finish] (by simp [Call.IsEnding])
  refine ⟨start, d, _, hnew, hb ▸ hcall, outs, houts, ?_, hemptied⟩
  rw [hemptied.length_eq, hpending]
  decide

end Device

end Compander
