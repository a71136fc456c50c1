import Compander.Proofs.Clock.Drift
import Compander.Proofs.Device.Run

/-!
# The stamps of what a device emits

A device with a lookahead has a clock of its own. The first buffer that comes in sets it,
and from then on only what goes out moves it, while the stream runs as well as when it is
drained. The clock is a signed word, and a stream that runs out of words goes on from the
least of them; all that is said of stamps is said of streams for which that does not happen:

* `Device.clock` — the clock after some buffers in and some out, as a whole number;
* `Device.InTime` — that number stays within the words all along;
* `Device.Clocked` — the device has that clock, and each buffer was stamped by it;
* `Device.Run.clocked` — that is so after every run of a new device;
* `Device.Stamped` — what follows for the stamps: where they start, how they go on, and
  how far they stray from the exact time;
* `Device.Run.stamped` — the stamps of every run.
-/

namespace Compander.Device

variable {N : Type}

/-- The clock once some buffers have come in and some have gone out. -/
def clock (layout : Layout) (ins outs : List (Buffer N)) : Option Int :=
  ins.head?.map fun b =>
    b.stamp.getD 0 + layout.tick.elapsed layout.rate (outs.map Buffer.length)

theorem clock_append_ins {layout : Layout} {ins : List (Buffer N)} (hne : ins ≠ [])
    (more outs : List (Buffer N)) : clock layout (ins ++ more) outs = clock layout ins outs := by
  rw [clock, clock, List.head?_append_of_ne_nil _ hne]

theorem clock_append_outs (layout : Layout) (ins outs : List (Buffer N)) (o : Buffer N) :
    clock layout ins (outs ++ [o]) =
      (clock layout ins outs).map (· + layout.tick.count o.length layout.rate) := by
  cases ins with
  | nil => rfl
  | cons b ins =>
    simp only [clock, List.head?_cons, Option.map_some, List.map_append, List.map_cons,
      List.map_nil, Tick.elapsed_append, Tick.elapsed_singleton, Int.add_assoc]

/-- Over the whole stream the clock stays within the words: when the first buffer sets it and
after each buffer that has gone out, the last one included. -/
def InTime (layout : Layout) (ins outs : List (Buffer N)) : Prop :=
  ∀ k ≤ outs.length, ∀ time, clock layout ins (outs.take k) = some time → Tick.IsStamp time

/-- The clock of a device, and the stamps that it has given. -/
structure Clocked (layout : Layout) (ins outs : List (Buffer N)) (d : Device N) : Prop where
  /-- nothing goes out before a buffer has come in -/
  outs_eq_nil : ins = [] → outs = []
  /-- the clock now -/
  nextStamp_eq : d.nextStamp = clock layout ins outs
  /-- each buffer has the time of the clock before it -/
  stamp_eq : ∀ (k : Nat) (o : Buffer N), outs[k]? = some o →
    o.stamp = clock layout ins (outs.take k)

variable {layout : Layout} {ins outs : List (Buffer N)} {d d' : Device N}

theorem InTime.now (h : InTime layout ins outs) {time : Int}
    (htime : clock layout ins outs = some time) : Tick.IsStamp time := by
  refine h outs.length le_rfl time ?_
  rwa [List.take_length]

/-- A stream that stays within the words has done so before its last buffers, so the condition
can be used step by step. -/
theorem InTime.of_append {more later : List (Buffer N)}
    (h : InTime layout (ins ++ more) (outs ++ later)) : InTime layout ins outs := by
  intro k hk time htime
  cases ins with
  | nil => cases htime
  | cons b ins =>
    refine h k (hk.trans (by rw [List.length_append]; omega)) time ?_
    rw [List.take_append_of_le_length hk, clock_append_ins (List.cons_ne_nil _ _)]
    exact htime

theorem Clocked.new (h : d.nextStamp = none) : Clocked layout [] [] d :=
  ⟨fun _ => rfl, h, fun _ _ hk => nomatch hk⟩

/-- What has gone out went out after something had come in, since a new device holds
nothing. -/
theorem Clocked.ins_ne_nil (h : Clocked layout ins outs d) {k : Nat} {o : Buffer N}
    (hk : outs[k]? = some o) : ins ≠ [] := by
  rintro rfl
  rw [h.outs_eq_nil rfl] at hk
  cases hk

/-- A buffer that comes in sets the clock if it is the first, to its own stamp or to zero. -/
theorem Clocked.set (h : Clocked layout ins outs d) (b : Buffer N) :
    some (d.nextStamp.getD (b.stamp.getD 0)) = clock layout (ins ++ [b]) outs := by
  rw [h.nextStamp_eq]
  cases ins with
  | nil =>
    rw [h.outs_eq_nil rfl]
    simp [clock, Tick.elapsed]
  | cons first ins => rfl

/-- A buffer that goes out with the time of the clock moves it on by its own length, in ticks
rounded to the nearest. This is the step that both kinds of call have in common. -/
theorem Clocked.emit {o : Buffer N} {time : Int}
    (hstamps : ∀ (k : Nat) (o : Buffer N), outs[k]? = some o →
      o.stamp = clock layout ins (outs.take k))
    (hins : ins ≠ []) (htime : some time = clock layout ins outs) (ho : o.stamp = some time)
    (hnext : d'.nextStamp = some (layout.tick.after time o.length layout.rate))
    (hinTime : InTime layout ins (outs ++ [o])) :
    Clocked layout ins (outs ++ [o]) d' := by
  have hlater : clock layout ins (outs ++ [o]) =
      some (time + layout.tick.count o.length layout.rate) := by
    rw [clock_append_outs, ← htime, Option.map_some]
  refine ⟨fun hnil => absurd hnil hins, ?_, fun k o' hk => ?_⟩
  · rw [hnext, hlater, Tick.after_eq (hinTime.now hlater)]
  · rcases Nat.lt_or_ge k outs.length with hlt | hge
    · rw [List.getElem?_append_left hlt] at hk
      rw [hstamps k o' hk, List.take_append_of_le_length hlt.le]
    · rw [List.getElem?_append_right hge] at hk
      obtain ⟨rfl, rfl⟩ : k = outs.length ∧ o = o' := by
        cases hkey : k - outs.length with
        | zero =>
          rw [hkey] at hk
          exact ⟨by omega, Option.some.inj hk⟩
        | succ n =>
          rw [hkey] at hk
          cases hk
      rw [ho, htime, List.take_left]

/-! ## Stamps -/

/-- The stamp of the first buffer, zero if it has none. -/
def firstStamp (ins : List (Buffer N)) : Int :=
  (ins.head?.bind Buffer.stamp).getD 0

/-- The samples of each channel in some buffers. -/
def samples (buffers : List (Buffer N)) : Nat :=
  (buffers.map Buffer.length).sum

/-- The stamps of what a device has emitted. -/
structure Stamped (layout : Layout) (ins outs : List (Buffer N)) (d : Device N) : Prop where
  /-- the clock is set by the first buffer, and not before -/
  isSome_iff : d.nextStamp.isSome ↔ ins ≠ []
  /-- nothing goes out before the clock is set -/
  ins_ne_nil : outs ≠ [] → ins ≠ []
  /-- all that goes out is stamped -/
  isSome_stamp : ∀ o ∈ outs, o.stamp.isSome
  /-- the first stamp is the one of the first buffer that came in -/
  first : ∀ o, outs[0]? = some o → o.stamp = some (firstStamp ins)
  /-- a buffer begins where the one before ends -/
  next : ∀ (k : Nat) (o o' : Buffer N) (time : Int),
    outs[k]? = some o → outs[k + 1]? = some o' → o.stamp = some time →
      o'.stamp = some (time + layout.tick.count o.length layout.rate)
  /-- stamps never decrease -/
  monotone : ∀ (i j : Nat) (o o' : Buffer N) (time time' : Int), i ≤ j →
    outs[i]? = some o → outs[j]? = some o' → o.stamp = some time → o'.stamp = some time' →
      time ≤ time'
  /-- each buffer before adds half a tick to the error at most -/
  drift : ∀ (k : Nat) (o : Buffer N) (time : Int), outs[k]? = some o → o.stamp = some time →
    |(time : ℚ) -
      (firstStamp ins + layout.tick.duration (samples (outs.take k)) layout.rate)| ≤ k / 2
  /-- with a tick for each sample there is no error -/
  exact : layout.rate * layout.tick.num = layout.tick.den →
    ∀ (k : Nat) (o : Buffer N) (time : Int), outs[k]? = some o → o.stamp = some time →
      (time : ℚ) = firstStamp ins + layout.tick.duration (samples (outs.take k)) layout.rate

/-- A stamp is the first one and the ticks of what went out before, each buffer rounded on its
own. -/
theorem Clocked.time_eq (h : Clocked layout ins outs d) {k : Nat} {o : Buffer N} {time : Int}
    (hk : outs[k]? = some o) (htime : o.stamp = some time) :
    time = firstStamp ins +
      layout.tick.elapsed layout.rate ((outs.take k).map Buffer.length) := by
  cases ins with
  | nil => exact absurd rfl (h.ins_ne_nil hk)
  | cons first rest =>
    have hclock := h.stamp_eq k o hk
    rw [htime] at hclock
    exact Option.some.inj hclock

/-- The clock of a device settles all its stamps, the first, the next ones, and their distance
from exact time. -/
theorem Stamped.of_clocked (h : Clocked layout ins outs d) (htick : layout.tick.isValid = true)
    (hrate : 0 < layout.rate) (hfits : ∀ o ∈ outs, layout.tick.Fits layout.rate o.length) :
    Stamped layout ins outs d := by
  have hins : outs ≠ [] → ins ≠ [] := fun hne hnil => hne (h.outs_eq_nil hnil)
  have hstamp : ∀ (k : Nat) (o : Buffer N), outs[k]? = some o → o.stamp.isSome := by
    intro k o hk
    rw [h.stamp_eq k o hk]
    cases ins with
    | nil => exact absurd rfl (h.ins_ne_nil hk)
    | cons first rest => rfl
  have hlengths : ∀ buffers : List (Buffer N), (∀ o ∈ buffers, o ∈ outs) →
      ∀ length ∈ buffers.map Buffer.length, layout.tick.Fits layout.rate length := by
    intro buffers hsub length hlength
    obtain ⟨o, ho, rfl⟩ := List.mem_map.mp hlength
    exact hfits o (hsub o ho)
  refine ⟨?_, hins, ?_, ?_, ?_, ?_, ?_, ?_⟩
  · rw [h.nextStamp_eq]
    cases ins with
    | nil => simp [clock]
    | cons first rest => simp [clock]
  · intro o ho
    obtain ⟨k, hk⟩ := List.getElem?_of_mem ho
    exact hstamp k o hk
  · intro o ho
    obtain ⟨time, htime⟩ := Option.isSome_iff_exists.mp (hstamp 0 o ho)
    rw [htime, h.time_eq ho htime, List.take_zero, List.map_nil]
    simp [Tick.elapsed]
  · intro k o o' time hk hk' htime
    obtain ⟨time', htime'⟩ := Option.isSome_iff_exists.mp (hstamp (k + 1) o' hk')
    have hmore : outs.take (k + 1) = outs.take k ++ [o] := by
      rw [List.take_add_one, hk, Option.toList_some]
    rw [htime', h.time_eq hk' htime', h.time_eq hk htime, hmore, List.map_append,
      Tick.elapsed_append, List.map_singleton, Tick.elapsed_singleton, Int.add_assoc]
  · intro i j o o' time time' hle hi hj htime htime'
    have hmore : outs.take j = outs.take i ++ (outs.drop i).take (j - i) := by
      rw [← List.take_add, Nat.add_sub_cancel' hle]
    -- what went out in between did not move the clock back
    have hnonneg := Tick.elapsed_nonneg htick hrate
      (hlengths ((outs.drop i).take (j - i)) fun o ho =>
        List.mem_of_mem_drop (List.mem_of_mem_take ho))
    rw [h.time_eq hi htime, h.time_eq hj htime', hmore, List.map_append, Tick.elapsed_append]
    omega
  · intro k o time hk htime
    have hlt : k < outs.length := (List.getElem?_eq_some_iff.mp hk).1
    have hdrift := Tick.abs_elapsed_sub_duration htick hrate
      (hlengths (outs.take k) fun o ho => List.mem_of_mem_take ho)
    rw [List.length_map, List.length_take, Nat.min_eq_left hlt.le] at hdrift
    rw [h.time_eq hk htime, Int.cast_add, add_sub_add_left_eq_sub]
    exact hdrift
  · intro hone k o time hk htime
    rw [h.time_eq hk htime, Tick.elapsed_eq_sum htick hrate
      (hlengths (outs.take k) fun o ho => List.mem_of_mem_take ho) hone,
      Tick.duration_eq_samples htick hone, Int.cast_add]
    rfl

/-! ## Runs -/

variable [NarrowArithmetic N] {start : Device N} {b : Buffer N} {out : Option (Buffer N)}

theorem Clocked.process (h : Clocked layout ins outs d) {queue : Nat → List N}
    (hholds : d.Holds queue) (hlayout : d.layout = layout) (hdelay : 0 < d.latency)
    (hb : d.process b = (.ok out, d')) (hinTime : InTime layout (ins ++ [b]) (outs ++ out.toList)) :
    Clocked layout (ins ++ [b]) (outs ++ out.toList) d' := by
  obtain ⟨-, hprocessed⟩ := hholds.processed hb
  obtain ⟨hnone, hsome⟩ := hprocessed.delayed_stamp hdelay
  have hset := h.set b
  have hins : ins ++ [b] ≠ [] := List.append_ne_nil_of_right_ne_nil _ (List.cons_ne_nil _ _)
  -- whatever went out before saw the clock that was set before
  have hstamps : ∀ (k : Nat) (o : Buffer N), outs[k]? = some o →
      o.stamp = clock layout (ins ++ [b]) (outs.take k) := by
    intro k o hk
    rw [h.stamp_eq k o hk, clock_append_ins (h.ins_ne_nil hk)]
  cases out with
  | none =>
    rw [Option.toList_none, List.append_nil]
    exact ⟨fun hnil => absurd hnil hins, (hnone rfl).trans hset, hstamps⟩
  | some o =>
    obtain ⟨ho, hnext⟩ := hsome o rfl
    have hlength := (hprocessed.hasShape o rfl).length_eq hholds.channels_pos
    refine Clocked.emit hstamps hins hset ho ?_ hinTime
    rw [hnext, hlength, hlayout]

theorem Clocked.drain (h : Clocked layout ins outs d) {queue : Nat → List N}
    (hholds : d.Holds queue) (hlayout : d.layout = layout) (hidle : ins = [] → d.pending = 0)
    (hd : d.drain = .ok (out, d')) (hinTime : InTime layout ins (outs ++ out.toList)) :
    Clocked layout ins (outs ++ out.toList) d' := by
  have hdrained := hholds.of_drain hd
  cases out with
  | none =>
    obtain ⟨-, rfl⟩ := hdrained.eq_of_none rfl
    rw [Option.toList_none, List.append_nil]
    exact h
  | some o =>
    obtain ⟨ho, hnext⟩ := hdrained.stamp o rfl
    have hlength := (hdrained.hasShape o rfl).length_eq hholds.channels_pos
    -- something was held, so something has come in and set the clock
    have hins : ins ≠ [] := fun hnil => (hdrained.draining_eq o rfl).1.ne' (hidle hnil)
    have htime : some (d.nextStamp.getD 0) = clock layout ins outs := by
      rw [h.nextStamp_eq]
      cases ins with
      | nil => exact absurd rfl hins
      | cons first ins => rfl
    refine Clocked.emit h.stamp_eq hins htime ho ?_ hinTime
    rw [hnext, hlength, hlayout]

/-- **The clock of a run.** Whatever the calls, a device that was new at first has stamped
each buffer by its clock, as long as the clock stays within the words. -/
theorem Run.clocked (h : Run start ins outs d) (hnew : start.Holds fun _ => [])
    (hclock : start.nextStamp = none) (hdelay : 0 < start.latency)
    (hinTime : InTime start.layout ins outs) : Clocked start.layout ins outs d := by
  induction h with
  | new => exact .new hclock
  | process hrun hb ih =>
    obtain ⟨drained, hstands⟩ := hrun.stands hnew
    exact (ih hinTime.of_append).process hstands.holds hstands.layout_eq
      (hstands.latency_eq.symm ▸ hdelay) hb hinTime
  | refuse hrun hb ih =>
    obtain ⟨drained, hstands⟩ := hrun.stands hnew
    obtain ⟨-, rfl⟩ := hstands.holds.refused hb
    exact ih hinTime
  | @drain ins outs d d' out hrun hd ih =>
    obtain ⟨drained, hstands⟩ := hrun.stands hnew
    have hbefore : InTime start.layout ins outs := by
      rw [← List.append_nil ins] at hinTime
      exact hinTime.of_append
    refine (ih hbefore).drain hstands.holds hstands.layout_eq (fun hnil => ?_) hd hinTime
    subst hnil
    exact hstands.pending_eq_zero

/-- **The stamps of a run.** Whatever the calls on a new device with a lookahead, what it
emits is stamped by a clock that starts with the first buffer and that is never off by more
than half a tick for each buffer emitted before. Neither the clock nor a count of ticks may leave
the range of its word on the way. -/
theorem Run.stamped [Memory] [Precision Float N] {p : Parameters}
    (hnew : setUp p layout = .ok start)
    (hdelay : 0 < start.latency) (h : Run start ins outs d)
    (hfits : ∀ o ∈ outs, layout.tick.Fits layout.rate o.length)
    (hinTime : InTime layout ins outs) : Stamped layout ins outs d := by
  have hstart := isNew_of_setUp hnew
  obtain ⟨-, hrate, htick⟩ := of_layout_check hstart.layout_checked
  have hclocked := h.clocked hstart.holds hstart.nextStamp_eq hdelay
    (hstart.layout_eq.symm ▸ hinTime)
  rw [hstart.layout_eq] at hclocked
  exact .of_clocked hclocked htick hrate hfits

/-- An empty buffer sets the clock, and what a lookahead of two lets out of the next one is
stamped in thirds of a second. -/
theorem stamped_after_empty_buffer :
    ∃ start d : Device, ∃ outs : List (Buffer Float32),
      setUp { attacks := [0.0], decays := [0.0], delay := 0.25 } ⟨1, 8, ⟨1, 3⟩⟩ = .ok start ∧
      0 < start.latency ∧
      Run start [⟨[[]], some 7⟩, ⟨[[0.5, 0.25, -1.0]], none⟩] outs d ∧
      outs.map Buffer.length = [1] ∧
      InTime ⟨1, 8, ⟨1, 3⟩⟩ [⟨[[]], some 7⟩, ⟨[[0.5, 0.25, -1.0]], none⟩] outs ∧
      Stamped ⟨1, 8, ⟨1, 3⟩⟩ [⟨[[]], some 7⟩, ⟨[[0.5, 0.25, -1.0]], none⟩] outs d := by
  have hlengths : ((setUp (N := Float32)
      { attacks := [0.0], decays := [0.0], delay := 0.25 } ⟨1, 8, ⟨1, 3⟩⟩).toOption.bind fun d =>
        ((Device.processAll [⟨[[]], some 7⟩, ⟨[[0.5, 0.25, -1.0]], none⟩] d).toOption.map
          fun result => result.1.map Buffer.length)) = some [1] := by
    decide +kernel
  obtain ⟨start, hstart, hlengths⟩ := Option.bind_eq_some_iff.mp hlengths
  obtain ⟨⟨outs, d⟩, hall, hlengths⟩ := Option.map_eq_some_iff.mp hlengths
  have hnew := eq_ok_of_toOption hstart
  have hdelay : 0 < start.latency := by
    rw [(isNew_of_setUp hnew).latency_eq]
    decide +kernel
  have hrun := Run.new.processAll (eq_ok_of_toOption hall)
  have hfits : ∀ o ∈ outs, Tick.Fits ⟨1, 3⟩ 8 o.length := by
    intro o ho
    have hone : o.length ∈ outs.map Buffer.length := List.mem_map_of_mem ho
    rw [hlengths, List.mem_singleton] at hone
    rw [hone]
    decide
  have hinTime :
      InTime ⟨1, 8, ⟨1, 3⟩⟩ [⟨[[]], some 7⟩, ⟨[[0.5, 0.25, -1.0]], none⟩] outs := by
    intro k hk time htime
    have hone : outs.length = 1 := by rw [← List.length_map (f := Buffer.length), hlengths]; rfl
    rw [clock, List.map_take, hlengths] at htime
    obtain rfl := Option.some.inj htime
    rw [hone] at hk
    rcases Nat.le_one_iff_eq_zero_or_eq_one.mp hk with rfl | rfl
    · decide
    · decide
  exact ⟨start, d, outs, hnew, hdelay, hrun, hlengths, hinTime,
    hrun.stamped hnew hdelay hfits hinTime⟩

end Compander.Device
