import Compander.Proofs.Lookahead.Queue
import Mathlib.Logic.Function.Basic

/-!
# A lookahead as bounded queues

Whoever uses a lookahead works on it in rounds. In a round every channel gets equally many
samples, a portion at a time and each from its own working cursor; then the cursor that one of
them has come to is committed. Between the rounds the oldest samples may be forgotten. However
such calls follow each other, the lookahead answers like one queue of bounded length for each
channel.

* `Fifo` — what the calls do to the queues: a sample that goes into a full queue takes the place
  of the oldest, which comes out;
* `Lookahead.Call`, `Lookahead.callAll` — the calls on a lookahead;
* `Lookahead.Holds.feedAll` — what a round does before its cursor is committed;
* `Lookahead.Holds.call` — what one call does;
* `Lookahead.callAll_eq_fifo` — any calls on a new lookahead are those on empty queues.

The queues know nothing of places and cursors, and the order in which the channels get their
portions does not matter to the cursor that is committed: each cursor has come equally far.
-/

namespace Compander

variable {α : Type}

/-- Samples for one channel. -/
structure Portion (α : Type) where
  /-- the channel -/
  channel : Nat
  /-- the samples -/
  samples : List α
  deriving Repr

namespace Portion

/-- All samples that a channel gets. -/
def track (portions : List (Portion α)) (channel : Nat) : List α :=
  portions.flatMap fun p => if p.channel = channel then p.samples else []

/-- All samples that come out of a channel, where `outs` is what comes out for the samples of
each portion. -/
def emitted (portions : List (Portion α)) (outs : List (List (Option α))) (channel : Nat) :
    List α :=
  (portions.zip outs).flatMap fun (p, outs) => if p.channel = channel then outs.filterMap id else []

theorem track_cons (p : Portion α) (rest : List (Portion α)) (channel : Nat) :
    track (p :: rest) channel =
      (if p.channel = channel then p.samples else []) ++ track rest channel :=
  List.flatMap_cons

theorem emitted_cons (p : Portion α) (rest : List (Portion α)) (outs : List (Option α))
    (more : List (List (Option α))) (channel : Nat) :
    emitted (p :: rest) (outs :: more) channel =
      (if p.channel = channel then outs.filterMap id else []) ++ emitted rest more channel :=
  List.flatMap_cons

end Portion

/-- A call on a lookahead. -/
inductive Lookahead.Call (α : Type) where
  /-- portions for the channels, and the channel whose cursor is committed -/
  | round (portions : List (Portion α)) (last : Nat)
  /-- the oldest samples are forgotten -/
  | consume (count : Nat)
  deriving Repr

/-- Only channels that there are take part in a round, all of them get equally many samples, and
the cursor of one of them is committed. -/
def Lookahead.Call.IsEven (channels : Nat) : Call α → Prop
  | .round portions last =>
    (∀ p ∈ portions, p.channel < channels) ∧ (0 < channels → last < channels) ∧
      ∃ length, ∀ channel < channels, (Portion.track portions channel).length = length
  | .consume _ => True

/-! ## Queues of bounded length -/

namespace Fifo

/-- A sample goes into a queue. The oldest one comes out if the queue is full. -/
def exchange (capacity : Nat) (queue : List α) (sample : α) : Option α × List α :=
  if queue.length = capacity then (queue.head?, queue.tail ++ [sample])
  else (none, queue ++ [sample])

/-- Samples one after another. -/
def exchangeAll (capacity : Nat) : List α → List α → List (Option α) × List α
  | queue, [] => ([], queue)
  | queue, sample :: rest =>
    let (out, queue) := exchange capacity queue sample
    let (outs, queue) := exchangeAll capacity queue rest
    (out :: outs, queue)

/-- Portions one after another, each into the queue of its channel. -/
def feedAll (capacity : Nat) :
    List (Portion α) → (Nat → List α) → List (List (Option α)) × (Nat → List α)
  | [], queue => ([], queue)
  | p :: rest, queue =>
    let (outs, held) := exchangeAll capacity (queue p.channel) p.samples
    let (more, queue) := feedAll capacity rest (Function.update queue p.channel held)
    (outs :: more, queue)

/-- What a call does to the queues, and what comes out. -/
def call (capacity : Nat) (queue : Nat → List α) :
    Lookahead.Call α → List (List (Option α)) × (Nat → List α)
  | .round portions _ => feedAll capacity portions queue
  | .consume count => ([], fun channel => (queue channel).drop count)

/-- Calls one after another. -/
def callAll (capacity : Nat) : List (Lookahead.Call α) → (Nat → List α) →
    List (List (List (Option α))) × (Nat → List α)
  | [], queue => ([], queue)
  | c :: rest, queue =>
    let (outs, queue) := call capacity queue c
    let (more, queue) := callAll capacity rest queue
    (outs :: more, queue)

variable {capacity channel : Nat} {queue : List α}

theorem length_exchange (h : queue.length ≤ capacity) (hpos : 0 < capacity) (sample : α) :
    (exchange capacity queue sample).2.length = min (queue.length + 1) capacity := by
  rw [exchange]
  split
  · simp only [List.length_append, List.length_tail, List.length_singleton]
    omega
  · simp only [List.length_append, List.length_singleton]
    omega

/-- A full queue has an oldest sample to give, and any other takes the sample in without
giving one. -/
theorem exchange_cases (hpos : 0 < capacity) (queue : List α) (sample : α) :
    (queue.length = capacity ∧ ∃ oldest rest, queue = oldest :: rest ∧
        exchange capacity queue sample = (some oldest, rest ++ [sample])) ∨
      (queue.length ≠ capacity ∧ exchange capacity queue sample = (none, queue ++ [sample])) := by
  by_cases hfull : queue.length = capacity
  · cases queue with
    | nil => exact absurd hfull (Nat.ne_of_lt hpos)
    | cons oldest rest => exact .inl ⟨hfull, oldest, rest, rfl, if_pos hfull⟩
  · exact .inr ⟨hfull, if_neg hfull⟩

/-- How many samples a queue gives for those that go in, and how many it then holds. -/
theorem length_exchangeAll (h : queue.length ≤ capacity) (hpos : 0 < capacity)
    (samples : List α) :
    ((exchangeAll capacity queue samples).1.filterMap id).length =
        queue.length + samples.length - capacity ∧
      (exchangeAll capacity queue samples).2.length =
        min (queue.length + samples.length) capacity := by
  induction samples generalizing queue with
  | nil =>
    simp only [exchangeAll, List.filterMap_nil, List.length_nil]
    omega
  | cons sample rest ih =>
    have hlength := length_exchange h hpos sample
    have hroom : (exchange capacity queue sample).2.length ≤ capacity := by omega
    obtain ⟨hout, hheld⟩ := ih hroom
    simp only [exchangeAll, List.length_cons]
    refine ⟨?_, by omega⟩
    rcases exchange_cases hpos queue sample with ⟨hfull, oldest, held, -, hexchange⟩ |
      ⟨hfill, hexchange⟩
    · rw [List.filterMap_cons_some (b := oldest) (by rw [hexchange]; rfl), List.length_cons, hout]
      omega
    · rw [List.filterMap_cons_none (by rw [hexchange]; rfl), hout]
      omega

/-- A channel gives as many samples in a round as it gets beyond the room that it has. -/
theorem length_emitted (hpos : 0 < capacity) {portions : List (Portion α)} {queue : Nat → List α}
    (h : (queue channel).length ≤ capacity) :
    (Portion.emitted portions (feedAll capacity portions queue).1 channel).length =
      (queue channel).length + (Portion.track portions channel).length - capacity := by
  induction portions generalizing queue with
  | nil =>
    simp only [Portion.emitted, Portion.track, List.zip_nil_left, List.flatMap_nil,
      List.length_nil]
    omega
  | cons p rest ih =>
    rw [feedAll, Portion.emitted_cons, Portion.track_cons, List.length_append, List.length_append]
    by_cases hp : p.channel = channel
    · subst hp
      obtain ⟨hout, hheld⟩ := length_exchangeAll h hpos p.samples
      have hlater : (Function.update queue p.channel
          (exchangeAll capacity (queue p.channel) p.samples).2 p.channel).length ≤ capacity := by
        rw [Function.update_self]
        omega
      have hrest := ih hlater
      rw [Function.update_self, hheld] at hrest
      rw [if_pos rfl, if_pos rfl, hrest, hout]
      omega
    · -- the portion is not for this channel
      have hsame := Function.update_of_ne (Ne.symm hp)
        (exchangeAll capacity (queue p.channel) p.samples).2 queue
      have hrest := ih (hsame.symm ▸ h)
      rw [if_neg hp, if_neg hp, hrest, hsame, List.length_nil, Nat.zero_add, Nat.zero_add]

end Fifo

/-! ## One channel -/

theorem Cursor.advance_add (capacity : Nat) (count more : Nat) (c : Cursor) :
    c.advance capacity (count + more) = (c.advance capacity count).advance capacity more := by
  induction count generalizing c with
  | zero => rw [Nat.zero_add, Cursor.advance]
  | succ count ih => rw [Nat.succ_add, Cursor.advance, ih, Cursor.advance]

namespace Ring

variable {capacity : Nat} {ring : Ring α} {c : Cursor} {queue : List α}

/-- A ring that holds a queue exchanges a sample as the queue does, and holds the new queue
afterwards. -/
theorem Holds.exchange (h : Holds capacity ring c queue) (sample : α) :
    ∃ ring', Ring.exchange capacity ring c sample =
        (.ok (Fifo.exchange capacity queue sample).1, ring', c.next capacity) ∧
      Holds capacity ring' (c.next capacity) (Fifo.exchange capacity queue sample).2 := by
  have hpos : 0 < capacity := Nat.zero_lt_of_lt h.fits.writeIndex_lt
  have hlength := h.length_eq
  rcases Fifo.exchange_cases hpos queue sample with ⟨hfull, oldest, rest, rfl, hexchange⟩ |
    ⟨hfill, hexchange⟩
  · rw [hexchange]
    exact h.exchange_of_full (hlength.symm.trans hfull) sample
  · rw [hexchange]
    exact h.exchange_of_lt (Nat.lt_of_le_of_ne h.fits.filled_le (hlength ▸ hfill)) sample

/-- A ring that holds a queue exchanges a run of samples as the queue does. -/
theorem Holds.exchangeAll (h : Holds capacity ring c queue) (samples : List α) :
    ∃ ring', Ring.feed capacity ring c samples =
        (.ok (Fifo.exchangeAll capacity queue samples).1, ring',
          c.advance capacity samples.length) ∧
      Holds capacity ring' (c.advance capacity samples.length)
        (Fifo.exchangeAll capacity queue samples).2 := by
  induction samples generalizing ring c queue with
  | nil => exact ⟨ring, rfl, h⟩
  | cons sample rest ih =>
    obtain ⟨ring₁, hexchange, hheld⟩ := h.exchange sample
    obtain ⟨ring', hfeed, hrest⟩ := ih hheld
    refine ⟨ring', ?_, hrest⟩
    simp only [Ring.feed, hexchange, hfeed, Except.map, Fifo.exchangeAll, List.length_cons,
      Cursor.advance]

end Ring

/-! ## All channels -/

namespace Lookahead

/-- Portions one after another, each at the working cursor of its channel: what comes out for
each, and where that leaves the cursors and the lookahead. -/
def feedAll : List (Portion α) → (Nat → Cursor) → Lookahead α →
    Except Fault (List (List (Option α)) × (Nat → Cursor) × Lookahead α)
  | [], cursor, l => .ok ([], cursor, l)
  | p :: rest, cursor, l =>
    match l.feed p.channel (cursor p.channel) p.samples with
    | (.error fault, _, _) => .error fault
    | (.ok outs, l, after) => do
      let (more, cursor, l) ← feedAll rest (Function.update cursor p.channel after) l
      return (outs :: more, cursor, l)

/-- One call: what comes out for each portion, and the lookahead after the call. -/
def call (l : Lookahead α) : Call α → Except Fault (List (List (Option α)) × Lookahead α)
  | .round portions last => do
    let (outs, cursor, l) ← feedAll portions (fun _ => l.cursor) l
    let l ← l.commit (cursor last)
    return (outs, l)
  | .consume count => .ok ([], l.consume count)

/-- Calls one after another, until one meets a fault. -/
def callAll : List (Call α) → Lookahead α →
    Except Fault (List (List (List (Option α))) × Lookahead α)
  | [], l => .ok ([], l)
  | c :: rest, l => do
    let (outs, l) ← l.call c
    let (more, l) ← callAll rest l
    return (outs :: more, l)

variable {l : Lookahead α} {queue : Nat → List α} {channel : Nat}

/-- A round under way: each ring holds a queue under the cursor that its channel has come to. -/
def Underway (l : Lookahead α) (cursor : Nat → Cursor) (queue : Nat → List α) : Prop :=
  ∀ channel (h : channel < l.rings.size),
    Ring.Holds l.capacity l.rings[channel] (cursor channel) (queue channel)

/-- A portion for a channel moves its queue and its cursor, and leaves the others alone. -/
theorem Underway.feed {cursor : Nat → Cursor} (h : l.Underway cursor queue) {p : Portion α}
    (hp : p.channel < l.rings.size) :
    ∃ rings, l.feed p.channel (cursor p.channel) p.samples =
        (.ok (Fifo.exchangeAll l.capacity (queue p.channel) p.samples).1, { l with rings },
          (cursor p.channel).advance l.capacity p.samples.length) ∧
      rings.size = l.rings.size ∧
      Underway { l with rings }
        (Function.update cursor p.channel
          ((cursor p.channel).advance l.capacity p.samples.length))
        (Function.update queue p.channel
          (Fifo.exchangeAll l.capacity (queue p.channel) p.samples).2) := by
  obtain ⟨ring, hfeed, hring⟩ := (h p.channel hp).exchangeAll p.samples
  refine ⟨l.rings.set p.channel ring hp, ?_, Array.size_set hp, fun other hother => ?_⟩
  · rw [feed_eq hp, hfeed]
  · rw [Array.size_set] at hother
    by_cases hsame : other = p.channel
    · subst hsame
      simp only [Array.getElem_set_self, Function.update_self]
      exact hring
    · simp only [Array.getElem_set_ne hp hother (Ne.symm hsame), Function.update_of_ne hsame]
      exact h other hother

/-- **A round under way.** No portion meets a fault, what comes out is what comes out of the
queues, and every cursor moves as far as its channel got samples. -/
theorem Underway.feedAll {portions : List (Portion α)} {cursor : Nat → Cursor}
    (h : l.Underway cursor queue) (hp : ∀ p ∈ portions, p.channel < l.rings.size) :
    ∃ rings cursor', Lookahead.feedAll portions cursor l =
        .ok ((Fifo.feedAll l.capacity portions queue).1, cursor', { l with rings }) ∧
      rings.size = l.rings.size ∧
      Underway { l with rings } cursor' (Fifo.feedAll l.capacity portions queue).2 ∧
      ∀ channel, cursor' channel =
        (cursor channel).advance l.capacity (Portion.track portions channel).length := by
  induction portions generalizing l cursor queue with
  | nil => exact ⟨l.rings, cursor, rfl, rfl, h, fun _ => rfl⟩
  | cons p rest ih =>
    obtain ⟨rings₁, hfeed, hsize, hafter⟩ := h.feed (hp p (List.mem_cons_self ..))
    obtain ⟨rings, cursor', hrest, hsize', hunderway, hcursor⟩ := ih hafter
      (fun q hq => hsize ▸ hp q (List.mem_cons_of_mem _ hq))
    refine ⟨rings, cursor', ?_, hsize'.trans hsize, hunderway, fun channel => ?_⟩
    · rw [Lookahead.feedAll, hfeed]
      simp only [hrest, bind, Except.bind, pure, Except.pure, Fifo.feedAll]
    · rw [hcursor channel, Portion.track_cons, List.length_append, Cursor.advance_add]
      by_cases hsame : p.channel = channel
      · subst hsame
        rw [Function.update_self, if_pos rfl]
      · rw [Function.update_of_ne (Ne.symm hsame), if_neg hsame]
        rfl

/-- **One call.** It meets no fault, what comes out is what comes out of the queues, and the
lookahead holds what they hold. -/
theorem Holds.call (h : l.Holds queue) {c : Call α} (hc : c.IsEven l.channels) :
    ∃ l', l.call c = .ok ((Fifo.call l.capacity queue c).1, l') ∧
      l'.Holds (Fifo.call l.capacity queue c).2 ∧
      l'.capacity = l.capacity ∧ l'.channels = l.channels := by
  cases c with
  | consume count => exact ⟨l.consume count, rfl, h.consume count, rfl, rfl⟩
  | round portions last =>
    obtain ⟨hportions, hlast, length, hlength⟩ := hc
    have hstart : l.Underway (fun _ => l.cursor) queue := h.ring
    obtain ⟨rings, cursor, hfeed, hsize, hunderway, hcursor⟩ := hstart.feedAll hportions
    have hfits : (cursor last).Fits l.capacity := hcursor last ▸ h.fits.advance _
    -- every channel has come as far as the one whose cursor is committed
    have hsame : ∀ channel < l.channels, cursor channel = cursor last := fun channel hchannel => by
      rw [hcursor channel, hcursor last, hlength channel hchannel,
        hlength last (hlast (Nat.zero_lt_of_lt hchannel))]
    refine ⟨{ l with rings, cursor := cursor last }, ?_, ⟨hfits, fun channel hchannel => ?_⟩,
      rfl, hsize⟩
    · simp only [Lookahead.call, hfeed, bind, Except.bind, pure, Except.pure, Fifo.call,
        commit_of_fits (l := { l with rings }) hfits]
    · have hring := hunderway channel hchannel
      rw [hsame channel (Nat.lt_of_lt_of_eq hchannel hsize)] at hring
      exact hring

/-- **Any calls** are those on the queues, as long as each round gives all channels equally
many samples. The induction is on the calls. -/
theorem Holds.callAll (h : l.Holds queue) {calls : List (Call α)}
    (hcalls : ∀ c ∈ calls, c.IsEven l.channels) :
    ∃ l', Lookahead.callAll calls l = .ok ((Fifo.callAll l.capacity calls queue).1, l') ∧
      l'.Holds (Fifo.callAll l.capacity calls queue).2 ∧
      l'.capacity = l.capacity ∧ l'.channels = l.channels := by
  induction calls generalizing l queue with
  | nil => exact ⟨l, rfl, h, rfl, rfl⟩
  | cons c rest ih =>
    obtain ⟨l₁, hcall, hholds, hcapacity, hchannels⟩ := h.call (hcalls c (List.mem_cons_self ..))
    obtain ⟨l', hrest, hholds', hcapacity', hchannels'⟩ := ih hholds
      (fun c hc => hchannels ▸ hcalls c (List.mem_cons_of_mem _ hc))
    rw [hcapacity] at hrest hholds'
    refine ⟨l', ?_, hholds', hcapacity'.trans hcapacity, hchannels'.trans hchannels⟩
    simp only [Lookahead.callAll, hcall, hrest, bind, Except.bind, pure, Except.pure,
      Fifo.callAll]

/-- A channel lists its queue, oldest sample first, and changes nothing by it. -/
theorem Holds.pending (h : l.Holds queue) (hc : channel < l.channels) :
    l.pending channel = .ok (queue channel) := by
  rw [Lookahead.pending, h.oldest hc]
  exact congrArg _ (List.take_of_length_le (Nat.le_of_eq (h.length_eq hc)))

/-- **A lookahead is a queue for each channel.** Any calls on a new lookahead meet no fault and
answer as queues of at most `capacity` samples do that were empty at first: for each sample that
goes in the oldest one comes out if the queue is full, and none if not. After the calls each
channel lists its queue, oldest sample first, and all queues are as long as the lookahead counts.
A further round, whatever it is, gets from each channel as many samples as were announced for its
length. -/
theorem callAll_eq_fifo [Memory] {silence : α} {channels capacity : Nat} {start : Lookahead α}
    (hnew : create silence channels capacity = .ok start) {calls : List (Call α)}
    (hcalls : ∀ c ∈ calls, c.IsEven channels) :
    ∃ answers l queue, callAll calls start = .ok (answers, l) ∧
      Fifo.callAll capacity calls (fun _ => []) = (answers, queue) ∧
      l.channels = channels ∧ l.capacity = capacity ∧ l.filled ≤ capacity ∧
      (∀ channel < channels,
        l.pending channel = .ok (queue channel) ∧ (queue channel).length = l.filled) ∧
      ∀ portions last, (Call.round portions last).IsEven channels →
        ∃ outs l', l.call (.round portions last) = .ok (outs, l') ∧
          ∀ channel < channels, (Portion.emitted portions outs channel).length =
            l.emittedFor (Portion.track portions channel).length := by
  obtain ⟨hempty, rfl, rfl⟩ := holds_of_create hnew
  obtain ⟨l, hall, hholds, hcapacity, hchannels⟩ := hempty.callAll hcalls
  refine ⟨_, l, _, hall, rfl, hchannels, hcapacity, hcapacity ▸ hholds.fits.filled_le,
    fun channel hc => ?_, fun portions last heven => ?_⟩
  · exact ⟨hholds.pending (hchannels ▸ hc), hholds.length_eq (hchannels ▸ hc)⟩
  · obtain ⟨l', hcall, -⟩ := hholds.call (hchannels.symm ▸ heven)
    refine ⟨_, l', hcall, fun channel hc => ?_⟩
    have hle := hholds.fits.filled_le
    have hlength := hholds.length_eq (hchannels ▸ hc)
    rw [Fifo.call, Fifo.length_emitted (Nat.zero_lt_of_lt hholds.fits.writeIndex_lt)
      (hlength ▸ hle), hlength, emittedFor, filled]
    omega

/-- Two channels and a capacity of two. The channels get their portions by turns; one sample is
forgotten, and a round of two brings the queues to overflow. -/
theorem callAll_eq_fifo_of_turns :
    ∃ (start l : Lookahead Nat) (answers : List (List (List (Option Nat)))),
      create 0 2 2 = .ok start ∧
      callAll [.round [⟨0, [1]⟩, ⟨1, [10, 20]⟩, ⟨0, [2]⟩] 1, .consume 1,
        .round [⟨1, [30]⟩, ⟨0, [3, 4]⟩, ⟨1, [40]⟩] 0] start = .ok (answers, l) ∧
      answers = [[[none], [none, none], [none]], [], [[none], [none, some 2], [some 20]]] ∧
      l.pending 0 = .ok [3, 4] ∧ l.pending 1 = .ok [30, 40] := by
  have hnew : create 0 2 2 = .ok ⟨#[#[0, 0], #[0, 0]], 2, .start⟩ := rfl
  have heven : ∀ c ∈ [Call.round [⟨0, [1]⟩, ⟨1, [10, 20]⟩, ⟨0, [2]⟩] 1, .consume 1,
      .round [⟨1, [30]⟩, ⟨0, [3, 4]⟩, ⟨1, [40]⟩] 0], c.IsEven 2 := by
    simp only [List.mem_cons, List.not_mem_nil, or_false, forall_eq_or_imp, forall_eq]
    exact ⟨⟨by decide, fun _ => by decide, 2, by decide⟩, trivial,
      ⟨by decide, fun _ => by decide, 2, by decide⟩⟩
  obtain ⟨answers, l, queue, hall, hfifo, -, -, -, hpending, -⟩ := callAll_eq_fifo hnew heven
  obtain ⟨rfl, rfl⟩ := Prod.mk.inj hfifo
  exact ⟨_, l, _, hnew, hall, rfl, (hpending 0 (by decide)).1, (hpending 1 (by decide)).1⟩

end Lookahead

end Compander
