import Compander.Lookahead

/-!
# A lookahead as queues

Seen from outside, each ring of a lookahead is a queue of at most `capacity`
samples, oldest first:

* `Cursor.place` — where in a ring the `i`-th oldest sample lies;
* `Ring.Holds` — a ring holds a queue;
* `Ring.leaving`, `Ring.staying` — what a full queue loses and keeps when samples
  are put in at its end;
* `Ring.Holds.feed` — a run of samples put into a ring is one put into the queue.

The place of a sample is counted back from the write index, and around the end of
the ring at most once. That makes all the index arithmetic linear.

The cursor is shared by the channels, and while one of them is fed the shared one stays behind.
So `Ring.Holds` takes the cursor as an argument, and only `Lookahead.Holds` is about the one that
has been committed.
-/

namespace Compander

variable {α : Type}

/-! ## Places -/

namespace Cursor

/-- The cursor lies inside a ring of some capacity. -/
structure Fits (capacity : Nat) (c : Cursor) : Prop where
  /-- no more samples than places -/
  filled_le : c.filled ≤ capacity
  /-- the next sample has a place -/
  writeIndex_lt : c.writeIndex < capacity

/-- The place of the `i`-th oldest sample. -/
def place (capacity : Nat) (c : Cursor) (i : Nat) : Nat :=
  if c.filled ≤ c.writeIndex + i then c.writeIndex + i - c.filled
  else c.writeIndex + i + capacity - c.filled

/-- The cursor after a number of samples. -/
def advance (capacity : Nat) : Nat → Cursor → Cursor
  | 0, c => c
  | count + 1, c => advance capacity count (c.next capacity)

variable {capacity i : Nat} {c : Cursor}

theorem Fits.start (h : 0 < capacity) : Cursor.start.Fits capacity :=
  ⟨Nat.zero_le _, h⟩

theorem Fits.next (h : c.Fits capacity) : (c.next capacity).Fits capacity := by
  obtain ⟨hf, hw⟩ := h
  constructor
  · simp only [Cursor.next]
    split <;> omega
  · simp only [Cursor.next]
    split <;> omega

theorem Fits.advance (h : c.Fits capacity) (count : Nat) :
    (c.advance capacity count).Fits capacity := by
  induction count generalizing c with
  | zero => exact h
  | succ count ih => exact ih h.next

theorem filled_next (h : c.Fits capacity) :
    (c.next capacity).filled = min (c.filled + 1) capacity := by
  have := h.filled_le
  simp only [Cursor.next]
  split <;> omega

/-- The same place, with the remainder that wraps it around the end, which is how a lookahead
finds its oldest samples. -/
theorem place_eq_mod (h : c.Fits capacity) (hi : i < c.filled) :
    c.place capacity i = ((c.writeIndex + capacity - c.filled) % capacity + i) % capacity := by
  obtain ⟨hf, hw⟩ := h
  rw [Nat.mod_add_mod]
  simp only [place]
  split
  · rw [show c.writeIndex + capacity - c.filled + i = c.writeIndex + i - c.filled + capacity by
      omega, Nat.add_mod_right, Nat.mod_eq_of_lt (by omega)]
  · rw [Nat.mod_eq_of_lt (by omega)]
    omega

/-- While a ring fills, the samples in it stay where they are, and the new one goes after
them. -/
theorem place_next_of_lt (h : c.Fits capacity) (hlt : c.filled < capacity) (hi : i < c.filled) :
    (c.next capacity).place capacity i = c.place capacity i := by
  obtain ⟨hf, hw⟩ := h
  simp only [place, Cursor.next]
  split <;> split <;> split <;> split <;> omega

/-- A sample that goes into a ring lies at the write index, behind all others. -/
theorem place_next_last (h : c.Fits capacity) (hi : i + 1 = (c.next capacity).filled) :
    (c.next capacity).place capacity i = c.writeIndex := by
  obtain ⟨hf, hw⟩ := h
  simp only [place, Cursor.next] at *
  repeat' split
  all_goals split at hi <;> omega

/-- In a full ring each sample moves up by one when another goes in, the oldest being gone. -/
theorem place_next_of_full (h : c.Fits capacity) (hfull : c.filled = capacity)
    (hi : i + 1 < capacity) :
    (c.next capacity).place capacity i = c.place capacity (i + 1) := by
  obtain ⟨hf, hw⟩ := h
  simp only [place, Cursor.next]
  split <;> split <;> split <;> split <;> omega

/-- The oldest sample of a full ring lies where the next one goes, so an exchange takes out
what it overwrites. -/
theorem place_zero_of_full (h : c.Fits capacity) (hfull : c.filled = capacity) :
    c.place capacity 0 = c.writeIndex := by
  obtain ⟨hf, hw⟩ := h
  simp only [place]
  split <;> omega

theorem place_ne_writeIndex (h : c.Fits capacity) (hi : i < c.filled)
    (hne : c.filled = capacity → i ≠ 0) : c.place capacity i ≠ c.writeIndex := by
  obtain ⟨hf, hw⟩ := h
  simp only [place]
  split <;> omega

/-- Forgetting the oldest samples leaves the others where they are, since no sample is
moved. -/
theorem place_drop (count : Nat) (hc : count ≤ c.filled) :
    place capacity { c with filled := c.filled - count } i = c.place capacity (count + i) := by
  simp only [place]
  split <;> split <;> omega

end Cursor

/-! ## Queues -/

namespace Ring

/-- What a queue of at most `capacity` samples loses at its front once it has
become the list `all`. -/
def leaving (capacity : Nat) (all : List α) : List α :=
  all.take (all.length - capacity)

/-- What a queue of at most `capacity` samples keeps once it has become the list `all`. -/
def staying (capacity : Nat) (all : List α) : List α :=
  all.drop (all.length - capacity)

variable {capacity : Nat}

@[simp] theorem length_leaving (all : List α) :
    (leaving capacity all).length = all.length - capacity := by
  simp only [leaving, List.length_take]
  omega

@[simp] theorem length_staying (all : List α) :
    (staying capacity all).length = min all.length capacity := by
  simp only [staying, List.length_drop]
  omega

theorem leaving_append_staying (all : List α) :
    leaving capacity all ++ staying capacity all = all :=
  List.take_append_drop _ _

/-- What stays after two runs is what stays after both at once, the last samples of all. -/
theorem staying_append (all more : List α) :
    staying capacity (staying capacity all ++ more) = staying capacity (all ++ more) := by
  simp only [staying, List.length_append, List.length_drop]
  have hle : all.length - capacity ≤ all.length := Nat.sub_le _ _
  rw [← List.drop_append_of_le_length hle,
    List.drop_drop]
  congr 1
  omega

/-- What leaves in two runs is what leaves in both at once, in the same order. -/
theorem leaving_append (all more : List α) :
    leaving capacity (all ++ more) =
      leaving capacity all ++ leaving capacity (staying capacity all ++ more) := by
  simp only [leaving, staying, List.length_append, List.length_drop]
  have hle : all.length - capacity ≤ all.length := Nat.sub_le _ _
  rw [← List.drop_append_of_le_length hle,
    ← List.take_append_of_le_length hle,
    ← List.take_add]
  congr 1
  omega

theorem leaving_of_length_le {all : List α} (h : all.length ≤ capacity) :
    leaving capacity all = [] := by
  simp [leaving, Nat.sub_eq_zero_of_le h]

theorem staying_of_length_le {all : List α} (h : all.length ≤ capacity) :
    staying capacity all = all := by
  simp [staying, Nat.sub_eq_zero_of_le h]

/-- A ring under a cursor holds a queue, oldest sample first. -/
structure Holds (capacity : Nat) (ring : Ring α) (c : Cursor) (queue : List α) : Prop where
  /-- the ring has its full size -/
  size_eq : ring.size = capacity
  /-- the cursor lies inside the ring -/
  fits : c.Fits capacity
  /-- the cursor counts the queue -/
  length_eq : queue.length = c.filled
  /-- each sample of the queue is in its place -/
  get : ∀ i (hi : i < queue.length), ring[c.place capacity i]? = some queue[i]

variable {ring : Ring α} {c : Cursor} {queue : List α}

/-- A ring that is not full takes a sample in, at the end of its queue. -/
theorem Holds.exchange_of_lt (h : Holds capacity ring c queue) (hlt : c.filled < capacity)
    (sample : α) :
    ∃ ring', exchange capacity ring c sample = (.ok none, ring', c.next capacity) ∧
      Holds capacity ring' (c.next capacity) (queue ++ [sample]) := by
  have hw : c.writeIndex < ring.size := h.size_eq ▸ h.fits.writeIndex_lt
  have hn : (c.next capacity).filled = c.filled + 1 := by
    rw [Cursor.filled_next h.fits]
    omega
  have hlen := h.length_eq
  refine ⟨ring.set c.writeIndex sample hw, ?_, ?_, h.fits.next, ?_, ?_⟩
  · simp only [exchange, dif_pos hw, if_neg (Nat.ne_of_lt hlt)]
  · rw [Array.size_set, h.size_eq]
  · rw [List.length_append, List.length_singleton, hn, hlen]
  · intro i hi
    rw [List.length_append, List.length_singleton] at hi
    -- no place moves, and only the last one is written to
    by_cases hlast : i < queue.length
    · have hne := Cursor.place_ne_writeIndex h.fits (i := i) (by omega) (by omega)
      rw [Cursor.place_next_of_lt h.fits hlt (by omega),
        Array.getElem?_set_ne hw hne.symm, h.get i hlast, List.getElem_append_left hlast]
    · obtain rfl : i = queue.length := by omega
      rw [Cursor.place_next_last h.fits (by omega), Array.getElem?_set_self hw]
      simp

/-- A full ring gives its oldest sample for the one it takes in, and stays full. -/
theorem Holds.exchange_of_full {oldest : α} (h : Holds capacity ring c (oldest :: queue))
    (hfull : c.filled = capacity) (sample : α) :
    ∃ ring', exchange capacity ring c sample = (.ok (some oldest), ring', c.next capacity) ∧
      Holds capacity ring' (c.next capacity) (queue ++ [sample]) := by
  have hw : c.writeIndex < ring.size := h.size_eq ▸ h.fits.writeIndex_lt
  have hn : (c.next capacity).filled = capacity := by
    rw [Cursor.filled_next h.fits]
    omega
  have hlen : queue.length + 1 = c.filled := h.length_eq
  have hold : ring[c.writeIndex] = oldest := by
    have := h.get 0 (by simp)
    rw [Cursor.place_zero_of_full h.fits hfull, Array.getElem?_eq_getElem hw] at this
    exact Option.some.inj this
  refine ⟨ring.set c.writeIndex sample hw, ?_, ?_, h.fits.next, ?_, ?_⟩
  · simp only [exchange, dif_pos hw, if_pos hfull, hold]
  · rw [Array.size_set, h.size_eq]
  · rw [List.length_append, List.length_singleton, hn]
    omega
  · intro i hi
    rw [List.length_append, List.length_singleton] at hi
    -- every place moves up by one, and the one of the oldest sample becomes the last
    by_cases hlast : i < queue.length
    · have hne := Cursor.place_ne_writeIndex h.fits (i := i + 1) (by omega) (by omega)
      rw [Cursor.place_next_of_full h.fits hfull (by omega),
        Array.getElem?_set_ne hw hne.symm, h.get (i + 1) (by simpa using hlast),
        List.getElem_append_left hlast, List.getElem_cons_succ]
    · obtain rfl : i = queue.length := by omega
      rw [Cursor.place_next_last h.fits (by omega), Array.getElem?_set_self hw]
      simp

/-- **A run of samples.** A ring that holds a queue gives out nothing while it
fills, then the samples that leave the queue, and holds what stays. -/
theorem Holds.feed (h : Holds capacity ring c queue) (samples : List α) :
    ∃ ring', Ring.feed capacity ring c samples =
        (.ok (List.replicate (samples.length - (leaving capacity (queue ++ samples)).length) none
            ++ (leaving capacity (queue ++ samples)).map some),
          ring', c.advance capacity samples.length) ∧
      Holds capacity ring' (c.advance capacity samples.length)
        (staying capacity (queue ++ samples)) := by
  induction samples generalizing ring c queue with
  | nil =>
    have hle : queue.length ≤ capacity := h.length_eq ▸ h.fits.filled_le
    refine ⟨ring, ?_, ?_⟩
    · simp [Ring.feed, leaving_of_length_le hle, Cursor.advance]
    · rw [List.append_nil, staying_of_length_le hle]
      exact h
  | cons sample rest ih =>
    have hlen := h.length_eq
    have hle := h.fits.filled_le
    have hpos : 0 < capacity := Nat.zero_lt_of_lt h.fits.writeIndex_lt
    have hsplit : queue ++ sample :: rest = (queue ++ [sample]) ++ rest := by simp
    rw [hsplit, leaving_append, ← staying_append (queue ++ [sample])]
    rcases Nat.lt_or_ge c.filled capacity with hlt | hge
    · -- the ring is filling: nothing comes out for this sample
      have hone : (queue ++ [sample]).length ≤ capacity := by
        rw [List.length_append, List.length_singleton]
        omega
      obtain ⟨ring₁, hex, h₁⟩ := h.exchange_of_lt hlt sample
      obtain ⟨ring', hfeed, h'⟩ := ih h₁
      rw [leaving_of_length_le hone, staying_of_length_le hone, List.nil_append]
      refine ⟨ring', ?_, h'⟩
      have hfew : (leaving capacity (queue ++ [sample] ++ rest)).length ≤ rest.length := by
        simp only [length_leaving, List.length_append, List.length_singleton]
        omega
      simp only [Ring.feed, hex, hfeed, Except.map, Cursor.advance, List.length_cons]
      rw [Nat.succ_sub hfew, List.replicate_succ, List.cons_append]
    · -- the ring is full: the oldest sample comes out
      cases queue with
      | nil =>
        simp only [List.length_nil] at hlen
        omega
      | cons oldest queue =>
        rw [List.length_cons] at hlen
        obtain ⟨ring₁, hex, h₁⟩ := h.exchange_of_full (by omega) sample
        obtain ⟨ring', hfeed, h'⟩ := ih h₁
        have hleft : leaving capacity (oldest :: queue ++ [sample]) = [oldest] := by
          have : (oldest :: queue ++ [sample]).length - capacity = 1 := by
            simp only [List.length_append, List.length_cons, List.length_nil]
            omega
          rw [leaving, this]
          rfl
        have hstay : staying capacity (oldest :: queue ++ [sample]) = queue ++ [sample] := by
          have hsum : leaving capacity (oldest :: queue ++ [sample]) ++ _ = _ :=
            leaving_append_staying _
          rw [hleft] at hsum
          exact (List.cons.inj hsum).2
        rw [hleft, hstay]
        refine ⟨ring', ?_, h'⟩
        have hall : (leaving capacity (queue ++ [sample] ++ rest)).length = rest.length := by
          simp only [length_leaving, List.length_append, List.length_singleton]
          omega
        simp only [Ring.feed, hex, hfeed, Except.map, Cursor.advance, List.length_cons,
          List.length_append, hall]
        rw [List.length_nil, Nat.zero_add, Nat.add_comm 1, Nat.sub_self, Nat.sub_self]
        rfl

end Ring

/-! ## All channels -/

/-- A selection of the first places of a list that all exist is a first part of it. -/
theorem filterMap_range_eq_take {f : Nat → Option α} {xs : List α} (count : Nat)
    (hf : ∀ i (hi : i < xs.length), i < count → f i = some xs[i]) (hle : count ≤ xs.length) :
    (List.range count).filterMap f = xs.take count := by
  induction count with
  | zero => rfl
  | succ count ih =>
    rw [List.range_succ, List.filterMap_append,
      ih (fun i hi hlt => hf i hi (Nat.lt_succ_of_lt hlt)) (Nat.le_of_succ_le hle),
      List.take_succ_eq_append_getElem (Nat.lt_of_succ_le hle)]
    simp [hf count (Nat.lt_of_succ_le hle) (Nat.lt_succ_self count)]

namespace Lookahead

/-- A lookahead holds a queue for each of its channels. -/
structure Holds (l : Lookahead α) (queue : Nat → List α) : Prop where
  /-- the cursor lies inside the rings -/
  fits : l.cursor.Fits l.capacity
  /-- each ring holds the queue of its channel -/
  ring : ∀ channel (h : channel < l.rings.size),
    Ring.Holds l.capacity l.rings[channel] l.cursor (queue channel)

variable {l : Lookahead α} {queue : Nat → List α} {channel : Nat}

/-- A new lookahead holds nothing, whatever its rings were filled with when they were made. -/
theorem holds_of_create [Memory] {silence : α} {channels capacity : Nat}
    (h : create silence channels capacity = .ok l) :
    l.Holds (fun _ => []) ∧ l.channels = channels ∧ l.capacity = capacity := by
  simp only [create, bind, Except.bind, throw, throwThe, MonadExceptOf.throw, pure,
    Except.pure] at h
  split at h
  · cases h
  · rename_i hcap
    have hfits : Cursor.start.Fits capacity := .start (Nat.pos_of_ne_zero hcap)
    -- room for the table, and then for all rings
    split at h
    · cases h
    · split at h
      · cases h
      · obtain rfl := Except.ok.inj h
        refine ⟨⟨hfits, fun channel hc => ?_⟩, Array.size_ofFn, rfl⟩
        rw [Array.getElem_ofFn]
        exact ⟨Array.size_replicate, hfits, rfl, fun i hi => absurd hi (Nat.not_lt_zero i)⟩

/-- Only the queues of the channels that there are matter; of the others nothing is said. -/
theorem Holds.congr {queue' : Nat → List α} (h : l.Holds queue)
    (heq : ∀ channel < l.channels, queue' channel = queue channel) : l.Holds queue' :=
  ⟨h.fits, fun channel hc => heq channel hc ▸ h.ring channel hc⟩

/-- All channels hold as many samples as the cursor counts, so one number says how full the
lookahead is. -/
theorem Holds.length_eq (h : l.Holds queue) (hc : channel < l.channels) :
    (queue channel).length = l.filled :=
  (h.ring channel hc).length_eq

/-- The oldest samples of a channel are the first of its queue, or all of it if more are asked
for. -/
theorem Holds.oldest (h : l.Holds queue) (hc : channel < l.channels) (count : Nat) :
    l.oldest channel count = .ok ((queue channel).take count) := by
  have hring := h.ring channel hc
  have hlen : (queue channel).length = l.cursor.filled := hring.length_eq
  rw [Lookahead.oldest, Array.getElem?_eq_getElem hc]
  simp only [Except.ok.injEq]
  have hle : min count l.cursor.filled ≤ (queue channel).length := by omega
  rw [filterMap_range_eq_take _ (fun i hi _ => ?_) hle]
  · rw [List.take_eq_take_iff]
    omega
  · rw [← hring.get i hi, Cursor.place_eq_mod h.fits (hlen ▸ hi)]
    rfl

/-- Forgetting samples drops them from the front of every queue at once, by the shared cursor
alone. -/
theorem Holds.consume (h : l.Holds queue) (count : Nat) :
    (l.consume count).Holds fun channel => (queue channel).drop count := by
  have hfits : Cursor.Fits l.capacity { l.cursor with filled := l.cursor.filled - count } :=
    ⟨Nat.le_trans (Nat.sub_le _ _) h.fits.filled_le, h.fits.writeIndex_lt⟩
  refine ⟨hfits, fun channel hc => ?_⟩
  have hring := h.ring channel hc
  refine ⟨hring.size_eq, hfits, ?_, fun i hi => ?_⟩
  · rw [List.length_drop, hring.length_eq]
    rfl
  · rw [List.length_drop, hring.length_eq] at hi
    rw [List.getElem_drop, ← hring.get]
    exact congrArg _ (Cursor.place_drop count (by omega))

/-- A run of samples goes through the ring of its channel alone, and the other rings stay as
they are. -/
theorem feed_eq (hc : channel < l.rings.size) (cursor : Cursor) (samples : List α) :
    l.feed channel cursor samples =
      let (outs, ring, cursor) := Ring.feed l.capacity l.rings[channel] cursor samples
      (outs, { l with rings := l.rings.set channel ring hc }, cursor) := by
  obtain ⟨rings, capacity, committed⟩ := l
  change channel < rings.size at hc
  cases samples with
  | nil => simp [feed, Ring.feed]
  | cons sample rest =>
    -- an empty ring stands in for the one that is being fed, and then makes way for it
    simp only [feed, dif_pos hc, putBack, Array.swapAt]
    rw [Array.setIfInBounds, dif_pos (by rw [Array.size_set]; exact hc), Array.set_set]

/-- A run of samples put into a channel that holds a queue: nothing comes out until the ring
is full, and then the oldest samples do. -/
theorem feed_of_holds {cursor : Cursor} {held : List α} (hc : channel < l.rings.size)
    (h : Ring.Holds l.capacity l.rings[channel] cursor held) (samples : List α) :
    ∃ ring, l.feed channel cursor samples =
        (.ok (List.replicate
              (samples.length - (Ring.leaving l.capacity (held ++ samples)).length) none
            ++ (Ring.leaving l.capacity (held ++ samples)).map some),
          { l with rings := l.rings.set channel ring hc },
          cursor.advance l.capacity samples.length) ∧
      Ring.Holds l.capacity ring (cursor.advance l.capacity samples.length)
        (Ring.staying l.capacity (held ++ samples)) := by
  obtain ⟨ring, hfeed, hring⟩ := h.feed samples
  refine ⟨ring, ?_, hring⟩
  rw [feed_eq hc, hfeed]

/-- A cursor inside the rings can be committed, without a look at the rings themselves. -/
theorem commit_of_fits {cursor : Cursor} (h : cursor.Fits l.capacity) :
    l.commit cursor = .ok { l with cursor } :=
  if_pos ⟨h.filled_le, h.writeIndex_lt⟩

end Lookahead

end Compander
