import Compander.Fault
import Compander.Memory

/-!
# Lookahead

A lookahead holds the last `capacity` samples of every channel, so that the gain
for a sample can be chosen from what follows it. Each channel has a ring of
samples; where the next sample goes and how many samples are held is the same for
all channels, and is kept in one `Cursor`.

A round runs a block through the channels one after another: each starts at the
committed cursor and walks a working cursor forward (`feed`), and the working
cursor of the last one is then committed (`commit`). Until the rings are full,
samples go in and none comes out; from then on each sample that goes in takes the
place of the oldest, which comes out (`Ring.exchange`).
-/

namespace Compander

variable {α : Type}

/-- How many samples every ring holds, and where the next one goes. All channels share it,
since all of them have been given equally many samples. -/
structure Cursor where
  /-- samples held in each ring -/
  filled : Nat
  /-- the place of the next sample; in a full ring, of the oldest -/
  writeIndex : Nat
  deriving DecidableEq, Repr

namespace Cursor

/-- The cursor of an empty lookahead: nothing is held, and the first sample goes to the front
of each ring. -/
def start : Cursor := ⟨0, 0⟩

/-- The cursor after one more sample. The count stops at the capacity, and the place goes
round. -/
def next (capacity : Nat) (c : Cursor) : Cursor where
  filled := if c.filled = capacity then c.filled else c.filled + 1
  writeIndex := if c.writeIndex + 1 = capacity then 0 else c.writeIndex + 1

end Cursor

/-! ## One channel -/

/-- The places of the samples of a channel, among them those that nothing has been put into
yet. -/
abbrev Ring (α : Type) := Array α

namespace Ring

/-- Puts one sample into a ring at a cursor, and takes the oldest one out if the ring
is full, which it is with `capacity` samples. -/
def exchange (capacity : Nat) (ring : Ring α) (cursor : Cursor) (sample : α) :
    Except Fault (Option α) × Ring α × Cursor :=
  if h : cursor.writeIndex < ring.size then
    (.ok (if cursor.filled = capacity then some ring[cursor.writeIndex] else none),
      ring.set cursor.writeIndex sample h, cursor.next capacity)
  else (.error (.outOfBounds ring.size cursor.writeIndex), ring, cursor)

/-- Puts a run of samples into a ring: what came out for each, and where that leaves
the ring and the cursor. A fault leaves them where it arose. -/
def feed (capacity : Nat) (ring : Ring α) (cursor : Cursor) :
    List α → Except Fault (List (Option α)) × Ring α × Cursor
  | [] => (.ok [], ring, cursor)
  | sample :: rest =>
    match exchange capacity ring cursor sample with
    | (.error fault, ring, cursor) => (.error fault, ring, cursor)
    | (.ok out, ring, cursor) =>
      let (outs, ring, cursor) := feed capacity ring cursor rest
      (outs.map (out :: ·), ring, cursor)

end Ring

/-! ## All channels -/

/-- The samples held back on all channels, with the capacity that they share. -/
structure Lookahead (α : Type) where
  /-- one ring of samples for each channel -/
  rings : Array (Ring α)
  /-- how many samples a ring can hold -/
  capacity : Nat
  /-- the committed cursor -/
  cursor : Cursor
  deriving Repr

namespace Lookahead

/-- An empty lookahead, its rings full of `silence`. There has to be room for the table of
rings, and then for the ring of one channel after another. -/
def create [Memory] (silence : α) (channels capacity : Nat) :
    Except SetupError (Lookahead α) := do
  if capacity = 0 then throw .noLookahead
  Storage.rings.reserve channels
  (List.range channels).forM fun channel => (Storage.ring channel).reserve capacity
  return ⟨Array.ofFn fun _ : Fin channels => Array.replicate capacity silence, capacity, .start⟩

/-- The number of channels, each with a ring of its own in the table. -/
def channels (l : Lookahead α) : Nat :=
  l.rings.size

/-- How many samples each channel holds; the committed cursor says so for all of them. -/
def filled (l : Lookahead α) : Nat :=
  l.cursor.filled

/-- Whether each sample that goes in makes one come out, as it does once the rings are full.
-/
def isSteady (l : Lookahead α) : Bool :=
  l.cursor.filled = l.capacity

/-- How many samples come out of a channel when a run of a length goes in. -/
def emittedFor (l : Lookahead α) (length : Nat) : Nat :=
  length - (l.capacity - l.cursor.filled)

/-- The lookahead with a ring put in its place among the others, beside what came out
of the ring and the working cursor. It is not inlined, because the ring would then
still be in the table while it changes, and be copied. -/
@[noinline] def putBack (others : Lookahead α) (channel : Nat) :
    Except Fault (List (Option α)) × Ring α × Cursor →
      Except Fault (List (Option α)) × Lookahead α × Cursor
  | (outs, ring, cursor) =>
    (outs, { others with rings := others.rings.setIfInBounds channel ring }, cursor)

/-- Puts a run of samples into a channel: what came out for each, and where that
leaves the rings and the working cursor. A fault leaves them where it arose. The
ring is out of the table while it changes, so that it changes in place. -/
def feed : Lookahead α → Nat → Cursor → List α →
    Except Fault (List (Option α)) × Lookahead α × Cursor
  | l, _, cursor, [] => (.ok [], l, cursor)
  | ⟨rings, capacity, committed⟩, channel, cursor, samples =>
    if h : channel < rings.size then
      let (ring, others) := rings.swapAt channel #[] h
      putBack ⟨others, capacity, committed⟩ channel (Ring.feed capacity ring cursor samples)
    else (.error (.outOfBounds rings.size channel), ⟨rings, capacity, committed⟩, cursor)

/-- Makes a working cursor the committed one, at the end of a round. A cursor that no ring can
have is at fault. -/
def commit (l : Lookahead α) (cursor : Cursor) : Except Fault (Lookahead α) :=
  if cursor.filled ≤ l.capacity ∧ cursor.writeIndex < l.capacity then
    .ok { l with cursor }
  else .error .strayCursor

/-- The place of the oldest sample: as far behind the next place as there are samples held,
around the end of the ring. -/
def oldestIndex (l : Lookahead α) : Nat :=
  (l.cursor.writeIndex + l.capacity - l.cursor.filled) % l.capacity

/-- The oldest samples that a channel holds, up to a count, oldest first. They stay held;
`consume` is what forgets them. -/
def oldest (l : Lookahead α) (channel count : Nat) : Except Fault (List α) :=
  match l.rings[channel]? with
  | none => .error (.outOfBounds l.rings.size channel)
  | some ring =>
    .ok ((List.range (min count l.cursor.filled)).filterMap fun i =>
      ring[(l.oldestIndex + i) % l.capacity]?)

/-- All the samples that a channel holds, oldest first, as a drain would take them out. -/
def pending (l : Lookahead α) (channel : Nat) : Except Fault (List α) :=
  l.oldest channel l.cursor.filled

/-- Forgets the oldest samples of every channel, all of them if there are no more. The samples
stay in the rings until others take their places; only the count changes. -/
def consume (l : Lookahead α) (count : Nat) : Lookahead α :=
  { l with cursor := { l.cursor with filled := l.cursor.filled - count } }

end Lookahead

end Compander
