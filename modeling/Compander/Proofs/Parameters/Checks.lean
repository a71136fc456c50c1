import Compander.Parameters
import Compander.Proofs.Floating.Double
import Compander.Transfer

/-!
# What the checks ask for

Parameters are checked on their own, points once more when the curve is drawn. Each check is a
chain of refusals, and what passes it is what none of them refuses:

* `Parameters.Accepted`, `Parameters.check_eq_ok_iff` — which parameters are accepted;
* `Parameters.checkFor_eq_ok_iff` — which are for a number of channels;
* `Point.check_eq_ok_iff` — which points can be drawn: those in order that are finite;
* `Transfer.draw_iff` — which curves are drawn, in any arithmetic;
* `Limits.Within.isFinite` — a value within the limits of an option is finite.

The order of points is asked for twice in the same words. That points are finite is asked for
when the curve is drawn, and not before.

Every limit is written so that what is not a number fails it. In this way the checks of durations,
knee, gain and volume keep out what is not finite without a word about it, and only points, which
have no limits, could be anything.
-/

namespace Compander

/-! ## Chains of refusals -/

/-- Two steps succeed if the first does, and then the second with what the first has given. -/
theorem bind_eq_ok_iff {ε α β : Type} {outcome : Except ε α} {next : α → Except ε β} {b : β} :
    outcome >>= next = .ok b ↔ ∃ a, outcome = .ok a ∧ next a = .ok b := by
  cases outcome with
  | error error => simp [bind, Except.bind]
  | ok a => simp [bind, Except.bind]

/-- A check is passed, and then what comes after it; a check gives nothing on. -/
theorem check_bind_eq_ok_iff {ε α : Type} {check : Except ε Unit} {next : Unit → Except ε α}
    {a : α} : check >>= next = .ok a ↔ check = .ok () ∧ next () = .ok a := by
  rw [bind_eq_ok_iff]
  exact ⟨fun ⟨(), h⟩ => h, fun h => ⟨(), h⟩⟩

theorem error_bind {ε α β : Type} (error : ε) (next : α → Except ε β) :
    (Except.error error >>= next) = .error error :=
  rfl

/-- What is refused under a condition succeeds where the condition does not hold and the rest
succeeds. A chain of refusals is taken apart by this, one after another. -/
theorem refuse_eq_ok_iff {ε α : Type} {condition : Prop} [Decidable condition] {error : ε}
    {next : Except ε α} {a : α} :
    (if condition then .error error else next) = .ok a ↔ ¬condition ∧ next = .ok a := by
  by_cases h : condition <;> simp [h]

/-- A check is passed for all items of a list if it is for each of them. -/
theorem forM_eq_ok_iff {ε α : Type} {check : α → Except ε Unit} {items : List α} :
    items.forM check = .ok () ↔ ∀ item ∈ items, check item = .ok () := by
  induction items with
  | nil => exact ⟨fun _ => nofun, fun _ => rfl⟩
  | cons item items ih =>
    change (check item >>= fun _ => items.forM check) = .ok () ↔ _
    rw [check_bind_eq_ok_iff, ih, List.forall_mem_cons]

/-! ## Values -/

namespace Limits

/-- A value lies within limits. -/
def Within (l : Limits) (value : Float) : Prop :=
  l.low ≤ value ∧ value ≤ l.high

/-- Points can be drawn if they are finite and in order, from left to right. The induction is
on the points, with the level of the one before. -/
theorem check_eq_ok_iff {l : Limits} {value : Float} : l.check value = .ok () ↔ l.Within value := by
  by_cases h : l.low ≤ value ∧ value ≤ l.high <;> simp [check, Within, h]

/-- A value within finite limits is finite, since what is not a number is never within. -/
theorem Within.isFinite {l : Limits} {value : Float} (h : l.Within value)
    (hlow : l.low.isFinite = true) (hhigh : l.high.isFinite = true) : value.isFinite = true :=
  Double.isFinite_of_le_of_le hlow hhigh h.1 h.2

end Limits

/-! ## Points -/

/-- No point lies left of the one before. -/
def Point.InOrder {W : Type} [Arithmetic W] (points : List (Point W)) : Prop :=
  points.IsChain fun p q => ¬q.input < p.input

instance {W : Type} [Arithmetic W] (points : List (Point W)) : Decidable (Point.InOrder points) :=
  inferInstanceAs (Decidable (points.IsChain _))

namespace Point

variable {W : Type} [Arithmetic W]

theorem inOrder_nil : InOrder ([] : List (Point W)) :=
  List.isChain_nil

theorem inOrder_cons_iff {p : Point W} {rest : List (Point W)} :
    InOrder (p :: rest) ↔ (∀ q ∈ rest.head?, ¬q.input < p.input) ∧ InOrder rest :=
  List.isChain_cons

theorem check_some_eq_ok_iff {x : W} {points : List (Point W)} :
    check (some x) points = .ok () ↔
      (∀ p ∈ points, p.isFinite = true) ∧ (∀ p ∈ points.head?, ¬p.input < x) ∧
        InOrder points := by
  induction points generalizing x with
  | nil => simp [check, inOrder_nil]
  | cons p rest ih =>
    rw [check, refuse_eq_ok_iff, refuse_eq_ok_iff, ih, inOrder_cons_iff]
    simp only [Option.any_some, decide_eq_true_eq, Bool.not_eq_true', Bool.not_eq_false,
      List.mem_cons, forall_eq_or_imp, List.head?_cons, Option.mem_some_iff, forall_eq']
    constructor
    · rintro ⟨hp, hx, hrest, hhead, horder⟩
      exact ⟨⟨hp, hrest⟩, hx, hhead, horder⟩
    · rintro ⟨⟨hp, hrest⟩, hx, hhead, horder⟩
      exact ⟨hp, hx, hrest, hhead, horder⟩

/-- Which parameters are accepted: those that no refusal applies to. -/
theorem check_eq_ok_iff {points : List (Point W)} :
    check none points = .ok () ↔ (∀ p ∈ points, p.isFinite = true) ∧ InOrder points := by
  cases points with
  | nil => simp [check, inOrder_nil]
  | cons p rest =>
    rw [check, refuse_eq_ok_iff, refuse_eq_ok_iff, check_some_eq_ok_iff, inOrder_cons_iff]
    simp only [Option.any_none, Bool.false_eq_true, not_false_eq_true, true_and,
      Bool.not_eq_true', Bool.not_eq_false, List.mem_cons, forall_eq_or_imp]
    exact and_assoc.symm

end Point

/-! ## Curves -/

section Transfer

variable {W N : Type} [WideArithmetic W] [Precision W N] {points : List (Point W)} {knee gain : W}

/-- There is room for a curve: for all knots that there can be, and for two pieces for each of
those that are left after merging. -/
structure Transfer.Fits [Memory] (points : List (Point W)) (knee gain : W) : Prop where
  /-- for a knot at each point, at unity gain and at the tail -/
  knots : Memory.hasRoom .knots (points.length + 2) = true
  /-- for the pieces -/
  pieces : Memory.hasRoom .pieces (2 * (Transfer.knots points knee gain).length) = true

/-- Which curves are drawn, and how: through at least one point, with a positive knee and a
gain, both finite, of finite points in order, if there is room for them. -/
theorem Transfer.draw_iff [Memory] {t : Transfer N} :
    draw points knee gain = .ok t ↔
      points ≠ [] ∧ (Arithmetic.isFinite knee = true ∧ 0.0 < knee) ∧
        Arithmetic.isFinite gain = true ∧ (∀ p ∈ points, p.isFinite = true) ∧
          Point.InOrder points ∧ Fits points knee gain ∧
            t = ofPieces (W := W) (outline (Decibel.toNepers knee) (knots points knee gain)) := by
  simp only [draw, throw, throwThe, MonadExceptOf.throw, pure, Except.pure, error_bind,
    refuse_eq_ok_iff, check_bind_eq_ok_iff, Storage.reserve_eq_ok_iff, Point.check_eq_ok_iff,
    List.isEmpty_iff, Bool.not_eq_true', Bool.and_eq_false_iff, Except.ok.injEq, not_or,
    Bool.not_eq_false, decide_eq_true_eq, and_assoc, ne_eq, eq_comm (a := t)]
  constructor
  · rintro ⟨hpoints, hfinite, hknee, hgain, hknots, hall, hordered, hpieces, ht⟩
    exact ⟨hpoints, hfinite, hknee, hgain, hall, hordered, ⟨hknots, hpieces⟩, ht⟩
  · rintro ⟨hpoints, hfinite, hknee, hgain, hall, hordered, ⟨hknots, hpieces⟩, ht⟩
    exact ⟨hpoints, hfinite, hknee, hgain, hknots, hall, hordered, hpieces, ht⟩

/-- Which curves are drawn: those with points that can be drawn, a knee and a gain that are
finite, the knee positive, and room. -/
theorem Transfer.exists_draw_iff [Memory] :
    (∃ t : Transfer N, draw points knee gain = .ok t) ↔
      points ≠ [] ∧ (Arithmetic.isFinite knee = true ∧ 0.0 < knee) ∧
        Arithmetic.isFinite gain = true ∧ (∀ p ∈ points, p.isFinite = true) ∧
          Point.InOrder points ∧ Fits points knee gain := by
  simp only [draw_iff, exists_and_left, exists_eq, and_true]

end Transfer

/-! ## Parameters -/

namespace Parameters

theorem checkTimes_eq_ok_iff {stage : Stage} {times : List Float} :
    checkTimes stage times = .ok () ↔ ∀ seconds ∈ times, isTime seconds = true := by
  rw [checkTimes]
  split
  · rename_i seconds hfind
    have hbad := List.find?_some hfind
    simp only [reduceCtorEq, false_iff]
    intro hall
    rw [hall seconds (List.mem_of_find?_eq_some hfind)] at hbad
    cases hbad
  · rename_i hnone
    simpa using hnone

theorem checkOrder_eq_ok_iff {points : List (Point Float)} :
    checkOrder points = .ok () ↔ Point.InOrder points := by
  induction points with
  | nil => simp [checkOrder, Point.inOrder_nil]
  | cons p rest ih =>
    cases rest with
    | nil => simp [checkOrder, Point.inOrder_nil, Point.inOrder_cons_iff]
    | cons q rest =>
      rw [checkOrder, refuse_eq_ok_iff, ih, Point.inOrder_cons_iff (p := p)]
      simp

/-- Parameters that are accepted before the stream is known. -/
structure Accepted (p : Parameters) : Prop where
  /-- there is a pair of time constants -/
  attacks_ne_nil : p.attacks ≠ []
  /-- attacks and decays make pairs -/
  length_eq : p.attacks.length = p.decays.length
  /-- each attack is a time -/
  attacks_isTime : ∀ seconds ∈ p.attacks, isTime seconds = true
  /-- each decay is a time -/
  decays_isTime : ∀ seconds ∈ p.decays, isTime seconds = true
  /-- the knee is within its limits -/
  softKnee_within : Limits.softKnee.Within p.softKnee
  /-- the output gain is within its limits -/
  gain_within : Limits.gain.Within p.gain
  /-- the initial volume is within its limits -/
  volume_within : Limits.volume.Within p.volume
  /-- the lookahead is within its limits -/
  delay_within : Limits.delay.Within p.delay
  /-- there is a point -/
  points_ne_nil : p.points ≠ []
  /-- no point lies left of the one before -/
  inOrder : Point.InOrder p.points

variable {p : Parameters} {channels : Nat}

/-- Which parameters are accepted. -/
theorem check_eq_ok_iff : p.check = .ok () ↔ p.Accepted := by
  rw [check]
  simp only [throw, throwThe, MonadExceptOf.throw, error_bind, refuse_eq_ok_iff,
    check_bind_eq_ok_iff, checkTimes_eq_ok_iff, Limits.check_eq_ok_iff, checkOrder_eq_ok_iff,
    List.isEmpty_iff, not_not]
  constructor
  · rintro ⟨hne, hlength, hattacks, hdecays, hknee, hgain, hvolume, hdelay, hpoints, horder⟩
    exact ⟨hne, hlength, hattacks, hdecays, hknee, hgain, hvolume, hdelay, hpoints, horder⟩
  · intro h
    exact ⟨h.attacks_ne_nil, h.length_eq, h.attacks_isTime, h.decays_isTime, h.softKnee_within,
      h.gain_within, h.volume_within, h.delay_within, h.points_ne_nil, h.inOrder⟩

/-- Which parameters are accepted for a number of channels: no more pairs of time constants
than there are of them. -/
theorem checkFor_eq_ok_iff :
    p.checkFor channels = .ok () ↔ p.Accepted ∧ p.attacks.length ≤ channels := by
  rw [checkFor]
  simp only [throw, throwThe, MonadExceptOf.throw, pure, Except.pure, refuse_eq_ok_iff,
    check_bind_eq_ok_iff, check_eq_ok_iff, not_lt, and_true]

/-- The knee of accepted parameters is a positive finite number, as drawing asks. -/
theorem Accepted.softKnee_pos (h : p.Accepted) :
    p.softKnee.isFinite = true ∧ 0.0 < p.softKnee :=
  ⟨h.softKnee_within.isFinite (by decide +kernel) (by decide +kernel),
    Double.pos_of_le (by decide +kernel) h.softKnee_within.1⟩

/-- The output gain of accepted parameters is finite, as it lies within finite limits. -/
theorem Accepted.gain_isFinite (h : p.Accepted) : p.gain.isFinite = true :=
  h.gain_within.isFinite (by decide +kernel) (by decide +kernel)

/-- The two time constants of every channel are times, and for a channel without a pair they
are zero. -/
theorem Accepted.timesOf_isTime (h : p.Accepted) (channel : Nat) :
    isTime (p.timesOf channel).1 = true ∧ isTime (p.timesOf channel).2 = true := by
  -- a channel without a pair of its own has times of zero
  have hgetD : ∀ times : List Float, (∀ seconds ∈ times, isTime seconds = true) →
      isTime (times.getD channel 0.0) = true := by
    intro times htimes
    rw [List.getD_eq_getElem?_getD]
    cases hget : times[channel]? with
    | none => decide +kernel
    | some seconds => exact htimes seconds (List.mem_of_getElem? hget)
  exact ⟨hgetD p.attacks h.attacks_isTime, hgetD p.decays h.decays_isTime⟩

end Parameters

end Compander
