import Compander.Proofs.Parameters.OptionText

/-!
# The last value of an option

Setting an option by name reads a text, which no parameter has a say in, and puts the value in
the place of one other. So what counts for an option is the last text for it that reads:

* `Setting.Value`, `Setting.read` — the values of an option, and what a text means as one;
* `Parameters.value`, `Parameters.withValue` — one value of the parameters, and the parameters
  with another one in its place;
* `Parameters.setPairs` — options set in place one after another, those that fail among them;
* `Parameters.value_setPairs` — each option then has the last value that it was given;
* `Parameters.IsNamed.ofText_congr` — option texts of names and values that give the options the
  same last values are read alike, in whatever order.
-/

namespace Compander

/-! ## Values of options -/

deriving instance DecidableEq for Point

namespace Setting

/-- The values that an option can have. -/
def Value : Setting → Type
  | attacks | decays => List Float
  | points => List (Point Float)
  | softKnee | gain | volume | delay => Float

instance : (s : Setting) → DecidableEq s.Value
  | attacks | decays => inferInstanceAs (DecidableEq (List Float))
  | points => inferInstanceAs (DecidableEq (List (Point Float)))
  | softKnee | gain | volume | delay => inferInstanceAs (DecidableEq Float)

/-- What a text means as a value of an option. Errors call the option by `name`. -/
def read (name : String) (text : List Char) : (s : Setting) → Except OptionError s.Value
  | attacks | decays => readTimes name text
  | points => readPoints text
  | softKnee | gain | volume | delay => readNumber name text

/-- The value that a pair of a name and a text gives an option: none if the name is that of
another option, or if the text does not read. -/
def given? (s : Setting) (pair : String × List Char) : Option s.Value :=
  if ofName? pair.1 = some s then (s.read pair.1 pair.2).toOption else none

/-- The last value that some pairs give an option. -/
def lastGiven? (s : Setting) (pairs : List (String × List Char)) : Option s.Value :=
  (pairs.filterMap s.given?).getLast?

/-- The names of an option: its own and, for the knee, the one with an underscore. -/
theorem ofName?_eq_some_iff {name : String} {s : Setting} :
    ofName? name = some s ↔ name = s.name ∨ name = "soft_knee" ∧ s = softKnee := by
  constructor
  · intro h
    rw [ofName?] at h
    split at h
    · rename_i hname
      exact .inr ⟨hname, (Option.some.inj h).symm⟩
    · have hname := List.find?_some h
      exact .inl (of_decide_eq_true hname).symm
  · rintro (rfl | ⟨rfl, rfl⟩)
    · exact s.ofName?_name
    · rfl

variable {s : Setting} {pair : String × List Char}

theorem given?_eq_some_iff {v : s.Value} :
    s.given? pair = some v ↔ ofName? pair.1 = some s ∧ s.read pair.1 pair.2 = .ok v := by
  rw [given?]
  split
  · rename_i hname
    cases s.read pair.1 pair.2 <;> simp [hname, Except.toOption]
  · rename_i hname
    simp [hname]

/-- A later pair is heard before an earlier one, and an earlier one where no later pair gives
a value. -/
theorem lastGiven?_cons (pair : String × List Char) (rest : List (String × List Char)) :
    s.lastGiven? (pair :: rest) = (s.lastGiven? rest).or (s.given? pair) := by
  rw [lastGiven?, lastGiven?, List.filterMap_cons]
  cases s.given? pair with
  | none => rw [Option.or_none]
  | some v => rw [List.getLast?_cons]; cases (rest.filterMap s.given?).getLast? <;> rfl

end Setting

namespace Parameters

variable {p q : Parameters} {name : String} {text : List Char}

/-- The value of an option. -/
def value (p : Parameters) : (s : Setting) → s.Value
  | .attacks => p.attacks
  | .decays => p.decays
  | .points => p.points
  | .softKnee => p.softKnee
  | .gain => p.gain
  | .volume => p.volume
  | .delay => p.delay

/-- The parameters with another value of an option. -/
def withValue (p : Parameters) : (s : Setting) → s.Value → Parameters
  | .attacks, attacks => { p with attacks := attacks }
  | .decays, decays => { p with decays := decays }
  | .points, points => { p with points := points }
  | .softKnee, softKnee => { p with softKnee := softKnee }
  | .gain, gain => { p with gain := gain }
  | .volume, volume => { p with volume := volume }
  | .delay, delay => { p with delay := delay }

theorem value_withValue (p : Parameters) (s : Setting) (v : s.Value) :
    (p.withValue s v).value s = v := by
  cases s <;> rfl

/-- The other options keep their values, so options can be set in any order. -/
theorem value_withValue_of_ne {s t : Setting} (h : t ≠ s) (p : Parameters) (v : s.Value) :
    (p.withValue s v).value t = p.value t := by
  cases s <;> cases t <;> first | rfl | exact absurd rfl h

/-- Parameters are their values, one for each option and nothing else. -/
theorem ext_value (h : ∀ s, p.value s = q.value s) : p = q := by
  have hattacks : p.attacks = q.attacks := h .attacks
  have hdecays : p.decays = q.decays := h .decays
  have hpoints : p.points = q.points := h .points
  have hsoftKnee : p.softKnee = q.softKnee := h .softKnee
  have hgain : p.gain = q.gain := h .gain
  have hvolume : p.volume = q.volume := h .volume
  have hdelay : p.delay = q.delay := h .delay
  cases p
  cases q
  simp_all only

/-! ## One option -/

/-- An option is set to what its text means, and what it means does not depend on the
parameters. -/
theorem setAs_eq_map_read (p : Parameters) (s : Setting) (name : String) (text : List Char) :
    p.setAs s name text = (s.read name text).map (p.withValue s) := by
  cases s <;> rfl

theorem set_eq_ok_iff : p.set name text = .ok q ↔
    ∃ s v, Setting.ofName? name = some s ∧ s.read name text = .ok v ∧ q = p.withValue s v := by
  rw [set]
  cases Setting.ofName? name with
  | none => simp
  | some s =>
    simp only [setAs_eq_map_read]
    cases hread : s.read name text <;> simp [Except.map, hread, eq_comm]

/-- What can be set gives a value to an option, whatever the parameters are; what cannot be
set has an unknown name or a text that does not read. -/
theorem exists_set_iff (p : Parameters) (pair : String × List Char) :
    (∃ q, p.set pair.1 pair.2 = .ok q) ↔ ∃ s : Setting, (s.given? pair).isSome = true := by
  constructor
  · rintro ⟨q, hq⟩
    obtain ⟨s, v, hname, hread, -⟩ := set_eq_ok_iff.mp hq
    exact ⟨s, by rw [Setting.given?_eq_some_iff.mpr ⟨hname, hread⟩]; rfl⟩
  · rintro ⟨s, hs⟩
    obtain ⟨v, hv⟩ := Option.isSome_iff_exists.mp hs
    obtain ⟨hname, hread⟩ := Setting.given?_eq_some_iff.mp hv
    exact ⟨p.withValue s v, set_eq_ok_iff.mpr ⟨s, v, hname, hread, rfl⟩⟩

/-- In place an option is set to what its text means, or nothing is changed. -/
theorem run_setInPlace (p : Parameters) (name : String) (text : List Char) :
    (setInPlace name text).run.run p =
      match p.set name text with
      | .ok q => (.ok (), q)
      | .error error => (.error error, p) := by
  have hstep : (setInPlace name text).run.run p =
      ((liftM (p.set name text) : ExceptT OptionError (StateM Parameters) Parameters) >>=
        MonadStateOf.set).run.run p := rfl
  rw [hstep]
  cases p.set name text <;> rfl

/-! ## Several options -/

/-- The parameters after some pairs of a name and a text have been set in place one after another.
A pair that fails is passed over. -/
def setPairs (p : Parameters) (pairs : List (String × List Char)) : Parameters :=
  pairs.foldl (fun p pair => ((setInPlace pair.1 pair.2).run.run p).2) p

theorem setPairs_cons (p : Parameters) (pair : String × List Char)
    (rest : List (String × List Char)) :
    p.setPairs (pair :: rest) = (p.setPairs [pair]).setPairs rest :=
  rfl

theorem setPairs_of_set_eq_ok {pair : String × List Char} (h : p.set pair.1 pair.2 = .ok q) :
    p.setPairs [pair] = q := by
  change ((setInPlace pair.1 pair.2).run.run p).2 = q
  rw [run_setInPlace, h]

theorem setPairs_of_set_eq_error {pair : String × List Char} {error : OptionError}
    (h : p.set pair.1 pair.2 = .error error) : p.setPairs [pair] = p := by
  change ((setInPlace pair.1 pair.2).run.run p).2 = p
  rw [run_setInPlace, h]

/-- A pair sets the option that it gives a value, and no other; a pair that gives none sets
nothing. -/
theorem value_setPair (p : Parameters) (pair : String × List Char) (s : Setting) :
    (p.setPairs [pair]).value s = (s.given? pair).getD (p.value s) := by
  cases hset : p.set pair.1 pair.2 with
  | ok q =>
    obtain ⟨t, v, hname, hread, rfl⟩ := set_eq_ok_iff.mp hset
    rw [setPairs_of_set_eq_ok hset]
    by_cases hs : s = t
    · subst hs
      rw [value_withValue, Setting.given?_eq_some_iff.mpr ⟨hname, hread⟩, Option.getD_some]
    · rw [value_withValue_of_ne hs, Setting.given?, hname, if_neg (by simpa using Ne.symm hs),
        Option.getD_none]
  | error error =>
    rw [setPairs_of_set_eq_error hset]
    cases hgiven : s.given? pair with
    | none => rfl
    | some v =>
      -- what gives a value can be set
      obtain ⟨q, hq⟩ := (exists_set_iff p pair).mpr ⟨s, by rw [hgiven]; rfl⟩
      rw [hset] at hq
      cases hq

/-- After some pairs each option has the last value that they gave it, or still the one it had. -/
theorem value_setPairs (p : Parameters) (pairs : List (String × List Char)) (s : Setting) :
    (p.setPairs pairs).value s = (s.lastGiven? pairs).getD (p.value s) := by
  induction pairs generalizing p with
  | nil => rfl
  | cons pair rest ih =>
    rw [setPairs_cons, ih, value_setPair, Setting.lastGiven?_cons]
    cases s.lastGiven? rest <;> rfl

/-! ## Option texts of names and values -/

/-- An option text whose items all have names, namely those of some pairs, and all read. -/
structure IsNamed (text : String) (pairs : List (String × List Char)) : Prop where
  /-- the items are the pairs -/
  items_eq : itemsOf text.toList = pairs.map fun pair => .named pair.1.toList pair.2
  /-- each pair gives a value to an option -/
  reads : ∀ pair ∈ pairs, ∃ s : Setting, (s.given? pair).isSome = true

/-- Pairs that read are set one after another, as in place, so a text and single calls come to
the same. -/
theorem setItems_eq_setPairs {pairs : List (String × List Char)}
    (h : ∀ pair ∈ pairs, ∃ s : Setting, (s.given? pair).isSome = true) (p : Parameters)
    (free : List Setting) :
    p.setItems free (pairs.map fun pair => .named pair.1.toList pair.2) =
      .ok (p.setPairs pairs) := by
  induction pairs generalizing p with
  | nil => rfl
  | cons pair rest ih =>
    obtain ⟨q, hset⟩ := (exists_set_iff p pair).mpr (h pair List.mem_cons_self)
    rw [List.map_cons, setItems, String.ofList_toList, hset, setPairs_cons,
      setPairs_of_set_eq_ok hset]
    exact ih (fun other hother => h other (List.mem_cons_of_mem _ hother)) _

theorem IsNamed.ofText_eq {line : String} {pairs : List (String × List Char)}
    (h : IsNamed line pairs) : ofText line = (({} : Parameters).setPairs pairs).checked := by
  rw [ofText, h.items_eq, setItems_eq_setPairs h.reads]
  rfl

/-- Option texts of names and values that give each option the same last value are read alike. -/
theorem IsNamed.ofText_congr {line other : String} {pairs others : List (String × List Char)}
    (h : IsNamed line pairs) (hother : IsNamed other others)
    (hlast : ∀ s : Setting, s.lastGiven? pairs = s.lastGiven? others) :
    ofText line = ofText other := by
  have hvalues : ({} : Parameters).setPairs pairs = ({} : Parameters).setPairs others := by
    refine ext_value fun s => ?_
    rw [value_setPairs, value_setPairs, hlast]
  rw [h.ofText_eq, hother.ofText_eq, hvalues]

/-- Setting an option in place changes nothing if it fails, and it fails if the text gives no
value to an option. -/
theorem setInPlace_cases (p : Parameters) (name : String) (text : List Char) :
    (∃ q, (setInPlace name text).run.run p = (.ok (), q) ∧
      ∃ s : Setting, (s.given? (name, text)).isSome = true) ∨
    (∃ error, (setInPlace name text).run.run p = (.error error, p)) ∧
      ∀ s : Setting, s.given? (name, text) = none := by
  rw [run_setInPlace]
  cases hset : p.set name text with
  | ok q => exact .inl ⟨q, rfl, (exists_set_iff p (name, text)).mp ⟨q, hset⟩⟩
  | error error =>
    refine .inr ⟨⟨error, rfl⟩, fun s => Option.not_isSome_iff_eq_none.mp fun hs => ?_⟩
    obtain ⟨q, hq⟩ := (exists_set_iff p (name, text)).mpr ⟨s, hs⟩
    rw [hset] at hq
    cases hq

/-- **The last text for an option counts.** Options are set in place one after another. One that
fails leaves the parameters as they were, and it does not depend on them which ones fail. After any
pairs each option has the value of the last pair that names it and reads, or the value that it had
before. So two option texts of names and values that all read come to the same if the last values
for each option agree, in whatever order they stand. -/
theorem value_of_last_pair :
    (∀ (p : Parameters) (name : String) (text : List Char),
      (∃ q, (setInPlace name text).run.run p = (.ok (), q) ∧
        ∃ s : Setting, (s.given? (name, text)).isSome = true) ∨
      (∃ error, (setInPlace name text).run.run p = (.error error, p)) ∧
        ∀ s : Setting, s.given? (name, text) = none) ∧
    (∀ (name : String) (s : Setting), Setting.ofName? name = some s ↔
      name = s.name ∨ name = "soft_knee" ∧ s = .softKnee) ∧
    (∀ (p : Parameters) (pairs : List (String × List Char)) (s : Setting),
      (p.setPairs pairs).value s = (s.lastGiven? pairs).getD (p.value s)) ∧
    ∀ (line other : String) (pairs others : List (String × List Char)),
      IsNamed line pairs → IsNamed other others →
        (∀ s : Setting, s.lastGiven? pairs = s.lastGiven? others) →
          ofText line = ofText other :=
  ⟨setInPlace_cases, fun _ _ => Setting.ofName?_eq_some_iff, value_setPairs,
    fun _ _ _ _ => IsNamed.ofText_congr⟩

/-- A gain and a knee, both set twice, in two orders and in both spellings of the knee. -/
theorem value_of_last_pair_of_two_orders :
    let line := "gain=2:soft-knee=1:gain=3:soft_knee=6"
    let other := "soft-knee = 6.0 : gain=2 : : gain=3"
    let pairs := [("gain", "2".toList), ("soft-knee", "1".toList), ("gain", "3".toList),
      ("soft_knee", "6".toList)]
    let others := [("soft-knee", "6.0".toList), ("gain", "2".toList), ("gain", "3".toList)]
    IsNamed line pairs ∧ IsNamed other others ∧
      (∀ s : Setting, s.lastGiven? pairs = s.lastGiven? others) ∧ ofText line = ofText other := by
  intro line other pairs others
  have hline : IsNamed line pairs := by
    refine ⟨by decide +kernel, ?_⟩
    simp only [pairs, List.forall_mem_cons]
    exact ⟨⟨.gain, by decide +kernel⟩, ⟨.softKnee, by decide +kernel⟩,
      ⟨.gain, by decide +kernel⟩, ⟨.softKnee, by decide +kernel⟩, by simp⟩
  have hother : IsNamed other others := by
    refine ⟨by decide +kernel, ?_⟩
    simp only [others, List.forall_mem_cons]
    exact ⟨⟨.softKnee, by decide +kernel⟩, ⟨.gain, by decide +kernel⟩,
      ⟨.gain, by decide +kernel⟩, by simp⟩
  have hlast : ∀ s : Setting, s.lastGiven? pairs = s.lastGiven? others := by
    intro s
    cases s <;> decide +kernel
  exact ⟨hline, hother, hlast,
    value_of_last_pair.2.2.2 line other pairs others hline hother hlast⟩

end Parameters

end Compander
