import Compander.Proofs.Transfer.Knots

/-!
# Between the knots

What a user asks for between two points is the straight line between them:

* `Knot.Interpolated` — the gain that a set of knots asks for at a level: constant below the
  lowest knot and above the highest one, and straight from each knot to the next;
* `Knot.interpolate` — that gain, along a list of knots in order;
* `Knot.interpolated_interpolate`, `Knot.Interpolated.interpolate_eq` — there is such a gain,
  and no other.

Merging takes knots away that lie nearly on the line between their neighbours. Nearly is a
matter of area, so a bump may be as high as it likes if its legs are short enough:

* `Knot.Spaced` — the knots taken away near a level keep a distance from the next knot;
* `Knot.near_mergeFrom` — what merging then changes at that level.

What several knots on one leg change together is bounded by a sum that telescopes, so the bound is
that of a single knot however many are taken away.
-/

namespace Compander.Knot

variable {p q r k : Knot ℝ} {ks rest : List (Knot ℝ)} {l y gain : ℝ}

/-! ## Lines -/

/-- The gain at a level on the line through two knots. -/
noncomputable def line (p q : Knot ℝ) (l : ℝ) : ℝ :=
  p.y + (q.y - p.y) / (q.x - p.x) * (l - p.x)

theorem line_left (p q : Knot ℝ) : p.line q p.x = p.y := by
  rw [line, sub_self, mul_zero, add_zero]

theorem line_right (h : p.x < q.x) : p.line q q.x = q.y := by
  have hrun : q.x - p.x ≠ 0 := (sub_pos.mpr h).ne'
  rw [line, div_mul_cancel₀ _ hrun, add_sub_cancel]

theorem line_eq_slope (h : p.x < q.x) (l : ℝ) : p.line q l = p.y + p.slope q * (l - p.x) := by
  rw [line, slope_eq h]

/-- A line in nepers, with a gain added, is the line in decibels with that gain, in nepers. -/
theorem line_toNepers (gain : ℝ) (p q : Knot ℝ) (l : ℝ) :
    (p.toNepers gain).line (q.toNepers gain) (Decibel.toNepers l) =
      Decibel.toNepers (p.line q l + gain) := by
  have hunit : (Decibel.inNepers : ℝ) ≠ 0 := Decibel.inNepers_pos.ne'
  have hrise : (q.y + gain) * Decibel.inNepers - (p.y + gain) * Decibel.inNepers =
      (q.y - p.y) * Decibel.inNepers := by
    ring
  simp only [line, toNepers, Decibel.toNepers]
  rw [hrise, ← sub_mul, mul_div_mul_right _ _ hunit]
  ring

/-! ## Interpolation -/

/-- The gain that a set of knots asks for at a level. -/
inductive Interpolated (S : Set (Knot ℝ)) (l : ℝ) : ℝ → Prop
  /-- Below the lowest knot it is constant, -/
  | below (k : Knot ℝ) (hk : k ∈ S) (hlowest : ∀ q ∈ S, k.x ≤ q.x) (hl : l ≤ k.x) :
      Interpolated S l k.y
  /-- between neighbours it is that of the line through them, -/
  | between (p q : Knot ℝ) (hp : p ∈ S) (hq : q ∈ S) (hpq : p.x < q.x)
      (hneighbours : ∀ k ∈ S, k.x ≤ p.x ∨ q.x ≤ k.x) (hpl : p.x ≤ l) (hlq : l ≤ q.x) :
      Interpolated S l (p.line q l)
  /-- and above the highest knot it is constant again. -/
  | above (k : Knot ℝ) (hk : k ∈ S) (hhighest : ∀ q ∈ S, q.x ≤ k.x) (hl : k.x ≤ l) :
      Interpolated S l k.y

/-- The gain at a level along knots in order. -/
noncomputable def interpolate : List (Knot ℝ) → ℝ → ℝ
  | [], _ => 0
  | [k], _ => k.y
  | p :: q :: rest, l =>
    if l ≤ p.x then p.y else if l ≤ q.x then p.line q l else interpolate (q :: rest) l

theorem interpolate_singleton (k : Knot ℝ) (l : ℝ) : interpolate [k] l = k.y :=
  rfl

theorem interpolate_of_le (h : l ≤ p.x) : interpolate (p :: rest) l = p.y := by
  cases rest with
  | nil => rfl
  | cons q rest => rw [interpolate, if_pos h]

theorem interpolate_of_mem (hp : p.x ≤ l) (hq : l ≤ q.x) :
    interpolate (p :: q :: rest) l = p.line q l := by
  rcases hp.eq_or_lt with rfl | hlt
  · rw [interpolate_of_le le_rfl, line_left]
  · rw [interpolate, if_neg hlt.not_ge, if_pos hq]

/-- From the second knot on the first changes nothing, so only two knots count at a level. -/
theorem interpolate_cons_cons (hpq : p.x < q.x) (hl : q.x ≤ l) :
    interpolate (p :: q :: rest) l = interpolate (q :: rest) l := by
  rcases hl.eq_or_lt with rfl | hlt
  · rw [interpolate_of_mem hpq.le le_rfl, line_right hpq, interpolate_of_le le_rfl]
  · rw [interpolate, if_neg (hpq.trans hlt).not_ge, if_neg hlt.not_ge]

/-- Along knots in order every level has a gain, the one that the two knots around it ask
for. -/
theorem interpolated_interpolate (hne : ks ≠ []) (h : ks.Pairwise fun p q => p.x < q.x) (l : ℝ) :
    Interpolated {k | k ∈ ks} l (interpolate ks l) := by
  induction ks with
  | nil => exact absurd rfl hne
  | cons p rest ih =>
    obtain ⟨hp, hrest⟩ := List.pairwise_cons.mp h
    have hlowest := le_of_mem .lt_levels h
    rcases le_total l p.x with hlp | hpl
    · rw [interpolate_of_le hlp]
      exact .below p List.mem_cons_self hlowest hlp
    · cases rest with
      | nil =>
        refine .above p List.mem_cons_self (fun q hq => ?_) hpl
        rw [List.mem_singleton.mp hq]
      | cons q rest =>
        have hq : q ∈ q :: rest := List.mem_cons_self
        have hafter := le_of_mem .lt_levels hrest
        rcases le_or_gt l q.x with hlq | hql
        · rw [interpolate_of_mem hpl hlq]
          exact .between p q List.mem_cons_self (List.mem_cons_of_mem _ hq) (hp q hq)
            (List.forall_mem_cons.mpr ⟨.inl le_rfl, fun k hk => .inr (hafter k hk)⟩) hpl hlq
        · rw [interpolate_cons_cons (hp q hq) hql.le]
          have hfrom := ih (List.cons_ne_nil _ _) hrest
          generalize interpolate (q :: rest) l = y at hfrom ⊢
          cases hfrom with
          | below k hk hlow hlk => exact absurd (hlk.trans (hlow q hq)) hql.not_ge
          | between a b ha hb hab hnone hal hlb =>
            exact .between a b (List.mem_cons_of_mem _ ha) (List.mem_cons_of_mem _ hb) hab
              (List.forall_mem_cons.mpr ⟨.inl (hp a ha).le, hnone⟩) hal hlb
          | above k hk hhigh hkl =>
            exact .above k (List.mem_cons_of_mem _ hk)
              (List.forall_mem_cons.mpr ⟨(hp k hk).le, hhigh⟩) hkl

/-- Above the highest of the knots the gain is that of this knot. -/
theorem interpolate_of_highest (h : ks.Pairwise fun p q => p.x < q.x) (hk : k ∈ ks)
    (hhighest : ∀ q ∈ ks, q.x ≤ k.x) (hl : k.x ≤ l) : interpolate ks l = k.y := by
  induction ks with
  | nil => cases hk
  | cons p rest ih =>
    obtain ⟨hp, hrest⟩ := List.pairwise_cons.mp h
    cases rest with
    | nil => rw [List.mem_singleton.mp hk, interpolate_singleton]
    | cons q rest =>
      have hq : q ∈ q :: rest := List.mem_cons_self
      have hqk : q.x ≤ k.x := hhighest q (List.mem_cons_of_mem _ hq)
      rcases List.mem_cons.mp hk with rfl | hmem
      · exact absurd (hp q hq) hqk.not_gt
      · rw [interpolate_cons_cons (hp q hq) (hqk.trans hl)]
        exact ih hrest hmem fun a ha => hhighest a (List.mem_cons_of_mem _ ha)

/-- Between neighbours among the knots the gain is on the line from one to the other. -/
theorem interpolate_of_neighbours {a b : Knot ℝ} (h : ks.Pairwise fun p q => p.x < q.x)
    (ha : a ∈ ks) (hb : b ∈ ks) (hab : a.x < b.x) (hnone : ∀ k ∈ ks, k.x ≤ a.x ∨ b.x ≤ k.x)
    (hal : a.x ≤ l) (hlb : l ≤ b.x) : interpolate ks l = a.line b l := by
  induction ks with
  | nil => cases ha
  | cons p rest ih =>
    obtain ⟨hp, hrest⟩ := List.pairwise_cons.mp h
    have hbrest : b ∈ rest := by
      rcases List.mem_cons.mp hb with rfl | hmem
      · rcases List.mem_cons.mp ha with rfl | hmem
        · exact absurd hab (lt_irrefl _)
        · exact absurd (hp a hmem) hab.not_gt
      · exact hmem
    cases rest with
    | nil => cases hbrest
    | cons q rest =>
      have hq : q ∈ q :: rest := List.mem_cons_self
      rcases List.mem_cons.mp ha with rfl | harest
      · -- the neighbour of the first knot is the second
        obtain rfl : b = q := by
          rcases List.mem_cons.mp hbrest with rfl | hmem
          · rfl
          · have hqb := (List.pairwise_cons.mp hrest).1 b hmem
            rcases hnone q (List.mem_cons_of_mem _ hq) with hle | hle
            · exact absurd (hp q hq) hle.not_gt
            · exact absurd hqb hle.not_gt
        exact interpolate_of_mem hal hlb
      · have hqa : q.x ≤ a.x := le_of_mem .lt_levels hrest a harest
        rw [interpolate_cons_cons (hp q hq) (hqa.trans hal)]
        exact ih hrest harest hbrest fun k hk => hnone k (List.mem_cons_of_mem _ hk)

/-- And it has no other gain, so the set of the knots says all that their list does. -/
theorem Interpolated.interpolate_eq (h : ks.Pairwise fun p q => p.x < q.x)
    (hy : Interpolated {k | k ∈ ks} l y) : interpolate ks l = y := by
  cases hy with
  | below k hk hlowest hl =>
    cases ks with
    | nil => cases hk
    | cons p rest =>
      -- the lowest knot is the first
      rcases List.mem_cons.mp hk with rfl | hmem
      · exact interpolate_of_le hl
      · have hpk := (List.pairwise_cons.mp h).1 k hmem
        exact absurd hpk (hlowest p List.mem_cons_self).not_gt
  | between p q hp hq hpq hnone hpl hlq =>
    exact interpolate_of_neighbours h hp hq hpq hnone hpl hlq
  | above k hk hhighest hl => exact interpolate_of_highest h hk hhighest hl

/-- Interpolation in nepers, with a gain added, is interpolation in decibels with that gain,
in nepers. -/
theorem interpolate_map_toNepers (hne : ks ≠ []) (gain l : ℝ) :
    interpolate (ks.map (toNepers gain)) (Decibel.toNepers l) =
      Decibel.toNepers (interpolate ks l + gain) := by
  induction ks with
  | nil => exact absurd rfl hne
  | cons p rest ih =>
    cases rest with
    | nil => rfl
    | cons q rest =>
      have hfrom := ih (List.cons_ne_nil _ _)
      have hle (k : Knot ℝ) : Decibel.toNepers l ≤ (k.toNepers gain).x ↔ l ≤ k.x :=
        Decibel.toNepers_le_toNepers
      simp only [List.map_cons] at hfrom ⊢
      rw [interpolate, interpolate]
      simp only [hle]
      split
      · rfl
      · split
        · exact line_toNepers gain p q l
        · exact hfrom

/-! ## What merging changes -/

section Merging

variable {δ : ℝ} {kept : List (Knot ℝ)} {S : Set (Knot ℝ)}

/-- By how much three knots bend, as the difference of two cross products. -/
def bend (p q r : Knot ℝ) : ℝ :=
  (q.y - p.y) * (r.x - q.x) - (r.y - q.y) * (q.x - p.x)

theorem line_sub_line_first (hpq : p.x < q.x) (hqr : q.x < r.x) (l : ℝ) :
    p.line q l - p.line r l =
      bend p q r * ((l - p.x) / ((q.x - p.x) * (r.x - p.x))) := by
  have hfirst : q.x - p.x ≠ 0 := (sub_pos.mpr hpq).ne'
  have hwhole : r.x - p.x ≠ 0 := (sub_pos.mpr (hpq.trans hqr)).ne'
  rw [line, line, bend]
  field_simp
  ring

theorem line_sub_line_second (hpq : p.x < q.x) (hqr : q.x < r.x) (l : ℝ) :
    q.line r l - p.line r l =
      bend p q r * ((r.x - l) / ((r.x - q.x) * (r.x - p.x))) := by
  have hsecond : r.x - q.x ≠ 0 := (sub_pos.mpr hqr).ne'
  have hwhole : r.x - p.x ≠ 0 := (sub_pos.mpr (hpq.trans hqr)).ne'
  rw [line, line, bend]
  field_simp
  ring

/-- What taking away the knot `q` changes before it, where the line to `q` is replaced. -/
theorem abs_line_sub_line_first_le (hpq : p.x < q.x) (hδ : 0 < δ) (hqr : δ ≤ r.x - q.x)
    (hstraight : isStraight p q r = true) (hpl : p.x ≤ l) :
    |p.line q l - p.line r l| ≤
      1e-6 / δ * ((l - p.x) / (q.x - p.x)) - 1e-6 / δ * ((l - p.x) / (r.x - p.x)) := by
  have hbend : |bend p q r| ≤ 1e-6 := isStraight_iff.mp hstraight
  have hfirst : 0 < q.x - p.x := sub_pos.mpr hpq
  have hwhole : 0 < r.x - p.x := by linarith
  have hpart : 0 ≤ l - p.x := sub_nonneg.mpr hpl
  have hshare : 0 ≤ (l - p.x) / ((q.x - p.x) * (r.x - p.x)) := by positivity
  calc |p.line q l - p.line r l|
      = |bend p q r| * ((l - p.x) / ((q.x - p.x) * (r.x - p.x))) := by
        rw [line_sub_line_first hpq (by linarith), abs_mul, abs_of_nonneg hshare]
    _ ≤ 1e-6 * ((l - p.x) / ((q.x - p.x) * (r.x - p.x))) :=
        mul_le_mul_of_nonneg_right hbend hshare
    _ ≤ 1e-6 / δ * (r.x - q.x) * ((l - p.x) / ((q.x - p.x) * (r.x - p.x))) := by
        refine mul_le_mul_of_nonneg_right ?_ hshare
        rw [div_mul_eq_mul_div, le_div_iff₀ hδ]
        exact mul_le_mul_of_nonneg_left hqr (by norm_num)
    _ = 1e-6 / δ * ((l - p.x) / (q.x - p.x)) - 1e-6 / δ * ((l - p.x) / (r.x - p.x)) := by
        field_simp
        ring

/-- What taking away the knot `q` changes after it, where the line from `q` is replaced. -/
theorem abs_line_sub_line_second_le (hpq : p.x < q.x) (hδ : 0 < δ) (hqr : δ ≤ r.x - q.x)
    (hstraight : isStraight p q r = true) (hlr : l ≤ r.x) :
    |q.line r l - p.line r l| ≤ 1e-6 / δ - 1e-6 / δ * ((l - p.x) / (r.x - p.x)) := by
  have hbend : |bend p q r| ≤ 1e-6 := isStraight_iff.mp hstraight
  have hsecond : 0 < r.x - q.x := hδ.trans_le hqr
  have hwhole : 0 < r.x - p.x := by linarith
  have hpart : 0 ≤ r.x - l := sub_nonneg.mpr hlr
  have hshare : 0 ≤ (r.x - l) / ((r.x - q.x) * (r.x - p.x)) := by positivity
  calc |q.line r l - p.line r l|
      = |bend p q r| * ((r.x - l) / ((r.x - q.x) * (r.x - p.x))) := by
        rw [line_sub_line_second hpq (by linarith), abs_mul, abs_of_nonneg hshare]
    _ ≤ 1e-6 * ((r.x - l) / ((r.x - q.x) * (r.x - p.x))) :=
        mul_le_mul_of_nonneg_right hbend hshare
    _ ≤ 1e-6 / δ * (r.x - q.x) * ((r.x - l) / ((r.x - q.x) * (r.x - p.x))) := by
        refine mul_le_mul_of_nonneg_right ?_ hshare
        rw [div_mul_eq_mul_div, le_div_iff₀ hδ]
        exact mul_le_mul_of_nonneg_left hqr (by norm_num)
    _ = 1e-6 / δ - 1e-6 / δ * ((l - p.x) / (r.x - p.x)) := by
        field_simp
        ring

/-- The knots taken away near a level keep a distance: of the knots asked for, one that no knot
kept separates from the level `l` lies at least `δ` below the next. -/
def Spaced (δ l : ℝ) (kept : List (Knot ℝ)) (S : Set (Knot ℝ)) : Prop :=
  ∀ p ∈ S, (∀ k ∈ kept, k.x ∉ Set.uIcc p.x l) → ∀ q ∈ S, p.x < q.x → δ ≤ q.x - p.x

theorem Spaced.mono {T : Set (Knot ℝ)} (h : Spaced δ l kept S) (hT : T ⊆ S) :
    Spaced δ l kept T :=
  fun p hp hkept q hq => h p (hT hp) hkept q (hT hq)

/-- A knot kept below the level and all the knots separates none of them from the level. -/
theorem Spaced.of_cons (h : Spaced δ l (p :: kept) S) (hS : ∀ k ∈ S, p.x < k.x) (hl : p.x < l) :
    Spaced δ l kept S := by
  refine fun q hq hkept => h q hq (List.forall_mem_cons.mpr ⟨fun hmem => ?_, hkept⟩)
  exact (lt_min (hS q hq) hl).not_ge hmem.1

/-- How near a merged list of knots is to the list of `p`, `q` and `rest`, at a level above `p`.
The change grows with the distance from `p`, so that `q` may still be taken away itself. -/
structure Near (δ l : ℝ) (merged : List (Knot ℝ)) (p q : Knot ℝ) (rest : List (Knot ℝ)) :
    Prop where
  /-- before `q` -/
  before : l < q.x →
    |interpolate merged l - p.line q l| ≤ 1e-6 / δ * ((l - p.x) / (q.x - p.x))
  /-- beyond it -/
  beyond : q.x < l → |interpolate merged l - interpolate (q :: rest) l| ≤ 1e-6 / δ

/-- What is nearly a line up to `q` differs from it by at most the tolerance over the
distance. -/
theorem Near.abs_sub_line_le {merged : List (Knot ℝ)} (h : Near δ l merged p q rest) (hδ : 0 < δ)
    (hpl : p.x < l) (hlq : l < q.x) : |interpolate merged l - p.line q l| ≤ 1e-6 / δ := by
  have hbound : 0 ≤ 1e-6 / δ := by positivity
  have hshare : (l - p.x) / (q.x - p.x) ≤ 1 :=
    div_le_one_of_le₀ (by linarith) (by linarith)
  exact (h.before hlq).trans (mul_le_of_le_one_right hbound hshare)

theorem Near.pair (hδ : 0 < δ) (hpq : p.x < q.x) (hpl : p.x < l) : Near δ l [p, q] p q [] := by
  have hbound : 0 ≤ 1e-6 / δ := by positivity
  refine ⟨fun hlq => ?_, fun hql => ?_⟩
  · have hshare : 0 ≤ (l - p.x) / (q.x - p.x) :=
      div_nonneg (sub_pos.mpr hpl).le (sub_pos.mpr hpq).le
    rw [interpolate_of_mem hpl.le hlq.le, sub_self, abs_zero]
    exact mul_nonneg hbound hshare
  · rw [interpolate_cons_cons hpq hql.le, sub_self, abs_zero]
    exact hbound

/-- A knot is taken away, and what that changes is added to what the rest of the pass
changes. -/
theorem Near.drop {merged : List (Knot ℝ)} (h : Near δ l merged p r rest) (hδ : 0 < δ)
    (hpq : p.x < q.x) (hqr : q.x < r.x) (hstraight : isStraight p q r = true)
    (hgap : l < r.x → δ ≤ r.x - q.x) (hpl : p.x < l) (hlr : l ≠ r.x) :
    Near δ l merged p q (r :: rest) := by
  refine ⟨fun hlq => ?_, fun hql => ?_⟩
  · have hchange := abs_line_sub_line_first_le hpq hδ (hgap (hlq.trans hqr)) hstraight hpl.le
    have hmerged := h.before (hlq.trans hqr)
    have htriangle := abs_sub_le (interpolate merged l) (p.line r l) (p.line q l)
    rw [abs_sub_comm] at hchange
    linarith
  · rcases hlr.lt_or_gt with hlt | hgt
    · have hchange := abs_line_sub_line_second_le hpq hδ (hgap hlt) hstraight hlt.le
      have hmerged := h.before hlt
      have htriangle := abs_sub_le (interpolate merged l) (p.line r l) (q.line r l)
      rw [abs_sub_comm] at hchange
      rw [interpolate_of_mem hql.le hlt.le]
      linarith
    · rw [interpolate_cons_cons hqr hgt.le]
      exact h.beyond hgt

/-- A knot is kept. Before it nothing is changed, and after it only what the rest of the pass
changes. -/
theorem Near.keep {k : Knot ℝ} {ks : List (Knot ℝ)} (hδ : 0 < δ) (hpq : p.x < q.x)
    (hqr : q.x < r.x) (hpl : p.x < l) (hlr : l ≠ r.x)
    (h : q.x < l → Near δ l (q :: k :: ks) q r rest) :
    Near δ l (p :: q :: k :: ks) p q (r :: rest) := by
  have hbound : 0 ≤ 1e-6 / δ := by positivity
  refine ⟨fun hlq => ?_, fun hql => ?_⟩
  · have hshare : 0 ≤ (l - p.x) / (q.x - p.x) :=
      div_nonneg (sub_pos.mpr hpl).le (sub_pos.mpr hpq).le
    rw [interpolate_of_mem hpl.le hlq.le, sub_self, abs_zero]
    exact mul_nonneg hbound hshare
  · rw [interpolate_cons_cons hpq hql.le]
    rcases hlr.lt_or_gt with hlt | hgt
    · rw [interpolate_of_mem hql.le hlt.le]
      exact (h hql).abs_sub_line_le hδ hql hlt
    · rw [interpolate_cons_cons hqr hgt.le]
      exact (h hql).beyond hgt

/-- **Merging** changes the gain at a level by at most the tolerance over the distance that the
knots taken away near it keep. -/
theorem near_mergeFrom (hδ : 0 < δ) (h : (p :: q :: rest).Pairwise fun p q => p.x < q.x)
    (hpl : p.x < l) (haway : ∀ k ∈ q :: rest, l ≠ k.x)
    (hspaced : Spaced δ l (mergeFrom p q rest) {k | k ∈ q :: rest}) :
    Near δ l (mergeFrom p q rest) p q rest := by
  induction rest generalizing p q with
  | nil => exact .pair hδ ((List.pairwise_cons.mp h).1 q List.mem_cons_self) hpl
  | cons r rest ih =>
    obtain ⟨hp, hqrest⟩ := List.pairwise_cons.mp h
    obtain ⟨hq, hrest⟩ := List.pairwise_cons.mp hqrest
    have hpq : p.x < q.x := hp q List.mem_cons_self
    have hqr : q.x < r.x := hq r List.mem_cons_self
    have hlr : l ≠ r.x := haway r (List.mem_cons_of_mem _ List.mem_cons_self)
    have hafter : ∀ k ∈ r :: rest, l ≠ k.x := fun k hk => haway k (List.mem_cons_of_mem _ hk)
    have hspaced' := hspaced.mono (T := {k | k ∈ r :: rest}) fun k hk => List.mem_cons_of_mem _ hk
    by_cases hstraight : isStraight p q r = true
    · rw [mergeFrom, if_pos hstraight] at hspaced hspaced' ⊢
      have hprest : (p :: r :: rest).Pairwise fun p q => p.x < q.x :=
        List.pairwise_cons.mpr ⟨fun k hk => hp k (List.mem_cons_of_mem _ hk), hrest⟩
      refine (ih hprest hpl hafter hspaced').drop hδ hpq hqr hstraight (fun hlt => ?_) hpl hlr
      -- no knot kept separates `q` from a level before `r`
      refine hspaced q List.mem_cons_self (fun k hk hmem => ?_) r
        (List.mem_cons_of_mem _ List.mem_cons_self) hqr
      rcases List.mem_cons.mp ((mergeFrom_sublist p r rest).subset hk) with rfl | hkrest
      · exact (lt_min hpq hpl).not_ge hmem.1
      · exact ((max_lt hqr hlt).trans_le (le_of_mem .lt_levels hrest k hkrest)).not_ge hmem.2
    · rw [mergeFrom, if_neg hstraight] at hspaced' ⊢
      have hrun (hql : q.x < l) : Near δ l (mergeFrom q r rest) q r rest :=
        ih hqrest hql hafter (hspaced'.of_cons (fun k hk => hp k (List.mem_cons_of_mem _ hk)) hpl)
      obtain ⟨k, ks, hkept⟩ := exists_mergeFrom_eq q r rest
      rw [hkept] at hrun ⊢
      exact .keep hδ hpq hqr hpl hlr hrun

variable {points : List (Point ℝ)} {knee : ℝ}

theorem asked_eq (points : List (Point ℝ)) :
    asked points = {k | k ∈ withUnity (atPoints points)} :=
  Set.ext fun _ => mem_withUnity_iff.symm

/-- Points that all lie below 0 dB ask for their own knots, and for unity gain above them. -/
theorem asked_of_neg (h : ∀ p ∈ points, p.input < 0) :
    asked points = {k | k ∈ atPoints points ++ [⟨0, 0⟩]} := by
  have hknots : ∀ k ∈ atPoints points, k.x < 0 := List.forall_mem_map.mpr h
  rw [asked_eq, withUnity_of_neg hknots]

/-- The knots kept after the tail are among those asked for, as merging makes no knots. -/
theorem mem_asked_of_kept {tail : Knot ℝ} (hpoints : points ≠ [])
    (hmerged : mergeStraight (ofPoints knee points) = tail :: ks) :
    ∀ q ∈ ks, q ∈ asked points := by
  obtain ⟨lowest, rest, hknots, hall⟩ := exists_ofPoints_eq knee hpoints
  have hsublist := mergeStraight_sublist (ofPoints knee points)
  obtain ⟨k, kept, hkept⟩ := exists_mergeFrom_eq ⟨lowest.x - 2.0 * knee, lowest.y⟩ lowest rest
  rw [hall, mergeStraight, hkept, List.cons.injEq] at hmerged
  obtain ⟨rfl, rfl⟩ := hmerged
  rw [hall, mergeStraight, hkept, List.cons_sublist_cons, ← hknots] at hsublist
  exact fun q hq => mem_withUnity_iff.mp (hsublist.subset hq)

/-- The knots of a curve, which begin with a tail and are merged, against those asked for. -/
theorem abs_interpolate_mergeStraight_sub_le (hpoints : points ≠ []) (hknee : 0 < knee)
    (hstrict : points.Pairwise fun p q => p.input < q.input) (hδ : 0 < δ)
    (haway : ∀ k ∈ asked points, l ≠ k.x)
    (hspaced : Spaced δ l (mergeStraight (ofPoints knee points)) (asked points)) :
    |interpolate (mergeStraight (ofPoints knee points)) l -
      interpolate (withUnity (atPoints points)) l| ≤ 1e-6 / δ := by
  have hbound : 0 ≤ 1e-6 / δ := by positivity
  have hordered := pairwise_ofPoints .lt_levels hpoints hknee hstrict
  obtain ⟨lowest, rest, hknots, hall⟩ := exists_ofPoints_eq knee hpoints
  rw [asked_eq, hknots] at haway hspaced
  rw [hall, mergeStraight] at hspaced ⊢
  rw [hall] at hordered
  rw [hknots]
  have hlowest := haway lowest List.mem_cons_self
  rcases le_or_gt l (lowest.x - 2.0 * knee) with htail | htail
  · -- below the tail there is nothing but the gain of the lowest knot
    obtain ⟨k, ks, hkept⟩ := exists_mergeFrom_eq ⟨lowest.x - 2.0 * knee, lowest.y⟩ lowest rest
    have hbelow : lowest.x - 2.0 * knee ≤ lowest.x :=
      ((List.pairwise_cons.mp hordered).1 lowest List.mem_cons_self).le
    rw [hkept, interpolate_of_le htail, interpolate_of_le (htail.trans hbelow), sub_self, abs_zero]
    exact hbound
  · have hnear := near_mergeFrom hδ hordered htail haway hspaced
    rcases hlowest.lt_or_gt with hlt | hgt
    · -- the tail is level
      have hlevel : (⟨lowest.x - 2.0 * knee, lowest.y⟩ : Knot ℝ).line lowest l = lowest.y := by
        rw [line, sub_self, zero_div, zero_mul, add_zero]
      have hline := hnear.abs_sub_line_le hδ htail hlt
      rw [interpolate_of_le hlt.le]
      rwa [hlevel] at hline
    · exact hnear.beyond hgt

end Merging

end Compander.Knot
