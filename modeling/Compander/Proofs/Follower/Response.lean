import Compander.Proofs.Exact.Reals
import Compander.Proofs.Follower.History

/-!
# How a follower responds

With coefficients between zero and one and exact arithmetic, a follower goes a part of the way to
what it hears. So it never goes too far, a louder sound never leaves it lower, and what it started
from is forgotten at least as fast as its slower coefficient says:

* `Follower.hear_between` — a step ends between the volume before it and the sample;
* `Follower.hear_le_hear`, `Follower.abs_hear_sub_hear_le` — two followers that hear one sample;
* `Follower.volumes_response` — the same for runs.

Which of the two coefficients is used hangs on whether the sample is louder than the volume, and
two followers that hear the same sample may differ in that. Then the volume of one goes up and that
of the other comes down, and the sample lies between them; this is the only case that does not
follow from a step being a weighted mean.
-/

namespace Compander.Follower

/-- The coefficients of a follower are parts of the way. -/
structure IsPartial (f : Follower ℝ) : Prop where
  /-- none of the way up is the least -/
  attack_nonneg : 0 ≤ f.attack
  /-- all of the way up is the most -/
  attack_le_one : f.attack ≤ 1
  /-- none of the way down is the least -/
  decay_nonneg : 0 ≤ f.decay
  /-- all of the way down is the most -/
  decay_le_one : f.decay ≤ 1

/-- Two followers have the same coefficients. -/
structure Alike (f g : Follower ℝ) : Prop where
  /-- they rise alike -/
  attack_eq : f.attack = g.attack
  /-- they fall alike -/
  decay_eq : f.decay = g.decay

variable {f g : Follower ℝ}

theorem Alike.symm (h : f.Alike g) : g.Alike f :=
  ⟨h.attack_eq.symm, h.decay_eq.symm⟩

theorem Alike.isPartial (h : f.Alike g) (hf : f.IsPartial) : g.IsPartial :=
  ⟨h.attack_eq ▸ hf.attack_nonneg, h.attack_eq ▸ hf.attack_le_one, h.decay_eq ▸ hf.decay_nonneg,
    h.decay_eq ▸ hf.decay_le_one⟩

/-- Followers keep their coefficients, whatever they hear. -/
theorem alike_hear (f : Follower ℝ) (x : ℝ) : f.Alike (f.hear x) :=
  ⟨rfl, rfl⟩

theorem Alike.hear (h : f.Alike g) (x y : ℝ) : (f.hear x).Alike (g.hear y) :=
  ⟨h.attack_eq, h.decay_eq⟩

theorem IsPartial.after (hf : f.IsPartial) (samples : List ℝ) : (f.after samples).IsPartial := by
  induction samples generalizing f with
  | nil => exact hf
  | cons x rest ih => exact ih ((alike_hear f x).isPartial hf)

/-! ## One step -/

/-- A louder sample pulls the volume up, by the share of the difference that the attack is. -/
theorem hear_of_lt {x : ℝ} (h : f.volume < |x|) :
    (f.hear x).volume = f.volume + (|x| - f.volume) * f.attack := by
  have hrise : (0.0 : ℝ) < |x| - f.volume := by
    norm_num
    exact h
  change f.volume +
    (|x| - f.volume) * (if (0.0 : ℝ) < |x| - f.volume then f.attack else f.decay) = _
  rw [if_pos hrise]

/-- Any other sample lets it fall, by the share of the difference that the decay is. -/
theorem hear_of_le {x : ℝ} (h : |x| ≤ f.volume) :
    (f.hear x).volume = f.volume + (|x| - f.volume) * f.decay := by
  have hrise : ¬(0.0 : ℝ) < |x| - f.volume := by
    norm_num
    exact h
  change f.volume +
    (|x| - f.volume) * (if (0.0 : ℝ) < |x| - f.volume then f.attack else f.decay) = _
  rw [if_neg hrise]

/-- Between the volume and a louder sample is where the attack ends. -/
theorem hear_mem_of_lt (hf : f.IsPartial) {x : ℝ} (h : f.volume < |x|) :
    f.volume ≤ (f.hear x).volume ∧ (f.hear x).volume ≤ |x| := by
  have hway : 0 ≤ |x| - f.volume := sub_nonneg.mpr h.le
  have hsome := mul_nonneg hway hf.attack_nonneg
  have hall := mul_le_of_le_one_right hway hf.attack_le_one
  rw [hear_of_lt h]
  constructor <;> linarith

/-- Between another sample and the volume is where the decay ends. -/
theorem hear_mem_of_le (hf : f.IsPartial) {x : ℝ} (h : |x| ≤ f.volume) :
    |x| ≤ (f.hear x).volume ∧ (f.hear x).volume ≤ f.volume := by
  have hway : |x| - f.volume ≤ 0 := sub_nonpos.mpr h
  have hsome := mul_nonpos_of_nonpos_of_nonneg hway hf.decay_nonneg
  have hall := mul_le_mul_of_nonpos_left hf.decay_le_one hway
  rw [hear_of_le h]
  constructor <;> linarith

/-- A step does not go too far: it ends between the volume and the sample, ends included. -/
theorem hear_between (hf : f.IsPartial) (x : ℝ) :
    (f.hear x).volume ∈ Set.uIcc f.volume |x| := by
  rcases lt_or_ge f.volume |x| with h | h
  · exact Set.mem_uIcc_of_le (hear_mem_of_lt hf h).1 (hear_mem_of_lt hf h).2
  · exact Set.mem_uIcc_of_ge (hear_mem_of_le hf h).1 (hear_mem_of_le hf h).2

/-- A higher volume and a louder sample do not leave a follower lower, by cases on who
attacks. -/
theorem hear_le_hear (hf : f.IsPartial) (h : f.Alike g) (hvolume : f.volume ≤ g.volume) {x y : ℝ}
    (hxy : |x| ≤ |y|) : (f.hear x).volume ≤ (g.hear y).volume := by
  have hg : g.IsPartial := h.isPartial hf
  rcases lt_or_ge f.volume |x| with hx | hx <;> rcases lt_or_ge g.volume |y| with hy | hy
  · -- both rise: the volumes and the samples are weighed alike
    have hvolumes := mul_le_mul_of_nonneg_right hvolume (sub_nonneg.mpr hf.attack_le_one)
    have hsamples := mul_le_mul_of_nonneg_right hxy hf.attack_nonneg
    rw [hear_of_lt hx, hear_of_lt hy, ← h.attack_eq]
    linarith
  · -- one rises to its sample at most, the other falls to its own at most
    exact (hear_mem_of_lt hf hx).2.trans (hxy.trans (hear_mem_of_le hg hy).1)
  · -- one falls, the other rises
    exact (hear_mem_of_le hf hx).2.trans (hvolume.trans (hear_mem_of_lt hg hy).1)
  · -- both fall
    have hvolumes := mul_le_mul_of_nonneg_right hvolume (sub_nonneg.mpr hf.decay_le_one)
    have hsamples := mul_le_mul_of_nonneg_right hxy hf.decay_nonneg
    rw [hear_of_le hx, hear_of_le hy, ← h.decay_eq]
    linarith

/-- Two volumes come closer by the lesser coefficient at least, of which the greater volume is
the one that tells. -/
theorem hear_sub_hear_le (h : f.Alike g) (hvolume : f.volume ≤ g.volume) (x : ℝ) :
    (g.hear x).volume - (f.hear x).volume ≤
      (1 - min f.attack f.decay) * (g.volume - f.volume) := by
  have hattack : min f.attack f.decay ≤ f.attack := min_le_left _ _
  have hdecay : min f.attack f.decay ≤ f.decay := min_le_right _ _
  rcases lt_or_ge g.volume |x| with hg | hg
  · -- both rise
    have hless := mul_le_mul_of_nonneg_right hattack (sub_nonneg.mpr hvolume)
    rw [hear_of_lt hg, hear_of_lt (hvolume.trans_lt hg), ← h.attack_eq]
    linarith
  · rcases lt_or_ge f.volume |x| with hf | hf
    · -- they meet from two sides, each on its own part of the way between them
      have hup := mul_le_mul_of_nonneg_right hattack (sub_nonneg.mpr hf.le)
      have hdown := mul_le_mul_of_nonneg_right hdecay (sub_nonneg.mpr hg)
      rw [hear_of_le hg, hear_of_lt hf, ← h.decay_eq]
      linarith
    · -- both fall
      have hless := mul_le_mul_of_nonneg_right hdecay (sub_nonneg.mpr hvolume)
      rw [hear_of_le hg, hear_of_le hf, ← h.decay_eq]
      linarith

theorem abs_hear_sub_hear_le (hf : f.IsPartial) (h : f.Alike g) (x : ℝ) :
    |(f.hear x).volume - (g.hear x).volume| ≤
      (1 - min f.attack f.decay) * |f.volume - g.volume| := by
  rcases le_total f.volume g.volume with hvolume | hvolume
  · rw [abs_sub_comm, abs_of_nonneg (sub_nonneg.mpr (hear_le_hear hf h hvolume le_rfl)),
      abs_sub_comm, abs_of_nonneg (sub_nonneg.mpr hvolume)]
    exact hear_sub_hear_le h hvolume x
  · rw [abs_of_nonneg (sub_nonneg.mpr (hear_le_hear (h.isPartial hf) h.symm hvolume le_rfl)),
      abs_of_nonneg (sub_nonneg.mpr hvolume), h.attack_eq, h.decay_eq]
    exact hear_sub_hear_le h.symm hvolume x

/-! ## Runs -/

/-- Nothing that a follower started from or heard is lower than a bound, so neither is its
volume. -/
theorem foldl_min_le_after (hf : f.IsPartial) {least : ℝ} (hleast : least ≤ f.volume)
    (samples : List ℝ) :
    samples.foldl (fun least x => min least |x|) least ≤ (f.after samples).volume := by
  induction samples generalizing f least with
  | nil => exact hleast
  | cons x rest ih =>
    refine ih ((alike_hear f x).isPartial hf) ?_
    exact (min_le_min_right _ hleast).trans (hear_between hf x).1

/-- Nothing that a follower started from or heard is higher than a bound, so neither is its
volume. -/
theorem after_le_foldl_max (hf : f.IsPartial) {most : ℝ} (hmost : f.volume ≤ most)
    (samples : List ℝ) :
    (f.after samples).volume ≤ samples.foldl (fun most x => max most |x|) most := by
  induction samples generalizing f most with
  | nil => exact hmost
  | cons x rest ih =>
    refine ih ((alike_hear f x).isPartial hf) ?_
    exact (hear_between hf x).2.trans (max_le_max_right _ hmost)

/-- A higher start and louder samples never leave a follower lower, at no sample of the
run. -/
theorem volumes_le_volumes (hf : f.IsPartial) (h : f.Alike g) (hvolume : f.volume ≤ g.volume)
    {samples others : List ℝ} (hlouder : List.Forall₂ (fun x y => |x| ≤ |y|) samples others) :
    List.Forall₂ (· ≤ ·) (f.volumes samples) (g.volumes others) := by
  induction hlouder generalizing f g with
  | nil => exact .nil
  | cons hxy _ ih =>
    have hstep := hear_le_hear hf h hvolume hxy
    exact .cons hstep (ih ((alike_hear f _).isPartial hf) (h.hear _ _) hstep)

/-- What a follower started from is forgotten step by step, at a rate that does not depend on
the samples. -/
theorem abs_after_sub_after_le (hf : f.IsPartial) (h : f.Alike g) (samples : List ℝ) :
    |(f.after samples).volume - (g.after samples).volume| ≤
      (1 - min f.attack f.decay) ^ samples.length * |f.volume - g.volume| := by
  induction samples generalizing f g with
  | nil => simp [after]
  | cons x rest ih =>
    have hkept : 0 ≤ 1 - min f.attack f.decay :=
      sub_nonneg.mpr ((min_le_left _ _).trans hf.attack_le_one)
    calc |((f.hear x).after rest).volume - ((g.hear x).after rest).volume|
        ≤ (1 - min f.attack f.decay) ^ rest.length * |(f.hear x).volume - (g.hear x).volume| :=
          ih ((alike_hear f x).isPartial hf) (h.hear x x)
      _ ≤ (1 - min f.attack f.decay) ^ rest.length *
            ((1 - min f.attack f.decay) * |f.volume - g.volume|) :=
          mul_le_mul_of_nonneg_left (abs_hear_sub_hear_le hf h x) (pow_nonneg hkept _)
      _ = (1 - min f.attack f.decay) ^ (x :: rest).length * |f.volume - g.volume| := by
          rw [List.length_cons, pow_succ, mul_assoc]

/-- **The response of a follower.** With coefficients between zero and one, in exact arithmetic:
each step of a run ends between the volume before it and the sample, and so the volume stays between
the least and the greatest of where it started and what was heard; a higher start and louder samples
lead to volumes that are nowhere lower; and two volumes come together at least as fast as the lesser
coefficient says. -/
theorem volumes_response (hf : f.IsPartial) :
    (∀ (heard : List ℝ) (x : ℝ),
      ((f.after heard).hear x).volume ∈ Set.uIcc (f.after heard).volume |x|) ∧
    (∀ heard : List ℝ,
      heard.foldl (fun least x => min least |x|) f.volume ≤ (f.after heard).volume ∧
      (f.after heard).volume ≤ heard.foldl (fun most x => max most |x|) f.volume) ∧
    ∀ g : Follower ℝ, f.Alike g →
      (f.volume ≤ g.volume → ∀ heard louder : List ℝ,
        List.Forall₂ (fun x y => |x| ≤ |y|) heard louder →
          List.Forall₂ (· ≤ ·) (f.volumes heard) (g.volumes louder)) ∧
      ∀ heard : List ℝ, |(f.after heard).volume - (g.after heard).volume| ≤
        (1 - min f.attack f.decay) ^ heard.length * |f.volume - g.volume| := by
  refine ⟨fun heard => hear_between (hf.after heard), fun heard => ?_, fun g h => ?_⟩
  · exact ⟨foldl_min_le_after hf le_rfl heard, after_le_foldl_max hf le_rfl heard⟩
  · exact ⟨fun hvolume _ _ => volumes_le_volumes hf h hvolume, abs_after_sub_after_le hf h⟩

/-- A fast attack and a slow decay, with a loud sample and a quiet one after it; and a follower that
starts higher and hears more. -/
theorem volumes_response_of_two_samples :
    let f : Follower ℝ := ⟨1 / 2, 1 / 4, 0⟩
    let g : Follower ℝ := ⟨1 / 2, 1 / 4, 1⟩
    f.IsPartial ∧ f.Alike g ∧ f.volume ≤ g.volume ∧
      List.Forall₂ (fun x y : ℝ => |x| ≤ |y|) [1 / 2, 0] [-1, 1 / 2] ∧
      List.Forall₂ (· ≤ ·) (f.volumes [1 / 2, 0]) (g.volumes [-1, 1 / 2]) ∧
      |(f.after [1 / 2, 0]).volume - (g.after [1 / 2, 0]).volume| ≤ (3 / 4) ^ 2 * 1 := by
  intro f g
  have hf : f.IsPartial := by constructor <;> norm_num [f]
  have h : f.Alike g := ⟨rfl, rfl⟩
  have hvolume : f.volume ≤ g.volume := by norm_num [f, g]
  have hlouder : List.Forall₂ (fun x y : ℝ => |x| ≤ |y|) [1 / 2, 0] [-1, 1 / 2] := by
    refine .cons ?_ (.cons ?_ .nil) <;> norm_num [abs_of_pos, abs_of_neg]
  obtain ⟨hlevels, hclose⟩ := (volumes_response hf).2.2 g h
  refine ⟨hf, h, hvolume, hlouder, hlevels hvolume _ _ hlouder, ?_⟩
  have hbound := hclose [1 / 2, 0]
  norm_num [f, g] at hbound ⊢
  exact hbound

end Compander.Follower
