import Booley.Goals.GoalArgs
import Booley.Simulation.CycleVerdicts
import Mathlib.Data.Finset.Max
import Mathlib.Tactic.FieldSimp

/-!
# Cycle Count bounds that cannot be met

The bounds of one Cycle Count Criterion are refused when a lower one exceeds an upper one. That is
exactly when no two counts pass the absolute bounds, the percentages or the differences, each of
them taken alone: every number between the signed bounds is a change of some counts.
-/
namespace Booley.Simulation

open Booley.Lib Booley.Goals

/-- The bounds that are compared with each other. -/
inductive BoundGroup where
  | absolute
  | relative (unit : CycleUnit)
deriving DecidableEq, Repr

def BoundGroup.holds : BoundGroup → ThresholdParam → Bool
  | .absolute, .cycleCountMax => true
  | .absolute, .cycleCountMin => true
  | .relative unit, .cycleCount _ _ other => unit == other
  | _, _ => false

/-- Cycle Count parameters as they are normalized: counts are natural numbers, percentages are not
negative, and no reduction is greater than the whole. -/
structure CycleCountBounds where
  params : Dict ThresholdParam Rat
  known : ∀ param ∈ params.keys, knownParam .cycleCount param = true
  counts : ∀ param threshold, params.lookup param = some threshold →
    (describeThreshold param).unit = .cycles → ∃ count : Nat, threshold = count
  percents : ∀ param threshold, params.lookup param = some threshold →
    (describeThreshold param).unit = .percent → 0 ≤ threshold
  limit : ∀ threshold, params.lookup (.cycleCount .reduce .atLeast .percent) = some threshold →
    threshold ≤ 100

/-- The evaluator with exact percentages. -/
def exactPercentages (floats : FloatArithmetic) : FloatArithmetic :=
  { floats with cyclePercent := fun delta base => .number ((delta : Rat) / base * 100) }

/-- Some counts pass all the bounds of a group. -/
def Satisfiable (floats : FloatArithmetic) (params : Dict ThresholdParam Rat)
    (group : BoundGroup) : Prop :=
  ∃ current baseline : Nat, 0 < baseline ∧ ∀ param threshold,
    params.lookup param = some threshold → group.holds param = true →
    evaluateCycleThreshold (exactPercentages floats) param threshold
      ⟨some current, some baseline⟩ = true

/-! ## The bounds that normalization leaves -/

section Normalized

variable {floats : FloatArithmetic} {param : ThresholdParam} {value : Authored} {threshold : Rat}

theorem percent_of_normalized (hunit : (describeThreshold param).unit = .percent)
    (h : normalizeThreshold floats .cycleCount param value = .ok threshold) :
    0 ≤ threshold ∧ (param = .cycleCount .reduce .atLeast .percent → threshold ≤ 100) := by
  unfold normalizeThreshold at h
  rw [if_pos hunit] at h
  cases hparsed : parsePercentage floats value with
  | none =>
    rw [hparsed] at h
    cases h
  | some number =>
    rw [hparsed] at h
    dsimp only at h
    split at h
    · cases h
    · next hnegative =>
      split at h
      · cases h
      · next hlimit =>
        cases h
        exact ⟨not_lt.mp hnegative, fun hparam => not_lt.mp fun hlarge =>
          hlimit ⟨hparam, hlarge⟩⟩

theorem count_of_normalized (hunit : (describeThreshold param).unit ≠ .percent)
    (h : normalizeThreshold floats .cycleCount param value = .ok threshold) :
    ∃ count : Nat, threshold = count := by
  unfold normalizeThreshold at h
  rw [if_neg hunit, if_pos rfl] at h
  cases value with
  | int number =>
    dsimp only at h
    split at h
    · cases h
    · next hnegative =>
      cases h
      obtain ⟨count, rfl⟩ := Int.eq_ofNat_of_zero_le (not_lt.mp hnegative)
      exact ⟨count, rfl⟩
  | _ => cases h

/-- Normalization leaves bounds of this kind. -/
theorem exists_cycleCountBounds {params : Dict ThresholdParam Authored}
    {normalized : Dict ThresholdParam Rat}
    (hknown : ∀ param ∈ params.keys, knownParam .cycleCount param = true)
    (h : Dict.mapM (normalizeThreshold floats .cycleCount) params = .ok normalized) :
    ∃ bounds : CycleCountBounds, bounds.params = normalized := by
  refine ⟨⟨normalized, ?_, ?_, ?_, ?_⟩, rfl⟩
  · intro param hparam
    obtain ⟨threshold, hthreshold⟩ := AList.lookup_isSome.mpr (AList.mem_keys.mp hparam) |>
      Option.isSome_iff_exists.mp
    obtain ⟨value, hvalue, -⟩ := (Dict.lookup_mapM h).mp hthreshold
    refine hknown param (AList.mem_keys.mpr (AList.lookup_isSome.mp ?_))
    rw [hvalue]
    rfl
  · intro param threshold hthreshold hunit
    obtain ⟨value, -, hvalue⟩ := (Dict.lookup_mapM h).mp hthreshold
    exact count_of_normalized (by rw [hunit]; decide) hvalue
  · intro param threshold hthreshold hunit
    obtain ⟨value, -, hvalue⟩ := (Dict.lookup_mapM h).mp hthreshold
    exact (percent_of_normalized hunit hvalue).1
  · intro threshold hthreshold
    obtain ⟨value, -, hvalue⟩ := (Dict.lookup_mapM h).mp hthreshold
    exact (percent_of_normalized rfl hvalue).2 rfl

end Normalized

/-! ## Numbers between bounds -/

/-- Finitely many lower bounds that no upper bound is below have a number between them and the upper
ones, one of the bounds where there is any. -/
theorem exists_number_between {α : Type*} [LinearOrder α] (default : α) {lower upper : List α}
    (h : ∀ l ∈ lower, ∀ u ∈ upper, l ≤ u) :
    ∃ x, (∀ l ∈ lower, l ≤ x) ∧ (∀ u ∈ upper, x ≤ u) ∧
      (x = default ∨ x ∈ lower ∨ x ∈ upper) := by
  by_cases hlower : lower.toFinset.Nonempty
  · obtain ⟨x, hx, hgreatest⟩ := lower.toFinset.exists_max_image id hlower
    rw [List.mem_toFinset] at hx
    exact ⟨x, fun l hl => hgreatest l (List.mem_toFinset.mpr hl), h x hx, .inr (.inl hx)⟩
  · have hnone : ∀ l, l ∉ lower := fun l hl => hlower ⟨l, List.mem_toFinset.mpr hl⟩
    by_cases hupper : upper.toFinset.Nonempty
    · obtain ⟨x, hx, hleast⟩ := upper.toFinset.exists_min_image id hupper
      rw [List.mem_toFinset] at hx
      exact ⟨x, fun l hl => absurd hl (hnone l),
        fun u hu => hleast u (List.mem_toFinset.mpr hu), .inr (.inr hx)⟩
    · exact ⟨default, fun l hl => absurd hl (hnone l),
        fun u hu => absurd ⟨u, List.mem_toFinset.mpr hu⟩ hupper, .inl rfl⟩

/-- The change of two counts in one unit. -/
def increaseOf (current baseline : Nat) : CycleUnit → Rat
  | .cycles => changeOf current baseline .increase
  | .percent => percentOf current baseline .increase

/-- Every whole number is a difference of counts. -/
theorem exists_counts_of_int (difference : Int) : ∃ current baseline : Nat, 0 < baseline ∧
    increaseOf current baseline .cycles = difference := by
  refine ⟨(((-difference).toNat : Int) + 1 + difference).toNat, (-difference).toNat + 1,
    Nat.succ_pos _, ?_⟩
  have hcurrent : ((((-difference).toNat : Int) + 1 + difference).toNat : Int) =
      ((-difference).toNat : Int) + 1 + difference := by omega
  have hcast : (((((-difference).toNat : Int) + 1 + difference).toNat : Nat) : Rat) =
      ((-difference).toNat : Rat) + 1 + difference := by
    exact_mod_cast hcurrent
  simp only [increaseOf, changeOf, hcast]
  push_cast
  ring

/-- Every percentage from -100 on is the change of some counts. -/
theorem exists_counts_of_percent {percent : Rat} (h : -100 ≤ percent) :
    ∃ current baseline : Nat, 0 < baseline ∧ increaseOf current baseline .percent = percent := by
  have hden : (0 : Rat) < percent.den := by exact_mod_cast percent.den_pos
  have hnum : (percent.num : Rat) = percent * percent.den := (Rat.mul_den_eq_num percent).symm
  have hle : (0 : Rat) ≤ (100 * percent.den + percent.num : Int) := by
    push_cast
    rw [hnum]
    nlinarith
  have hnonneg : 0 ≤ (100 * percent.den + percent.num : Int) := by exact_mod_cast hle
  refine ⟨(100 * percent.den + percent.num : Int).toNat, 100 * percent.den, by
    have := percent.den_pos; omega, ?_⟩
  have hcast : (((100 * percent.den + percent.num : Int).toNat : Nat) : Rat) =
      100 * percent.den + percent.num := by
    have hint : (((100 * percent.den + percent.num : Int).toNat : Nat) : Int) =
      100 * percent.den + percent.num := Int.toNat_of_nonneg hnonneg
    exact_mod_cast hint
  simp only [increaseOf, percentOf, changeOf, hcast, hnum]
  push_cast
  field_simp
  ring

/-! ## One group of bounds -/

theorem percentExact_exactPercentages (floats : FloatArithmetic) (current baseline : Nat) :
    PercentExact (exactPercentages floats) current baseline := by
  intro _
  simp [exactPercentages, percentOf, changeOf]

/-- A relative bound is a signed bound of the increase. -/
theorem holdsBetween_iff (change : CycleChange) (side : CycleSide) (unit : CycleUnit)
    {current baseline : Nat} (hbaseline : 0 < baseline) (threshold : Rat) :
    HoldsBetween current baseline (.cycleCount change side unit) threshold ↔
      OnSide threshold (signedChange change (increaseOf current baseline unit)) side := by
  cases unit with
  | cycles =>
    have hchange := signedChange_changeOf change current baseline
    push_cast at hchange
    simp only [HoldsBetween, increaseOf, changeOf, hchange]
  | percent =>
    simp only [HoldsBetween, increaseOf, signedChange_percentOf, and_iff_right_iff_imp]
    intro _
    omega

variable {floats : FloatArithmetic} {params : Dict ThresholdParam Rat}

/-- The relative bounds of one unit are met by counts whose increase is between the signed
bounds. -/
theorem passes_relative_iff {unit : CycleUnit} {current baseline : Nat} (hbaseline : 0 < baseline) :
    (∀ param threshold, params.lookup param = some threshold →
      (BoundGroup.relative unit).holds param = true →
      evaluateCycleThreshold (exactPercentages floats) param threshold
        ⟨some current, some baseline⟩ = true) ↔
    (∀ lower ∈ lowerBounds params unit, lower ≤ increaseOf current baseline unit) ∧
      ∀ upper ∈ upperBounds params unit, increaseOf current baseline unit ≤ upper := by
  have hevaluate : ∀ change side threshold,
      evaluateCycleThreshold (exactPercentages floats) (.cycleCount change side unit) threshold
          ⟨some current, some baseline⟩ = true ↔
        OnSide threshold (signedChange change (increaseOf current baseline unit)) side := by
    intro change side threshold
    rw [evaluate_relative (by cases unit <;> rfl) (percentExact_exactPercentages floats _ _),
      holdsBetween_iff change side unit hbaseline]
  constructor
  · intro h
    have hbound : ∀ change side threshold,
        params.lookup (.cycleCount change side unit) = some threshold →
        OnSide threshold (signedChange change (increaseOf current baseline unit)) side := by
      intro change side threshold hthreshold
      exact (hevaluate change side threshold).mp
        (h _ threshold hthreshold (by simp [BoundGroup.holds]))
    constructor
    · intro lower hlower
      rcases List.mem_append.mp hlower with hlower | hlower
      · exact hbound .increase .atLeast lower (Option.mem_toList.mp hlower)
      · obtain ⟨threshold, hthreshold, rfl⟩ := Option.map_eq_some_iff.mp
          (Option.mem_toList.mp hlower)
        have hside := hbound .reduce .atMost threshold hthreshold
        simp only [OnSide, signedChange] at hside
        linarith
    · intro upper hupper
      rcases List.mem_append.mp hupper with hupper | hupper
      · exact hbound .increase .atMost upper (Option.mem_toList.mp hupper)
      · obtain ⟨threshold, hthreshold, rfl⟩ := Option.map_eq_some_iff.mp
          (Option.mem_toList.mp hupper)
        have hside := hbound .reduce .atLeast threshold hthreshold
        simp only [OnSide, signedChange] at hside
        linarith
  · rintro ⟨hlower, hupper⟩ param threshold hthreshold hgroup
    cases param with
    | metric clock metric flavour => cases hgroup
    | cycleCountMax => cases hgroup
    | cycleCountMin => cases hgroup
    | cycleCount change side other =>
      obtain rfl : unit = other := by simpa [BoundGroup.holds] using hgroup
      rw [hevaluate]
      cases change with
      | increase =>
        cases side with
        | atLeast =>
          exact hlower threshold (List.mem_append_left _ (Option.mem_toList.mpr hthreshold))
        | atMost =>
          exact hupper threshold (List.mem_append_left _ (Option.mem_toList.mpr hthreshold))
      | reduce =>
        cases side with
        | atLeast =>
          have hside := hupper (-threshold) (List.mem_append_right _ (Option.mem_toList.mpr
            (Option.map_eq_some_iff.mpr ⟨threshold, hthreshold, rfl⟩)))
          simp only [OnSide, signedChange]
          linarith
        | atMost =>
          have hside := hlower (-threshold) (List.mem_append_right _ (Option.mem_toList.mpr
            (Option.map_eq_some_iff.mpr ⟨threshold, hthreshold, rfl⟩)))
          simp only [OnSide, signedChange]
          linarith

/-- Some lower bound exceeds an upper one. -/
def Contradictory (params : Dict ThresholdParam Rat) : BoundGroup → Prop
  | .absolute => ∃ lower upper, params.lookup .cycleCountMin = some lower ∧
      params.lookup .cycleCountMax = some upper ∧ upper < lower
  | .relative unit => ∃ lower ∈ lowerBounds params unit, ∃ upper ∈ upperBounds params unit,
      upper < lower

theorem validateSignedBounds_eq_ok {unit : CycleUnit} :
    validateSignedBounds params unit = .ok () ↔ ¬ Contradictory params (.relative unit) := by
  unfold validateSignedBounds Contradictory
  split
  · next h =>
    simp only [List.any_eq_true, decide_eq_true_eq] at h
    simp only [reduceCtorEq, false_iff, not_not]
    obtain ⟨lower, hlower, upper, hupper, hlt⟩ := h
    exact ⟨lower, hlower, upper, hupper, hlt⟩
  · next h =>
    simp only [List.any_eq_true, decide_eq_true_eq] at h
    simp only [true_iff]
    rintro ⟨lower, hlower, upper, hupper, hlt⟩
    exact h ⟨lower, hlower, upper, hupper, hlt⟩

theorem validateCycleCountBounds_eq_ok :
    validateCycleCountBounds params = .ok () ↔ ∀ group, ¬ Contradictory params group := by
  have hgroups : (∀ group, ¬ Contradictory params group) ↔ ¬ Contradictory params .absolute ∧
      ¬ Contradictory params (.relative .percent) ∧
      ¬ Contradictory params (.relative .cycles) := by
    constructor
    · exact fun h => ⟨h _, h _, h _⟩
    · rintro ⟨habsolute, hpercent, hcycles⟩ group
      cases group with
      | absolute => exact habsolute
      | relative unit =>
        cases unit with
        | percent => exact hpercent
        | cycles => exact hcycles
  have hrelative : (do
      validateSignedBounds params .percent
      validateSignedBounds params .cycles : Except CriteriaError Unit) = .ok () ↔
      ¬ Contradictory params (.relative .percent) ∧
        ¬ Contradictory params (.relative .cycles) := by
    rw [← validateSignedBounds_eq_ok, ← validateSignedBounds_eq_ok, except_bind_eq_ok]
    constructor
    · rintro ⟨_, hpercent, hcycles⟩
      exact ⟨hpercent, hcycles⟩
    · rintro ⟨hpercent, hcycles⟩
      exact ⟨(), hpercent, hcycles⟩
  rw [hgroups]
  unfold validateCycleCountBounds
  split
  · next lower upper hmin hmax =>
    have habsolute : Contradictory params .absolute ↔ upper < lower := by
      constructor
      · rintro ⟨l, u, hl, hu, hlt⟩
        cases hmin.symm.trans hl
        cases hmax.symm.trans hu
        exact hlt
      · exact fun hlt => ⟨lower, upper, hmin, hmax, hlt⟩
    rw [habsolute]
    split
    · next hlt => simp [hlt]
    · next hlt => rw [hrelative, and_iff_right hlt]
  · next hnone =>
    have habsolute : ¬ Contradictory params .absolute := by
      rintro ⟨lower, upper, hmin, hmax, -⟩
      exact hnone lower upper hmin hmax
    rw [hrelative, and_iff_right habsolute]

theorem satisfiable_absolute_iff (bounds : CycleCountBounds) :
    Satisfiable floats bounds.params .absolute ↔ ¬ Contradictory bounds.params .absolute := by
  constructor
  · rintro ⟨current, baseline, -, hpasses⟩ ⟨lower, upper, hmin, hmax, hlt⟩
    have hlower := (evaluate_absolute rfl).mp (hpasses .cycleCountMin lower hmin rfl)
    have hupper := (evaluate_absolute rfl).mp (hpasses .cycleCountMax upper hmax rfl)
    exact absurd (le_trans hlower hupper) (not_le.mpr hlt)
  · intro hconsistent
    -- the least count that is allowed from below
    obtain ⟨current, hleast⟩ : ∃ current : Nat,
        (bounds.params.lookup .cycleCountMin).getD 0 = current := by
      cases hmin : bounds.params.lookup .cycleCountMin with
      | none => exact ⟨0, by simp⟩
      | some lower => exact bounds.counts _ lower hmin rfl
    refine ⟨current, 1, Nat.one_pos, fun param threshold hthreshold hgroup => ?_⟩
    cases param with
    | metric clock metric flavour => cases hgroup
    | cycleCount change side unit => cases hgroup
    | cycleCountMin =>
      rw [hthreshold, Option.getD_some] at hleast
      exact (evaluate_absolute rfl).mpr (le_of_eq hleast)
    | cycleCountMax =>
      refine (evaluate_absolute rfl).mpr ?_
      change (current : Rat) ≤ threshold
      rw [← hleast]
      cases hmin : bounds.params.lookup .cycleCountMin with
      | none =>
        obtain ⟨count, rfl⟩ := bounds.counts _ threshold hthreshold rfl
        exact Nat.cast_nonneg count
      | some lower =>
        by_contra hlarge
        exact hconsistent ⟨lower, threshold, hmin, hthreshold, not_le.mp hlarge⟩

/-- A signed bound of one unit is a threshold or its negation. -/
theorem exists_threshold_of_bound {unit : CycleUnit} {bound : Rat}
    (h : bound ∈ lowerBounds params unit ∨ bound ∈ upperBounds params unit) :
    ∃ change side threshold, params.lookup (.cycleCount change side unit) = some threshold ∧
      bound = signedChange change threshold := by
  rcases h with h | h
  · rcases List.mem_append.mp h with h | h
    · exact ⟨.increase, .atLeast, bound, Option.mem_toList.mp h, rfl⟩
    · obtain ⟨threshold, hthreshold, rfl⟩ := Option.map_eq_some_iff.mp (Option.mem_toList.mp h)
      exact ⟨.reduce, .atMost, threshold, hthreshold, rfl⟩
  · rcases List.mem_append.mp h with h | h
    · exact ⟨.increase, .atMost, bound, Option.mem_toList.mp h, rfl⟩
    · obtain ⟨threshold, hthreshold, rfl⟩ := Option.map_eq_some_iff.mp (Option.mem_toList.mp h)
      exact ⟨.reduce, .atLeast, threshold, hthreshold, rfl⟩

/-- No upper bound asks for a reduction by more than the whole. -/
theorem upper_ge (bounds : CycleCountBounds) {upper : Rat}
    (h : upper ∈ upperBounds bounds.params .percent) : -100 ≤ upper := by
  rcases List.mem_append.mp h with h | h
  · have := bounds.percents _ upper (Option.mem_toList.mp h) rfl
    linarith
  · obtain ⟨threshold, hthreshold, rfl⟩ := Option.map_eq_some_iff.mp (Option.mem_toList.mp h)
    have := bounds.limit threshold hthreshold
    linarith

theorem exists_increase_between (bounds : CycleCountBounds) {unit : CycleUnit}
    (h : ¬ Contradictory bounds.params (.relative unit)) :
    ∃ current baseline : Nat, 0 < baseline ∧
      (∀ lower ∈ lowerBounds bounds.params unit, lower ≤ increaseOf current baseline unit) ∧
      ∀ upper ∈ upperBounds bounds.params unit, increaseOf current baseline unit ≤ upper := by
  have hle : ∀ lower ∈ lowerBounds bounds.params unit, ∀ upper ∈ upperBounds bounds.params unit,
      lower ≤ upper := by
    intro lower hlower upper hupper
    by_contra hlt
    exact h ⟨lower, hlower, upper, hupper, not_le.mp hlt⟩
  cases unit with
  | cycles =>
    obtain ⟨x, hlower, hupper, hx⟩ := exists_number_between 0 hle
    have hwhole : ∃ difference : Int, x = difference := by
      rcases hx with rfl | hx
      · exact ⟨0, by simp⟩
      · obtain ⟨change, side, threshold, hthreshold, rfl⟩ := exists_threshold_of_bound hx
        obtain ⟨count, rfl⟩ := bounds.counts _ threshold hthreshold rfl
        cases change with
        | increase => exact ⟨count, by simp [signedChange]⟩
        | reduce => exact ⟨-count, by simp [signedChange]⟩
    obtain ⟨difference, rfl⟩ := hwhole
    obtain ⟨current, baseline, hbaseline, hincrease⟩ := exists_counts_of_int difference
    rw [← hincrease] at hlower hupper
    exact ⟨current, baseline, hbaseline, hlower, hupper⟩
  | percent =>
    have hall : ∀ lower ∈ -100 :: lowerBounds bounds.params .percent,
        ∀ upper ∈ upperBounds bounds.params .percent, lower ≤ upper := by
      intro lower hlower upper hupper
      rcases List.mem_cons.mp hlower with rfl | hlower
      · exact upper_ge bounds hupper
      · exact hle lower hlower upper hupper
    obtain ⟨x, hlower, hupper, -⟩ := exists_number_between 0 hall
    obtain ⟨current, baseline, hbaseline, hincrease⟩ :=
      exists_counts_of_percent (hlower _ List.mem_cons_self)
    rw [← hincrease] at hlower hupper
    exact ⟨current, baseline, hbaseline, fun lower hmem =>
      hlower lower (List.mem_cons_of_mem _ hmem), hupper⟩

/-- A group of bounds can be met exactly when no lower bound exceeds an upper one. -/
theorem satisfiable_iff (bounds : CycleCountBounds) (group : BoundGroup) :
    Satisfiable floats bounds.params group ↔ ¬ Contradictory bounds.params group := by
  cases group with
  | absolute => exact satisfiable_absolute_iff bounds
  | relative unit =>
    constructor
    · rintro ⟨current, baseline, hbaseline, hpasses⟩ ⟨lower, hlower, upper, hupper, hlt⟩
      have hbetween := (passes_relative_iff hbaseline).mp hpasses
      exact absurd (le_trans (hbetween.1 lower hlower) (hbetween.2 upper hupper))
        (not_le.mpr hlt)
    · intro hconsistent
      obtain ⟨current, baseline, hbaseline, hbetween⟩ := exists_increase_between bounds hconsistent
      exact ⟨current, baseline, hbaseline, (passes_relative_iff hbaseline).mpr hbetween⟩

/-- Cycle Count bounds are refused if and only if the absolute ones, the percentages or the
differences cannot be met by any counts. -/
theorem cycle_bounds_refused_iff (floats : FloatArithmetic) (bounds : CycleCountBounds) :
    (∃ error, validateCycleCountBounds bounds.params = .error error) ↔
      ∃ group, ¬ Satisfiable floats bounds.params group := by
  have hrefused : (∃ error, validateCycleCountBounds bounds.params = .error error) ↔
      ¬ validateCycleCountBounds bounds.params = .ok () := by
    cases validateCycleCountBounds bounds.params with
    | error error => simp
    | ok result => simp
  rw [hrefused, validateCycleCountBounds_eq_ok]
  simp only [satisfiable_iff, not_not, not_forall]

end Booley.Simulation
