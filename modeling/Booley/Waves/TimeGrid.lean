import Mathlib.Data.Rat.Floor
import Mathlib.Tactic.Ring
import Mathlib.Tactic.Linarith

/-!
# Cycles and ticks

Query times are cycles of a sampled clock, simulation ticks or physical times. Cycle 1 starts at
the first rising edge of the clock grid that is not before the end of reset. Ticks are unsigned
64-bit numbers and the resolved times are signed ones.
-/
namespace Booley.Waves

/-- The number of unsigned ticks. -/
def tickLimit : Nat := 18446744073709551616

/-- The number of unsigned 128-bit numbers. -/
def wideLimit : Nat := 340282366920938463463374607431768211456

def checkedWide (n : Nat) : Option Nat := if n < wideLimit then some n else none

theorem checkedWide_eq {n : Nat} (h : n < wideLimit) : checkedWide n = some n := if_pos h

/-- A product of unsigned 64-bit numbers fits 128 bits. -/
theorem mul_lt_wideLimit {m n : Nat} (hm : m < tickLimit) (hn : n ≤ tickLimit) :
    m * n < wideLimit := by
  have hprod : m * n ≤ (tickLimit - 1) * tickLimit := Nat.mul_le_mul (by omega) hn
  simp only [tickLimit] at hprod
  simp only [wideLimit]
  omega

/-- The number fits 64 signed bits. -/
def inI64 (n : Int) : Bool := -9223372036854775808 ≤ n ∧ n ≤ 9223372036854775807

/-- The number fits 128 signed bits. -/
def inI128 (n : Int) : Bool :=
  -170141183460469231731687303715884105728 ≤ n ∧ n ≤ 170141183460469231731687303715884105727

/-! ## The clock grid -/

def tickToCycle (tick cycleBaseTick clockPeriod : Nat) : Nat :=
  if clockPeriod = 0 ∨ tick < cycleBaseTick then 0
  else ((tick - cycleBaseTick) / clockPeriod + 1) % tickLimit

/-- The first tick of the clock grid at or after the effective start. -/
def checkedCycleBase (firstRise period effectiveStart : Nat) : Except String Nat :=
  if period = 0 then .ok effectiveStart
  else if effectiveStart ≤ firstRise then .ok firstRise
  else
    let elapsed := effectiveStart - firstRise
    let aligned := firstRise + elapsed / period * period
    if effectiveStart ≤ aligned then .ok aligned
    else if aligned + period < tickLimit then .ok (aligned + period)
    else .error "cycle base is beyond simulation tick range"

/-- The base that queries use: one that is beyond the ticks is the last tick. -/
def cycleBase (firstRise period effectiveStart : Nat) : Nat :=
  match checkedCycleBase firstRise period effectiveStart with
  | .ok base => base
  | .error _ => tickLimit - 1

/-! ## Physical times -/

inductive TimeToken where
  | cycle (n : Int)
  | tick (n : Int)
  | pico (n : Int)
  | nano (n : Int)
  | micro (n : Int)
  | milli (n : Int)
  deriving DecidableEq, Repr

/-- A power of ten that fits 128 signed bits. -/
def checkedPow10 (exponent : Nat) : Option Int :=
  if inI128 (Nat.pow 10 exponent : Nat) then some (Nat.pow 10 exponent : Nat) else none

/-- A physical value in ticks, without the fraction of one. -/
def scaleTime (value unit exponent : Int) : Except String Int :=
  if value = 0 then .ok 0
  else if 0 ≤ unit - exponent then
    match checkedPow10 (unit - exponent).toNat with
    | none => .error "resolved time exceeds tick bounds"
    | some factor =>
      if inI128 (value * factor) then .ok (value * factor)
      else .error "resolved time exceeds tick bounds"
  else
    match checkedPow10 (exponent - unit).toNat with
    | some divisor => .ok (value / divisor)
    | none => .ok (if value < 0 then -1 else 0)

/-- A physical value in signed ticks. -/
def physicalTick (timescaleExponent : Option Int) (value unit : Int) : Except String Int :=
  match timescaleExponent with
  | none => .error "no VCD timescale available"
  | some exponent =>
    match scaleTime value unit exponent with
    | .error text => .error text
    | .ok tick =>
      if inI64 tick then .ok tick else .error "resolved time exceeds signed tick bounds"

def resolveToTick (token : TimeToken) (timescaleExponent : Option Int) : Except String Int :=
  match token with
  | .tick n => .ok n
  | .cycle _ => .error "cycle token requires clock-aware resolution"
  | .pico n => physicalTick timescaleExponent n (-12)
  | .nano n => physicalTick timescaleExponent n (-9)
  | .micro n => physicalTick timescaleExponent n (-6)
  | .milli n => physicalTick timescaleExponent n (-3)

/-! ## Resolution -/

/-- What resolution reads of the store and of the query. -/
structure Clock where
  firstRise : Nat
  period : Nat
  timescaleExponent : Option Int
  /-- The tick at which the reset is found to be released. -/
  resetDeassert : Option Nat
  withReset : Bool
  asyncMode : Bool

def Clock.effectiveStart (clock : Clock) : Nat :=
  if clock.withReset then 0 else clock.resetDeassert.getD 0

/-- The tick of a counted cycle. -/
def cycleTick (clock : Clock) (n : Int) : Except String Int :=
  if n = 0 then
    if inI64 clock.effectiveStart then .ok clock.effectiveStart
    else .error "cycle time is beyond signed tick range"
  else
    match checkedCycleBase clock.firstRise clock.period clock.effectiveStart with
    | .error text => .error text
    | .ok base =>
      let offset := (n.toNat - 1) * clock.period
      if offset < tickLimit ∧ base + offset < tickLimit then
        if inI64 (base + offset : Nat) then .ok (base + offset : Nat)
        else .error "cycle time is beyond signed tick range"
      else .error "cycle time is beyond simulation tick range"

/-- The cycle of a tick or a physical time. -/
def tickCycle (clock : Clock) (token : TimeToken) : Except String Int :=
  match checkedCycleBase clock.firstRise clock.period clock.effectiveStart with
  | .error text => .error text
  | .ok base =>
    match resolveToTick token clock.timescaleExponent with
    | .error text => .error text
    | .ok tick =>
      if tick < 0 then .ok 0
      else
        let cycle := tickToCycle tick.toNat base clock.period
        if inI64 cycle then .ok cycle else .error "cycle number is beyond signed range"

def resolveTimeToken (clock : Clock) (token : TimeToken) : Except String Int :=
  match token with
  | .cycle n =>
    if !clock.asyncMode then .ok n
    else if n < 0 then .error "cycle-token must be nonnegative"
    else if clock.period = 0 then .error "cannot resolve cycle-token to tick: no clock detected"
    else cycleTick clock n
  | other =>
    if clock.asyncMode then resolveToTick other clock.timescaleExponent
    else if clock.period = 0 then .error "cannot resolve time-token to cycle: no clock detected"
    else tickCycle clock other

/-! ## The exact grid -/

/-- The least tick of the grid that is not before the start. -/
structure LeastGridTick (firstRise period start tick : Nat) : Prop where
  onGrid : ∃ k, tick = firstRise + k * period
  notBefore : start ≤ tick
  least : ∀ k, start ≤ firstRise + k * period → tick ≤ firstRise + k * period

/-- Cycle 0 is the time before the base, and every later cycle is one period long. -/
def InCycle (base period : Nat) (tick cycle : Int) : Prop :=
  (cycle = 0 ∧ tick < base) ∨
    (1 ≤ cycle ∧ base + (cycle - 1) * period ≤ tick ∧ tick < base + cycle * period)

/-- A value times a power of ten, as a number of ticks. -/
def scaledTick (value unit exponent : Int) : Rat :=
  if exponent ≤ unit then ((value * (Nat.pow 10 (unit - exponent).toNat : Nat) : Int) : Rat)
  else (value : Rat) / ((Nat.pow 10 (exponent - unit).toNat : Nat) : Rat)

/-- The rational tick of a tick or a physical time. -/
def exactTick (timescaleExponent : Option Int) : TimeToken → Option Rat
  | .tick n => some (n : Rat)
  | .cycle _ => none
  | .pico n => timescaleExponent.map (scaledTick n (-12))
  | .nano n => timescaleExponent.map (scaledTick n (-9))
  | .micro n => timescaleExponent.map (scaledTick n (-6))
  | .milli n => timescaleExponent.map (scaledTick n (-3))

def TimeToken.count : TimeToken → Int
  | .cycle n => n
  | .tick n => n
  | .pico n => n
  | .nano n => n
  | .micro n => n
  | .milli n => n

/-! ## The base of the grid -/

theorem LeastGridTick.unique {firstRise period start left right : Nat}
    (hleft : LeastGridTick firstRise period start left)
    (hright : LeastGridTick firstRise period start right) : left = right := by
  obtain ⟨i, hi⟩ := hleft.onGrid
  obtain ⟨j, hj⟩ := hright.onGrid
  have hle := hleft.least j (hj ▸ hright.notBefore)
  have hge := hright.least i (hi ▸ hleft.notBefore)
  omega

/-- The base is computed exactly, and refused only when it is beyond the ticks. -/
theorem checkedCycleBase_spec {firstRise period start : Nat} (hperiod : 0 < period)
    (hrise : firstRise < tickLimit) (hstart : start < tickLimit) :
    ∃ base, LeastGridTick firstRise period start base ∧
      checkedCycleBase firstRise period start =
        if base < tickLimit then .ok base
        else .error "cycle base is beyond simulation tick range" := by
  have hzero : ¬ period = 0 := by omega
  by_cases hearly : start ≤ firstRise
  · refine ⟨firstRise, ⟨⟨0, by omega⟩, hearly, fun k _ => Nat.le_add_right _ _⟩, ?_⟩
    rw [checkedCycleBase, if_neg hzero, if_pos hearly, if_pos hrise]
  · obtain ⟨quotient, hquotient⟩ : ∃ quotient, quotient = (start - firstRise) / period := ⟨_, rfl⟩
    have hbelow : quotient * period ≤ start - firstRise := by
      rw [hquotient]
      exact Nat.div_mul_le_self _ _
    have habove : start - firstRise < (quotient + 1) * period := by
      rw [hquotient, Nat.mul_comm]
      exact Nat.lt_mul_div_succ _ hperiod
    have hnext : (quotient + 1) * period = quotient * period + period := by ring
    have hgrid : ∀ k, start ≤ firstRise + k * period → quotient * period < start - firstRise →
        quotient + 1 ≤ k := by
      intro k hk hless
      by_contra hsmall
      have hle : k * period ≤ quotient * period := Nat.mul_le_mul_right _ (by omega)
      omega
    by_cases haligned : start ≤ firstRise + quotient * period
    · refine ⟨firstRise + quotient * period, ⟨⟨quotient, rfl⟩, haligned, fun k hk => ?_⟩, ?_⟩
      · omega
      · simp only [checkedCycleBase, if_neg hzero, if_neg hearly, ← hquotient, if_pos haligned]
        rw [if_pos (by omega)]
    · refine ⟨firstRise + quotient * period + period, ⟨⟨quotient + 1, by rw [hnext]; omega⟩,
        by omega, fun k hk => ?_⟩, ?_⟩
      · have hle : (quotient + 1) * period ≤ k * period :=
          Nat.mul_le_mul_right _ (hgrid k hk (by omega))
        omega
      · simp only [checkedCycleBase, if_neg hzero, if_neg hearly, ← hquotient, if_neg haligned]

theorem checkedCycleBase_iff {firstRise period start : Nat} (hperiod : 0 < period)
    (hrise : firstRise < tickLimit) (hstart : start < tickLimit) (base : Nat) :
    checkedCycleBase firstRise period start = .ok base ↔
      LeastGridTick firstRise period start base ∧ base < tickLimit := by
  obtain ⟨least, hleast, hresult⟩ := checkedCycleBase_spec hperiod hrise hstart
  rw [hresult]
  constructor
  · intro hok
    by_cases hfits : least < tickLimit
    · rw [if_pos hfits] at hok
      obtain rfl := Except.ok.inj hok
      exact ⟨hleast, hfits⟩
    · rw [if_neg hfits] at hok
      cases hok
  · rintro ⟨hbase, hfits⟩
    obtain rfl := hleast.unique hbase
    rw [if_pos hfits]

/-- The base that queries use is the exact one, or the last tick when that one does not fit. -/
theorem cycleBase_spec {firstRise period start : Nat} (hperiod : 0 < period)
    (hrise : firstRise < tickLimit) (hstart : start < tickLimit) :
    ∃ base, LeastGridTick firstRise period start base ∧
      cycleBase firstRise period start = if base < tickLimit then base else tickLimit - 1 := by
  obtain ⟨base, hleast, hchecked⟩ := checkedCycleBase_spec hperiod hrise hstart
  refine ⟨base, hleast, ?_⟩
  by_cases hfits : base < tickLimit
  · rw [if_pos hfits] at hchecked ⊢
    rw [cycleBase, hchecked]
  · rw [if_neg hfits] at hchecked ⊢
    rw [cycleBase, hchecked]

/-! ## Cycles of ticks -/

/-- The count of cycles does not fit: every tick is a cycle of its own and there is one for each. -/
def CountOverflows (tick base period : Nat) : Prop :=
  base = 0 ∧ period = 1 ∧ tick + 1 = tickLimit

theorem tickToCycle_eq {tick base period : Nat} (htick : tick < tickLimit) (hperiod : 0 < period)
    (hfits : ¬ CountOverflows tick base period) (hbase : base ≤ tick) :
    tickToCycle tick base period = (tick - base) / period + 1 := by
  have hsmall : (tick - base) / period + 1 < tickLimit := by
    by_cases hone : period = 1
    · subst hone
      rw [Nat.div_one]
      by_contra hlarge
      exact hfits ⟨by omega, rfl, by omega⟩
    · have hhalf : (tick - base) / period ≤ (tick - base) / 2 :=
        Nat.div_le_div_left (by omega) (by decide)
      simp only [tickLimit] at htick ⊢
      omega
  rw [tickToCycle, if_neg (by omega), Nat.mod_eq_of_lt hsmall]

/-- A quotient is the number of whole periods. -/
theorem cycle_iff {tick base period cycle : Nat} (hperiod : 0 < period) (hbase : base ≤ tick)
    (hcycle : 1 ≤ cycle) : (tick - base) / period + 1 = cycle ↔
      base + (cycle - 1) * period ≤ tick ∧ tick < base + cycle * period := by
  obtain ⟨before, rfl⟩ : ∃ before, cycle = before + 1 := ⟨cycle - 1, by omega⟩
  rw [Nat.add_sub_cancel, Nat.add_right_cancel_iff, Nat.div_eq_iff hperiod]
  have hnext : (before + 1) * period = before * period + period := by ring
  constructor
  · rintro ⟨hlow, hhigh⟩
    constructor
    · omega
    · omega
  · rintro ⟨hlow, hhigh⟩
    constructor
    · omega
    · omega

/-! ## Ticks of physical times -/

theorem floor_scaledTick (value unit exponent : Int) : (scaledTick value unit exponent).floor =
    if exponent ≤ unit then value * (Nat.pow 10 (unit - exponent).toNat : Nat)
    else value / (Nat.pow 10 (exponent - unit).toNat : Nat) := by
  by_cases hunit : exponent ≤ unit
  · rw [scaledTick, if_pos hunit, if_pos hunit, Rat.floor_intCast]
  · rw [scaledTick, if_neg hunit, if_neg hunit]
    exact Rat.floor_intCast_div_natCast value (Nat.pow 10 (exponent - unit).toNat)

theorem inI64_iff {n : Int} :
    inI64 n = true ↔ -9223372036854775808 ≤ n ∧ n ≤ 9223372036854775807 := decide_eq_true_iff

theorem inI128_iff {n : Int} : inI128 n = true ↔
    -170141183460469231731687303715884105728 ≤ n ∧
      n ≤ 170141183460469231731687303715884105727 := decide_eq_true_iff

theorem inI128_of_inI64 {n : Int} (h : inI64 n = true) : inI128 n = true := by
  rw [inI64_iff] at h
  rw [inI128_iff]
  omega

/-- A multiple of a number beyond 64 bits is beyond them. -/
theorem not_inI64_mul {value factor : Int} (hvalue : value ≠ 0)
    (hfactor : 9223372036854775808 < factor) : ¬ inI64 (value * factor) = true := by
  rw [inI64_iff]
  rintro ⟨hlow, hhigh⟩
  rcases Int.lt_or_gt_of_ne hvalue with hneg | hpos
  · have hle : value * factor ≤ (-1) * factor :=
      Int.mul_le_mul_of_nonneg_right (by omega) (by omega)
    omega
  · have hle : 1 * factor ≤ value * factor :=
      Int.mul_le_mul_of_nonneg_right (by omega) (by omega)
    omega

/-- The quotient of a smaller number is its sign's floor. -/
theorem ediv_of_small {value divisor : Int} (hlow : -divisor ≤ value) (hhigh : value < divisor) :
    value / divisor = if value < 0 then -1 else 0 := by
  by_cases hneg : value < 0
  · rw [if_pos hneg]
    have hunique := (@Int.ediv_emod_unique value divisor (value + divisor) (-1) (by omega)).mpr
      ⟨by omega, by omega, by omega⟩
    exact hunique.1
  · rw [if_neg hneg, Int.ediv_eq_zero_of_lt (by omega) hhigh]

/-- A physical value becomes the floor of its exact tick, unless that is beyond 64 signed bits. -/
theorem physicalTick_iff {value : Int} (hvalue : inI64 value = true) (unit exponent tick : Int) :
    physicalTick (some exponent) value unit = .ok tick ↔
      tick = (scaledTick value unit exponent).floor ∧ inI64 tick = true := by
  have hscaled : ∀ exact, scaleTime value unit exponent = .ok exact →
      (scaledTick value unit exponent).floor = exact →
      (physicalTick (some exponent) value unit = .ok tick ↔
        tick = (scaledTick value unit exponent).floor ∧ inI64 tick = true) := by
    intro exact hscale hfloor
    simp only [physicalTick, hscale]
    rw [hfloor]
    by_cases hfits : inI64 exact = true
    · rw [if_pos hfits]
      constructor
      · intro hok
        obtain rfl := Except.ok.inj hok
        exact ⟨rfl, hfits⟩
      · rintro ⟨rfl, -⟩
        rfl
    · rw [if_neg hfits]
      constructor
      · intro hok
        cases hok
      · rintro ⟨rfl, hyes⟩
        exact absurd hyes hfits
  have hrefused : ∀ text, scaleTime value unit exponent = .error text →
      ¬ inI64 (scaledTick value unit exponent).floor = true →
      (physicalTick (some exponent) value unit = .ok tick ↔
        tick = (scaledTick value unit exponent).floor ∧ inI64 tick = true) := by
    intro text hscale hbeyond
    simp only [physicalTick, hscale]
    constructor
    · intro hok
      cases hok
    · rintro ⟨rfl, hyes⟩
      exact absurd hyes hbeyond
  have hfloor := floor_scaledTick value unit exponent
  by_cases hzero : value = 0
  · subst hzero
    refine hscaled 0 (if_pos rfl) (hfloor.trans ?_)
    split
    · exact Int.zero_mul _
    · exact Int.zero_ediv _
  by_cases hunit : exponent ≤ unit
  · rw [if_pos hunit] at hfloor
    obtain ⟨factor, hfactor⟩ : ∃ factor : Int,
      factor = (Nat.pow 10 (unit - exponent).toNat : Nat) := ⟨_, rfl⟩
    have hpos : 0 < factor := by
      rw [hfactor]
      exact Int.natCast_pos.mpr (Nat.pow_pos (by decide))
    rw [← hfactor] at hfloor
    by_cases hpower : inI128 factor = true
    · have hchecked : checkedPow10 (unit - exponent).toNat = some factor := by
        rw [checkedPow10, ← hfactor, if_pos hpower]
      by_cases hproduct : inI128 (value * factor) = true
      · refine hscaled (value * factor) ?_ hfloor
        simp only [scaleTime, if_neg hzero, if_pos (show 0 ≤ unit - exponent by omega), hchecked,
          if_pos hproduct]
      · refine hrefused "resolved time exceeds tick bounds" ?_ ?_
        · simp only [scaleTime, if_neg hzero, if_pos (show 0 ≤ unit - exponent by omega), hchecked,
            if_neg hproduct]
        · rw [hfloor]
          exact fun hfits => hproduct (inI128_of_inI64 hfits)
    · refine hrefused "resolved time exceeds tick bounds" ?_ ?_
      · simp only [scaleTime, if_neg hzero, if_pos (show 0 ≤ unit - exponent by omega), checkedPow10,
          ← hfactor, if_neg hpower]
      · rw [hfloor]
        refine not_inI64_mul hzero ?_
        rw [inI128_iff] at hpower
        omega
  · rw [if_neg hunit] at hfloor
    obtain ⟨divisor, hdivisor⟩ : ∃ divisor : Int,
      divisor = (Nat.pow 10 (exponent - unit).toNat : Nat) := ⟨_, rfl⟩
    have hpos : 0 < divisor := by
      rw [hdivisor]
      exact Int.natCast_pos.mpr (Nat.pow_pos (by decide))
    rw [← hdivisor] at hfloor
    by_cases hpower : inI128 divisor = true
    · refine hscaled (value / divisor) ?_ hfloor
      simp only [scaleTime, if_neg hzero, if_neg (show ¬ 0 ≤ unit - exponent by omega), checkedPow10,
        ← hdivisor, if_pos hpower]
    · rw [inI128_iff] at hpower
      rw [inI64_iff] at hvalue
      rw [ediv_of_small (by omega) (by omega)] at hfloor
      refine hscaled (if value < 0 then -1 else 0) ?_ hfloor
      have hbeyond : ¬ inI128 divisor = true := by
        rw [inI128_iff]
        omega
      simp only [scaleTime, if_neg hzero, if_neg (show ¬ 0 ≤ unit - exponent by omega), checkedPow10,
        ← hdivisor, if_neg hbeyond]

/-- A tick or a physical time becomes the floor of its exact tick. -/
theorem resolveToTick_iff {token : TimeToken} (hcount : inI64 token.count = true)
    (timescaleExponent : Option Int) (tick : Int) :
    resolveToTick token timescaleExponent = .ok tick ↔
      ∃ exact, exactTick timescaleExponent token = some exact ∧ tick = exact.floor ∧
        inI64 tick = true := by
  have hphysical : ∀ value unit : Int, inI64 value = true →
      (physicalTick timescaleExponent value unit = .ok tick ↔
        ∃ exact, timescaleExponent.map (scaledTick value unit) = some exact ∧
          tick = exact.floor ∧ inI64 tick = true) := by
    intro value unit hvalue
    cases timescaleExponent with
    | none => exact ⟨fun hok => (nomatch hok), fun ⟨_, hsome, _⟩ => (nomatch hsome)⟩
    | some exponent =>
      rw [physicalTick_iff hvalue]
      constructor
      · exact fun hfloor => ⟨_, rfl, hfloor⟩
      · rintro ⟨exact, hsome, hfloor⟩
        obtain rfl := Option.some.inj hsome
        exact hfloor
  cases token with
  | tick n =>
    constructor
    · intro hok
      obtain rfl := Except.ok.inj hok
      exact ⟨(n : Rat), rfl, (Rat.floor_intCast n).symm, hcount⟩
    · rintro ⟨exact, hsome, hfloor, -⟩
      obtain rfl := Option.some.inj hsome
      rw [hfloor, Rat.floor_intCast]
      rfl
  | cycle n => exact ⟨fun hok => (nomatch hok), fun ⟨_, hsome, _⟩ => (nomatch hsome)⟩
  | pico n => exact hphysical n (-12) hcount
  | nano n => exact hphysical n (-9) hcount
  | micro n => exact hphysical n (-6) hcount
  | milli n => exact hphysical n (-3) hcount

/-! ## Resolving times -/

/-- Before the base, a cycle is 0, and at and after it the cycle that the tick is in. -/
theorem inCycle_iff {tick base period : Nat} (hperiod : 0 < period) (cycle : Int) :
    InCycle base period tick cycle ↔
      cycle = if tick < base then 0 else (((tick - base) / period + 1 : Nat) : Int) := by
  by_cases hbefore : tick < base
  · rw [if_pos hbefore]
    constructor
    · rintro (hzero | hlater)
      · exact hzero.1
      · have hle : 0 ≤ (cycle - 1) * period := Int.mul_nonneg (by omega) (by omega)
        omega
    · exact fun hzero => Or.inl ⟨hzero, by omega⟩
  · rw [if_neg hbefore]
    constructor
    · rintro (hzero | hlater)
      · omega
      · obtain ⟨count, rfl⟩ : ∃ count : Nat, cycle = count := ⟨cycle.toNat, by omega⟩
        obtain ⟨hone, hlow, hhigh⟩ := hlater
        have hiff := @cycle_iff tick base period count hperiod (by omega) (by omega)
        have hsub : ((count : Int) - 1) * period = ((count - 1) * period : Nat) := by
          rw [Int.natCast_mul]
          congr 1
          omega
        have hmul : (count : Int) * period = (count * period : Nat) := (Int.natCast_mul _ _).symm
        rw [hiff.mpr ⟨by omega, by omega⟩]
    · intro hcycle
      obtain ⟨count, hcount⟩ : ∃ count, count = (tick - base) / period + 1 := ⟨_, rfl⟩
      have hone : 1 ≤ count := by
        rw [hcount]
        exact Nat.le_add_left 1 _
      obtain ⟨hlow, hhigh⟩ := (@cycle_iff tick base period count hperiod (by omega) hone).mp
        hcount.symm
      rw [← hcount] at hcycle
      have hsub : (cycle - 1) * period = ((count - 1) * period : Nat) := by
        rw [Int.natCast_mul, hcycle]
        congr 1
        omega
      have hmul : cycle * period = (count * period : Nat) := by
        rw [Int.natCast_mul, hcycle]
      refine Or.inr ⟨by omega, ?_, ?_⟩
      · omega
      · omega

/-- A counted cycle is resolved to its first tick, unless that is beyond 64 signed bits. -/
theorem cycleTick_iff {clock : Clock} (hperiod : 0 < clock.period)
    (hrise : clock.firstRise < tickLimit) (hstart : clock.effectiveStart < tickLimit) {n : Int}
    (hn : 1 ≤ n) (tick : Int) :
    cycleTick clock n = .ok tick ↔
      ∃ base, LeastGridTick clock.firstRise clock.period clock.effectiveStart base ∧
        tick = base + (n - 1) * clock.period ∧ inI64 tick = true := by
  obtain ⟨base, hleast, hbase⟩ := checkedCycleBase_spec hperiod hrise hstart
  obtain ⟨offset, hoffset⟩ : ∃ offset, offset = (n.toNat - 1) * clock.period := ⟨_, rfl⟩
  have hproduct : (n - 1) * clock.period = (offset : Int) := by
    rw [hoffset, Int.natCast_mul]
    congr 1
    omega
  have hexact : (∃ least, LeastGridTick clock.firstRise clock.period clock.effectiveStart least ∧
      tick = least + (n - 1) * clock.period ∧ inI64 tick = true) ↔
        tick = (base + offset : Nat) ∧ inI64 tick = true := by
    constructor
    · rintro ⟨least, hother, htick, hfits⟩
      obtain rfl := hleast.unique hother
      exact ⟨by omega, hfits⟩
    · rintro ⟨htick, hfits⟩
      exact ⟨base, hleast, by omega, hfits⟩
  rw [hexact, inI64_iff]
  have hlimit : tickLimit = 18446744073709551616 := rfl
  have hlater : ¬ n = 0 := by omega
  by_cases hrepresented : base < tickLimit
  · rw [if_pos hrepresented] at hbase
    by_cases hunsigned : offset < tickLimit ∧ base + offset < tickLimit
    · by_cases hsigned : inI64 (base + offset : Nat) = true
      · simp only [cycleTick, if_neg hlater, hbase, ← hoffset, if_pos hunsigned, if_pos hsigned]
        rw [inI64_iff] at hsigned
        constructor
        · intro hok
          obtain rfl := Except.ok.inj hok
          exact ⟨rfl, hsigned⟩
        · rintro ⟨rfl, -⟩
          rfl
      · simp only [cycleTick, if_neg hlater, hbase, ← hoffset, if_pos hunsigned, if_neg hsigned]
        rw [inI64_iff] at hsigned
        constructor
        · intro hok
          cases hok
        · rintro ⟨rfl, hfits⟩
          exact absurd hfits hsigned
    · simp only [cycleTick, if_neg hlater, hbase, ← hoffset, if_neg hunsigned]
      constructor
      · intro hok
        cases hok
      · rintro ⟨rfl, hfits⟩
        omega
  · rw [if_neg hrepresented] at hbase
    simp only [cycleTick, if_neg hlater, hbase]
    constructor
    · intro hok
      cases hok
    · rintro ⟨rfl, hfits⟩
      omega

/-- A tick or a physical time is resolved to the cycle that the floor of its exact tick is in. -/
theorem tickCycle_iff {clock : Clock} (hperiod : 0 < clock.period)
    (hrise : clock.firstRise < tickLimit) (hstart : clock.effectiveStart < tickLimit)
    {token : TimeToken} (hcount : inI64 token.count = true) (cycle : Int) :
    tickCycle clock token = .ok cycle ↔
      ∃ base exact, LeastGridTick clock.firstRise clock.period clock.effectiveStart base ∧
        base < tickLimit ∧ exactTick clock.timescaleExponent token = some exact ∧
        inI64 exact.floor = true ∧ InCycle base clock.period exact.floor cycle ∧
        inI64 cycle = true := by
  have hbase := checkedCycleBase_iff hperiod hrise hstart
  have hresolve := resolveToTick_iff hcount clock.timescaleExponent
  have hlimit : tickLimit = 18446744073709551616 := rfl
  -- what is left once the base and the tick are known
  have hcycle : ∀ (base : Nat) (tick : Int), inI64 tick = true →
      ((if tick < 0 then (.ok 0 : Except String Int) else
        if inI64 (tickToCycle tick.toNat base clock.period) = true
          then .ok (tickToCycle tick.toNat base clock.period : Nat)
          else .error "cycle number is beyond signed range") = .ok cycle ↔
        InCycle base clock.period tick cycle ∧ inI64 cycle = true) := by
    intro base tick hfits
    rw [inI64_iff] at hfits
    by_cases hneg : tick < 0
    · rw [if_pos hneg]
      constructor
      · intro hok
        obtain rfl := Except.ok.inj hok
        exact ⟨Or.inl ⟨rfl, by omega⟩, rfl⟩
      · rintro ⟨hzero | hlater, -⟩
        · rw [hzero.1]
        · have hle : 0 ≤ (cycle - 1) * clock.period := Int.mul_nonneg (by omega) (by omega)
          omega
    · obtain ⟨count, rfl⟩ : ∃ count : Nat, tick = count := ⟨tick.toNat, by omega⟩
      have hin := @inCycle_iff count base clock.period hperiod cycle
      rw [if_neg hneg, Int.toNat_natCast, hin]
      have hexact : ((tickToCycle count base clock.period : Nat) : Int) =
          if count < base then 0 else (((count - base) / clock.period + 1 : Nat) : Int) := by
        by_cases hbefore : count < base
        · rw [if_pos hbefore, tickToCycle, if_pos (Or.inr hbefore)]
          rfl
        · rw [if_neg hbefore, tickToCycle_eq (by omega) hperiod _ (by omega)]
          rintro ⟨-, -, hlast⟩
          omega
      rw [← hexact]
      by_cases hsigned : inI64 (tickToCycle count base clock.period) = true
      · rw [if_pos hsigned]
        constructor
        · intro hok
          obtain rfl := Except.ok.inj hok
          exact ⟨rfl, hsigned⟩
        · rintro ⟨rfl, -⟩
          rfl
      · rw [if_neg hsigned]
        constructor
        · intro hok
          cases hok
        · rintro ⟨rfl, hyes⟩
          exact absurd hyes hsigned
  constructor
  · intro hok
    cases hchecked : checkedCycleBase clock.firstRise clock.period clock.effectiveStart with
    | error text =>
      simp only [tickCycle, hchecked] at hok
      cases hok
    | ok base =>
      cases htick : resolveToTick token clock.timescaleExponent with
      | error text =>
        simp only [tickCycle, hchecked, htick] at hok
        cases hok
      | ok tick =>
        simp only [tickCycle, hchecked, htick] at hok
        obtain ⟨exact, hsome, rfl, hfits⟩ := (hresolve tick).mp htick
        obtain ⟨hleast, hrepresented⟩ := (hbase base).mp hchecked
        exact ⟨base, exact, hleast, hrepresented, hsome, hfits, (hcycle base _ hfits).mp hok⟩
  · rintro ⟨base, exact, hleast, hrepresented, hsome, hfits, hin⟩
    have hchecked := (hbase base).mpr ⟨hleast, hrepresented⟩
    have htick := (hresolve exact.floor).mpr ⟨exact, hsome, rfl, hfits⟩
    simp only [tickCycle, hchecked, htick]
    exact (hcycle base _ hfits).mpr hin

/-! ## The whole mapping -/

/-- The mapping between ticks and cycles is exact, and refuses only what does not fit. -/
structure ExactGrid (clock : Clock) (base tick : Nat) : Prop where
  least : ∀ start < tickLimit, ∀ first,
    checkedCycleBase clock.firstRise clock.period start = .ok first ↔
      LeastGridTick clock.firstRise clock.period start first ∧ first < tickLimit
  counted : ∀ cycle, 1 ≤ cycle → (tickToCycle tick base clock.period = cycle ↔
    base + (cycle - 1) * clock.period ≤ tick ∧ tick < base + cycle * clock.period)
  before : tickToCycle tick base clock.period = 0 ↔ tick < base
  fromCycle : clock.asyncMode = true → ∀ n : Int, 1 ≤ n → inI64 n = true → ∀ result,
    resolveTimeToken clock (.cycle n) = .ok result ↔
      ∃ first, LeastGridTick clock.firstRise clock.period clock.effectiveStart first ∧
        result = first + (n - 1) * clock.period ∧ inI64 result = true
  toCycle : clock.asyncMode = false → ∀ token : TimeToken, (∀ n, token ≠ .cycle n) →
    inI64 token.count = true → ∀ result,
    resolveTimeToken clock token = .ok result ↔
      ∃ first exact, LeastGridTick clock.firstRise clock.period clock.effectiveStart first ∧
        first < tickLimit ∧ exactTick clock.timescaleExponent token = some exact ∧
        inI64 exact.floor = true ∧ InCycle first clock.period exact.floor result ∧
        inI64 result = true

/-- The mapping is exact but where the count of cycles overflows. -/
theorem exactGrid_iff {clock : Clock} (hperiod : 0 < clock.period)
    (hrise : clock.firstRise < tickLimit)
    (hreset : ∀ deassert, clock.resetDeassert = some deassert → deassert < tickLimit)
    {base tick : Nat} (htick : tick < tickLimit) :
    ExactGrid clock base tick ↔ ¬ CountOverflows tick base clock.period := by
  have hstart : clock.effectiveStart < tickLimit := by
    rw [Clock.effectiveStart]
    split
    · decide
    · cases hdeassert : clock.resetDeassert with
      | none => decide
      | some deassert => exact hreset deassert hdeassert
  constructor
  · rintro hexact ⟨rfl, hone, hlast⟩
    have hzero : tickToCycle tick 0 clock.period = 0 := by
      rw [tickToCycle, hone, Nat.sub_zero, Nat.div_one, hlast, Nat.mod_self]
      rfl
    exact absurd (hexact.before.mp hzero) (Nat.not_lt_zero _)
  · intro hfits
    refine ⟨fun start hsmall first => checkedCycleBase_iff hperiod hrise hsmall first, ?_, ?_, ?_, ?_⟩
    · intro cycle hcycle
      by_cases hbase : base ≤ tick
      · rw [tickToCycle_eq htick hperiod hfits hbase, cycle_iff hperiod hbase hcycle]
      · rw [tickToCycle, if_pos (by omega)]
        constructor
        · omega
        · rintro ⟨hlow, -⟩
          have hle : base ≤ base + (cycle - 1) * clock.period := Nat.le_add_right _ _
          omega
    · by_cases hbase : base ≤ tick
      · rw [tickToCycle_eq htick hperiod hfits hbase]
        exact ⟨fun hzero => absurd hzero (Nat.succ_ne_zero _), fun hless => by omega⟩
      · rw [tickToCycle, if_pos (by omega)]
        exact ⟨fun _ => by omega, fun _ => rfl⟩
    · intro hasync n hn hcount result
      rw [← cycleTick_iff hperiod hrise hstart hn]
      simp only [resolveTimeToken, hasync, Bool.not_true, Bool.false_eq_true, if_false,
        if_neg (show ¬ n < 0 by omega), if_neg (show ¬ clock.period = 0 by omega)]
    · intro hsync token hother hcount result
      rw [← tickCycle_iff hperiod hrise hstart hcount]
      cases token with
      | cycle n => exact absurd rfl (hother n)
      | tick n =>
        simp only [resolveTimeToken, hsync, Bool.false_eq_true, if_false,
          if_neg (show ¬ clock.period = 0 by omega)]
      | pico n =>
        simp only [resolveTimeToken, hsync, Bool.false_eq_true, if_false,
          if_neg (show ¬ clock.period = 0 by omega)]
      | nano n =>
        simp only [resolveTimeToken, hsync, Bool.false_eq_true, if_false,
          if_neg (show ¬ clock.period = 0 by omega)]
      | micro n =>
        simp only [resolveTimeToken, hsync, Bool.false_eq_true, if_false,
          if_neg (show ¬ clock.period = 0 by omega)]
      | milli n =>
        simp only [resolveTimeToken, hsync, Bool.false_eq_true, if_false,
          if_neg (show ¬ clock.period = 0 by omega)]

/-- A clock of ten ticks that rises first at tick 5. -/
def tenTickClock : Clock where
  firstRise := 5
  period := 10
  timescaleExponent := some (-9)
  resetDeassert := some 12
  withReset := false
  asyncMode := false

theorem exactGrid_tenTickClock : ExactGrid tenTickClock 15 24 :=
  (exactGrid_iff (by decide) (by decide)
    (fun deassert h => by obtain rfl := Option.some.inj h; decide) (by decide)).mpr
    fun hoverflow => absurd hoverflow.1 (by decide)

/-- The last tick of a clock of one tick is counted as if it were before the first. -/
theorem tickToCycle_last : tickToCycle 18446744073709551615 0 1 = 0 ∧
    ¬ (18446744073709551615 < 0) := by decide

end Booley.Waves
