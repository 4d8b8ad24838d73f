import Booley.Goals.Merging

/-!
# The bounds of a merge

The bounds `mergeValues` chooses are, for each name, a strictest one of the members' bounds,
and they translate again to the values they had. Both, and whether a merge decided anything,
depend on the members and not on their order.
-/
namespace Booley.Goals

open Booley.Lib

variable {κ : Type} [DecidableEq κ] {rank : κ → Rat → Rat} {stricter : κ → Rat → Rat → Bool}

/-- A comparison of bounds that is the order of an injective rank. -/
structure RankedBy (rank : κ → Rat → Rat) (stricter : κ → Rat → Rat → Bool) : Prop where
  stricter_iff : ∀ name candidate current,
    stricter name candidate current = true ↔ rank name current < rank name candidate
  injective : ∀ name value other, rank name value = rank name other → value = other

theorem thresholdsRanked : RankedBy strictness stricterThreshold where
  stricter_iff _ _ _ := stricterThreshold_iff
  injective param _ _ h := strictness_injective param h

omit [DecidableEq κ] in
theorem floorsRanked : RankedBy (fun (_ : κ) value => value)
    (fun _ candidate current => decide (current < candidate)) where
  stricter_iff _ _ _ := by simp
  injective _ _ _ h := h

/-- The rank of a bound is that of its value. -/
def boundRank (rank : κ → Rat → Rat) (name : κ) (bound : Bound) : Rat := rank name bound.value

/-! ## The chosen bounds -/

theorem chosen_mergeStep (hranked : RankedBy rank stricter) (merging : Merging κ)
    (entry : κ × Bound) :
    (mergeStep stricter merging entry).chosen =
      keepStrictest (boundRank rank) merging.chosen entry := by
  obtain ⟨name, bound⟩ := entry
  unfold mergeStep keepStrictest
  cases hlookup : merging.chosen.lookup name with
  | none => simp [hlookup]
  | some kept =>
    by_cases hequal : bound.value = kept.value
    · simp [hlookup, hequal, boundRank]
    · by_cases hwins : stricter name bound.value kept.value = true
      · have hrank := (hranked.stricter_iff name bound.value kept.value).mp hwins
        simp [hlookup, hequal, hwins, boundRank, hrank]
      · have hrank : ¬ rank name kept.value < rank name bound.value :=
          fun h => hwins ((hranked.stricter_iff name bound.value kept.value).mpr h)
        simp [hlookup, hequal, hwins, boundRank, hrank]

theorem chosen_foldl_mergeStep (hranked : RankedBy rank stricter) (entries : List (κ × Bound))
    (merging : Merging κ) :
    (entries.foldl (mergeStep stricter) merging).chosen =
      entries.foldl (keepStrictest (boundRank rank)) merging.chosen := by
  induction entries generalizing merging with
  | nil => rfl
  | cons entry rest ih => rw [List.foldl_cons, List.foldl_cons, ih, chosen_mergeStep hranked]

/-- The merge keeps a strictest bound of each name. -/
theorem keptOf_mergeValues (hranked : RankedBy rank stricter) (bounds : List (List (κ × Bound))) :
    KeptOf (boundRank rank) bounds.flatten (mergeValues stricter bounds).chosen := by
  unfold mergeValues
  rw [chosen_foldl_mergeStep hranked]
  exact keptOf_foldl bounds.flatten

/-! ## Whether anything was decided -/

/-- Two bounds of one name have one value. -/
def Unanimous (entries : List (κ × Bound)) : Prop :=
  ∀ name bound other, (name, bound) ∈ entries → (name, other) ∈ entries →
    bound.value = other.value

theorem decisions_foldl_mergeStep (entries : List (κ × Bound)) (merging : Merging κ) :
    (entries.foldl (mergeStep stricter) merging).decisions = [] ↔
      merging.decisions = [] ∧ Unanimous entries ∧
        ∀ name bound, (name, bound) ∈ entries → ∀ kept, merging.chosen.lookup name = some kept →
          bound.value = kept.value := by
  induction entries generalizing merging with
  | nil => simp [Unanimous]
  | cons entry rest ih =>
    obtain ⟨name, bound⟩ := entry
    rw [List.foldl_cons, ih]
    cases hlookup : merging.chosen.lookup name with
    | none =>
      have hstep : mergeStep stricter merging (name, bound) =
          { merging with chosen := merging.chosen.insert name bound } := by
        simp [mergeStep, hlookup]
      rw [hstep]
      constructor
      · rintro ⟨hnone, hrest, hkept⟩
        have hfirst : ∀ other, (name, other) ∈ rest → other.value = bound.value :=
          fun other hother => hkept name other hother bound (AList.lookup_insert _)
        refine ⟨hnone, ?_, ?_⟩
        · intro key left right hleft hright
          simp only [List.mem_cons, Prod.mk.injEq] at hleft hright
          rcases hleft with ⟨rfl, rfl⟩ | hleft
          · rcases hright with ⟨-, rfl⟩ | hright
            · rfl
            · exact (hfirst right hright).symm
          · rcases hright with ⟨rfl, rfl⟩ | hright
            · exact hfirst left hleft
            · exact hrest key left right hleft hright
        · intro key other hmem kept hkept'
          have hne : key ≠ name := by
            rintro rfl
            simp [hlookup] at hkept'
          have hother : (key, other) ∈ rest := by
            simpa [hne] using hmem
          exact hkept key other hother kept (by simpa [AList.lookup_insert_ne hne] using hkept')
      · rintro ⟨hnone, hall, hkept⟩
        refine ⟨hnone, ?_, ?_⟩
        · intro key left right hleft hright
          exact hall key left right (by simp [hleft]) (by simp [hright])
        · intro key other hother kept hkept'
          by_cases hkey : key = name
          · subst hkey
            obtain rfl : bound = kept := by simpa using hkept'
            exact hall key other bound (by simp [hother]) (by simp)
          · exact hkept key other (by simp [hother]) kept
              (by simpa [AList.lookup_insert_ne hkey] using hkept')
    | some current =>
      by_cases hequal : bound.value = current.value
      · have hstep : mergeStep stricter merging (name, bound) = merging := by
          simp [mergeStep, hlookup, hequal]
        rw [hstep]
        constructor
        · rintro ⟨hnone, hrest, hkept⟩
          have hfirst : ∀ other, (name, other) ∈ rest → other.value = bound.value := by
            intro other hother
            rw [hkept name other hother current hlookup, hequal]
          refine ⟨hnone, ?_, ?_⟩
          · intro key left right hleft hright
            simp only [List.mem_cons, Prod.mk.injEq] at hleft hright
            rcases hleft with ⟨rfl, rfl⟩ | hleft
            · rcases hright with ⟨-, rfl⟩ | hright
              · rfl
              · exact (hfirst right hright).symm
            · rcases hright with ⟨rfl, rfl⟩ | hright
              · exact hfirst left hleft
              · exact hrest key left right hleft hright
          · intro key other hmem kept hkept'
            simp only [List.mem_cons, Prod.mk.injEq] at hmem
            rcases hmem with ⟨rfl, rfl⟩ | hmem
            · obtain rfl : current = kept := by simpa [hlookup] using hkept'
              exact hequal
            · exact hkept key other hmem kept hkept'
        · rintro ⟨hnone, hall, hkept⟩
          refine ⟨hnone, ?_, ?_⟩
          · intro key left right hleft hright
            exact hall key left right (by simp [hleft]) (by simp [hright])
          · intro key other hother kept hkept'
            exact hkept key other (by simp [hother]) kept hkept'
      · constructor
        · rintro ⟨hnone, -, -⟩
          simp [mergeStep, hlookup, hequal] at hnone
        · rintro ⟨-, -, hkept⟩
          exact absurd (hkept name bound (by simp) current hlookup) hequal

/-- Nothing was decided exactly when every member sets the same names to the same values. -/
theorem decisions_mergeValues (hranked : RankedBy rank stricter)
    (bounds : List (List (κ × Bound))) :
    (mergeValues stricter bounds).decisions = [] ↔
      Unanimous bounds.flatten ∧ ∀ name bound, (name, bound) ∈ bounds.flatten →
        bounds.length ≤ bounds.flatten.countP fun given => given.1 = name := by
  have hkept := keptOf_mergeValues hranked bounds
  have hchosen : (mergeValues stricter bounds).chosen =
    (bounds.flatten.foldl (mergeStep stricter) ⟨∅, []⟩).chosen := rfl
  rw [hchosen] at hkept
  unfold mergeValues
  simp only [List.append_eq_nil_iff, decisions_foldl_mergeStep]
  have hadded : addedBounds bounds.flatten bounds.length
      (bounds.flatten.foldl (mergeStep stricter) ⟨∅, []⟩).chosen = [] ↔
        ∀ name bound, (name, bound) ∈ bounds.flatten →
          bounds.length ≤ bounds.flatten.countP fun given => given.1 = name := by
    simp only [addedBounds, List.filterMap_eq_nil_iff, ite_eq_right_iff, reduceCtorEq, imp_false,
      not_lt]
    constructor
    · intro h name bound hmem
      obtain ⟨kept, hlookup⟩ := hkept.exists_of_mem hmem
      exact h ⟨name, kept⟩ (Dict.lookup_eq_some_iff.mp hlookup)
    · rintro h ⟨name, kept⟩ hmem
      exact h name kept (hkept.strictest (Dict.lookup_eq_some_iff.mpr hmem)).1
  rw [hadded]
  simp

theorem decisions_mergeValues_perm (hranked : RankedBy rank stricter)
    {bounds bounds' : List (List (κ × Bound))} (hperm : bounds.Perm bounds')
    (h : (mergeValues stricter bounds').decisions = []) :
    (mergeValues stricter bounds).decisions = [] := by
  obtain ⟨hsame, hcount⟩ := (decisions_mergeValues hranked bounds').mp h
  have hflat := hperm.flatten
  refine (decisions_mergeValues hranked bounds).mpr ⟨?_, ?_⟩
  · intro name bound other hbound hother
    exact hsame name bound other (hflat.mem_iff.mp hbound) (hflat.mem_iff.mp hother)
  · intro name bound hbound
    rw [hperm.length_eq, hflat.countP_eq]
    exact hcount name bound (hflat.mem_iff.mp hbound)

/-! ## Bounds that translate again -/

theorem lookup_authoredBounds (chosen : Dict κ Bound) (name : κ) :
    (authoredBounds chosen).lookup name = (chosen.lookup name).map Bound.written := by
  apply Option.ext
  intro written
  rw [Dict.lookup_eq_some_iff, Option.map_eq_some_iff]
  simp only [authoredBounds, List.mem_map, Sigma.mk.injEq, heq_eq_eq]
  constructor
  · rintro ⟨⟨other, bound⟩, hmem, rfl, rfl⟩
    exact ⟨bound, Dict.lookup_eq_some_iff.mpr hmem, rfl⟩
  · rintro ⟨bound, hlookup, rfl⟩
    exact ⟨⟨name, bound⟩, Dict.lookup_eq_some_iff.mp hlookup, rfl, rfl⟩

theorem mem_boundsOf {written : Dict κ Authored} {normalized : Dict κ Rat} {origin : String}
    {name : κ} {bound : Bound} :
    (name, bound) ∈ boundsOf written normalized origin ↔
      written.lookup name = some bound.written ∧ normalized.lookup name = some bound.value ∧
        bound.origin = origin := by
  simp only [boundsOf, List.mem_filterMap, Option.map_eq_some_iff, Prod.mk.injEq]
  constructor
  · rintro ⟨⟨other, given⟩, hmem, value, hvalue, rfl, rfl⟩
    exact ⟨Dict.lookup_eq_some_iff.mpr hmem, hvalue, rfl⟩
  · rintro ⟨hwritten, hvalue, horigin⟩
    exact ⟨⟨name, bound.written⟩, Dict.lookup_eq_some_iff.mp hwritten, bound.value, hvalue, rfl,
      by cases bound; cases horigin; rfl⟩

/-- For each name a strictest of the given values; none where none is given. -/
def StrictestOf (rank : κ → Rat → Rat) (given : List (Dict κ Rat)) (chosen : Dict κ Rat) : Prop :=
  ∀ name, match chosen.lookup name with
    | none => ∀ values ∈ given, values.lookup name = none
    | some value => (∃ values ∈ given, values.lookup name = some value) ∧
        ∀ values ∈ given, ∀ other, values.lookup name = some other →
          rank name other ≤ rank name value

namespace StrictestOf

variable {given : List (Dict κ Rat)} {chosen chosen' : Dict κ Rat}

theorem exists_of_lookup (h : StrictestOf rank given chosen) {values : Dict κ Rat}
    (hmem : values ∈ given) {name : κ} {value : Rat} (hvalue : values.lookup name = some value) :
    ∃ strict, chosen.lookup name = some strict ∧ rank name value ≤ rank name strict := by
  have hname := h name
  cases hchosen : chosen.lookup name with
  | none =>
    simp only [hchosen] at hname
    simp [hname values hmem] at hvalue
  | some strict =>
    simp only [hchosen] at hname
    exact ⟨strict, rfl, hname.2 values hmem value hvalue⟩

theorem exists_given (h : StrictestOf rank given chosen) {name : κ} {value : Rat}
    (hvalue : chosen.lookup name = some value) :
    ∃ values ∈ given, values.lookup name = some value := by
  have hname := h name
  simp only [hvalue] at hname
  exact hname.1

/-- The strictest values are determined. -/
theorem lookup_eq (hinjective : ∀ name value other, rank name value = rank name other → value = other)
    (h : StrictestOf rank given chosen) (h' : StrictestOf rank given chosen') (name : κ) :
    chosen.lookup name = chosen'.lookup name := by
  apply Option.ext
  have hone : ∀ {left right : Dict κ Rat}, StrictestOf rank given left →
      StrictestOf rank given right → ∀ value, left.lookup name = some value →
        right.lookup name = some value := by
    intro left right hleft hright value hvalue
    obtain ⟨values, hmem, hgiven⟩ := hleft.exists_given hvalue
    obtain ⟨other, hother, hle⟩ := hright.exists_of_lookup hmem hgiven
    obtain ⟨values', hmem', hgiven'⟩ := hright.exists_given hother
    obtain ⟨back, hback, hge⟩ := hleft.exists_of_lookup hmem' hgiven'
    obtain rfl : value = back := Option.some.inj (hvalue.symm.trans hback)
    rw [hother, hinjective name other value (le_antisymm hge hle)]
  intro value
  exact ⟨hone h h' value, hone h' h value⟩

theorem of_mem_iff {given' : List (Dict κ Rat)} (hmem : ∀ values, values ∈ given ↔ values ∈ given')
    (h : StrictestOf rank given chosen) : StrictestOf rank given' chosen := by
  intro name
  have hname := h name
  cases hchosen : chosen.lookup name with
  | none => simpa only [hchosen, hmem] using hname
  | some value => simpa only [hchosen, hmem] using hname

end StrictestOf

/-- Bounds written by a member, with the values they normalize to. -/
structure WrittenBounds (κ : Type) where
  written : Dict κ Authored
  normalized : Dict κ Rat
  origin : String

def WrittenBounds.bounds (item : WrittenBounds κ) : List (κ × Bound) :=
  boundsOf item.written item.normalized item.origin

/-- Merged bounds normalize again, and to the strictest values. -/
theorem mapM_mergeValues {ε : Type} (hranked : RankedBy rank stricter)
    (normalize : κ → Authored → Except ε Rat) (items : List (WrittenBounds κ))
    (hitems : ∀ item ∈ items, Dict.mapM normalize item.written = .ok item.normalized) :
    ∃ normalized,
      Dict.mapM normalize
        (authoredBounds (mergeValues stricter (items.map WrittenBounds.bounds)).chosen) =
          .ok normalized ∧
      StrictestOf rank (items.map WrittenBounds.normalized) normalized := by
  set chosen := (mergeValues stricter (items.map WrittenBounds.bounds)).chosen
  have hkept : KeptOf (boundRank rank) (items.map WrittenBounds.bounds).flatten chosen :=
    keptOf_mergeValues hranked _
  have hmem : ∀ name bound, (name, bound) ∈ (items.map WrittenBounds.bounds).flatten ↔
      ∃ item ∈ items, (name, bound) ∈ item.bounds := by
    intro name bound
    simp
  have hnormal : ∀ name bound, chosen.lookup name = some bound →
      normalize name bound.written = .ok bound.value := by
    intro name bound hlookup
    obtain ⟨item, hitem, hbound⟩ := (hmem name bound).mp (hkept.strictest hlookup).1
    obtain ⟨hwritten, hvalue, -⟩ := mem_boundsOf.mp hbound
    obtain ⟨given, hgiven, hnormalized⟩ := (Dict.lookup_mapM (hitems item hitem)).mp hvalue
    obtain rfl : bound.written = given := Option.some.inj (hwritten.symm.trans hgiven)
    exact hnormalized
  obtain ⟨normalized, hnormalized⟩ : ∃ normalized,
      Dict.mapM normalize (authoredBounds chosen) = .ok normalized := by
    apply Dict.exists_mapM
    intro name written hwritten
    rw [lookup_authoredBounds, Option.map_eq_some_iff] at hwritten
    obtain ⟨bound, hlookup, rfl⟩ := hwritten
    exact ⟨bound.value, hnormal name bound hlookup⟩
  have hvalue : ∀ name, normalized.lookup name = (chosen.lookup name).map Bound.value := by
    intro name
    apply Option.ext
    intro value
    rw [Dict.lookup_mapM hnormalized, lookup_authoredBounds]
    cases hlookup : chosen.lookup name with
    | none => simp
    | some bound => simp [hnormal name bound hlookup]
  refine ⟨normalized, hnormalized, ?_⟩
  intro name
  have hgiven : ∀ item ∈ items, ∀ value, item.normalized.lookup name = some value →
      ∃ bound, (name, bound) ∈ (items.map WrittenBounds.bounds).flatten ∧
        bound.value = value := by
    intro item hitem value hlookup
    obtain ⟨written, hwritten, -⟩ := (Dict.lookup_mapM (hitems item hitem)).mp hlookup
    exact ⟨⟨written, value, item.origin⟩,
      (hmem name _).mpr ⟨item, hitem, mem_boundsOf.mpr ⟨hwritten, hlookup, rfl⟩⟩, rfl⟩
  rw [hvalue]
  cases hlookup : chosen.lookup name with
  | none =>
    intro values hvalues
    obtain ⟨item, hitem, rfl⟩ := List.mem_map.mp hvalues
    cases hother : item.normalized.lookup name with
    | none => rfl
    | some value =>
      obtain ⟨bound, hbound, -⟩ := hgiven item hitem value hother
      obtain ⟨kept, hkept'⟩ := hkept.exists_of_mem hbound
      simp [hlookup] at hkept'
  | some bound =>
    have hstrict := hkept.strictest hlookup
    constructor
    · obtain ⟨item, hitem, hbound⟩ := (hmem name bound).mp hstrict.1
      exact ⟨item.normalized, List.mem_map_of_mem hitem, (mem_boundsOf.mp hbound).2.1⟩
    · intro values hvalues other hother
      obtain ⟨item, hitem, rfl⟩ := List.mem_map.mp hvalues
      obtain ⟨bound', hbound', rfl⟩ := hgiven item hitem other hother
      exact hstrict.2 bound' hbound'

/-! ## The Criteria rules on merged thresholds -/

theorem exclusivePair_eq_none {family : GoalFamily} {params : List ThresholdParam} :
    exclusivePair family params = none ↔
      ∀ pair ∈ mutexPairs family, ∀ clock, .metric clock pair.1.1 pair.1.2 ∈ params →
        .metric clock pair.2.1 pair.2.2 ∉ params := by
  simp only [exclusivePair, List.findSome?_eq_none_iff]
  constructor
  · intro h pair hpair clock hleft hright
    have := h pair hpair (.metric clock pair.1.1 pair.1.2) hleft
    simp [hright] at this
  · intro h pair hpair param hparam
    cases param with
    | metric clock metric flavour =>
      by_cases hpair' : (metric, flavour) = pair.1
      · have hleft : ThresholdParam.metric clock pair.1.1 pair.1.2 ∈ params := by
          rw [← hpair']
          exact hparam
        simp [h pair hpair clock hleft]
      · simp [hpair']
    | cycleCountMax => rfl
    | cycleCountMin => rfl
    | cycleCount change side unit => rfl

theorem validateCriterionParams_eq_ok {floats : FloatArithmetic} {family : GoalFamily}
    {params : Dict ThresholdParam Authored} {values : Dict ThresholdParam Rat} :
    validateCriterionParams floats family params = .ok values ↔
      (∀ param ∈ params.keys, knownParam family param = true) ∧
        Dict.mapM (normalizeThreshold floats family) params = .ok values ∧
        (family = .cycleCount → validateCycleCountBounds values = .ok ()) ∧
        exclusivePair family params.keys = none := by
  have hunknown : (params.keys.filter fun param => !knownParam family param) = [] ↔
      ∀ param ∈ params.keys, knownParam family param = true := by
    simp [List.filter_eq_nil_iff]
  unfold validateCriterionParams
  by_cases hknown : ∀ param ∈ params.keys, knownParam family param = true
  · simp only [hunknown.mpr hknown, ne_eq, not_true_eq_false, if_false]
    constructor
    · intro h
      obtain ⟨normalized, hnormalized, h⟩ := except_bind_eq_ok.mp h
      obtain ⟨⟨⟩, hbounds, h⟩ := except_bind_eq_ok.mp h
      cases hpair : exclusivePair family params.keys with
      | some pair => simp [hpair] at h
      | none =>
        obtain rfl : normalized = values := by simpa [hpair] using h
        refine ⟨hknown, hnormalized, fun hfamily => ?_, rfl⟩
        simpa [hfamily] using hbounds
    · rintro ⟨-, hnormalized, hbounds, hpair⟩
      refine except_bind_eq_ok.mpr ⟨values, hnormalized, except_bind_eq_ok.mpr ⟨(), ?_, ?_⟩⟩
      · by_cases hfamily : family = .cycleCount
        · simpa [hfamily] using hbounds hfamily
        · simp [hfamily]
      · simp [hpair]
  · have hsome : (params.keys.filter fun param => !knownParam family param) ≠ [] :=
      fun h => hknown (hunknown.mp h)
    rw [if_pos hsome]
    constructor
    · intro h
      cases h
    · rintro ⟨h, -⟩
      exact absurd h hknown

theorem validateCycleCountBounds_congr {values others : Dict ThresholdParam Rat}
    (h : ∀ param, values.lookup param = others.lookup param) :
    validateCycleCountBounds values = validateCycleCountBounds others := by
  have hsigned : ∀ unit, validateSignedBounds values unit = validateSignedBounds others unit := by
    intro unit
    have hlower : lowerBounds values unit = lowerBounds others unit := by
      simp only [lowerBounds, h]
    have hupper : upperBounds values unit = upperBounds others unit := by
      simp only [upperBounds, h]
    rw [validateSignedBounds, validateSignedBounds, hlower, hupper]
  simp only [validateCycleCountBounds, h, hsigned]

theorem mem_keys_of_mapM {floats : FloatArithmetic} {family : GoalFamily}
    {params : Dict ThresholdParam Authored} {values : Dict ThresholdParam Rat}
    (h : Dict.mapM (normalizeThreshold floats family) params = .ok values)
    {param : ThresholdParam} : param ∈ params.keys ↔ (values.lookup param).isSome := by
  rw [← AList.mem_keys, ← AList.lookup_isSome, Option.isSome_iff_exists, Option.isSome_iff_exists]
  constructor
  · rintro ⟨written, hwritten⟩
    obtain ⟨value, -, hvalue⟩ := Dict.exists_of_mapM h hwritten
    exact ⟨value, hvalue⟩
  · rintro ⟨value, hvalue⟩
    obtain ⟨written, hwritten, -⟩ := (Dict.lookup_mapM h).mp hvalue
    exact ⟨written, hwritten⟩

/-- The rules read which thresholds are set and to what, nothing else. -/
theorem validateCriterionParams_congr {floats : FloatArithmetic} {family : GoalFamily}
    {params params' : Dict ThresholdParam Authored} {values values' : Dict ThresholdParam Rat}
    (hvalid : validateCriterionParams floats family params = .ok values)
    (hmapped : Dict.mapM (normalizeThreshold floats family) params' = .ok values')
    (hsame : ∀ param, values.lookup param = values'.lookup param) :
    validateCriterionParams floats family params' = .ok values' := by
  obtain ⟨hknown, hnormalized, hbounds, hpair⟩ := validateCriterionParams_eq_ok.mp hvalid
  have hkeys : ∀ param, param ∈ params'.keys ↔ param ∈ params.keys := by
    intro param
    rw [mem_keys_of_mapM hmapped, mem_keys_of_mapM hnormalized, hsame]
  refine validateCriterionParams_eq_ok.mpr ⟨?_, hmapped, ?_, ?_⟩
  · intro param hparam
    exact hknown param ((hkeys param).mp hparam)
  · intro hfamily
    rw [← validateCycleCountBounds_congr hsame]
    exact hbounds hfamily
  · rw [exclusivePair_eq_none] at hpair ⊢
    intro pair hmem clock hleft hright
    exact hpair pair hmem clock ((hkeys _).mp hleft) ((hkeys _).mp hright)

end Booley.Goals
