import Booley.Goals.MergeOrder

/-!
# Merging one group

The mergers without thresholds, and from all mergers the specification of `merge`: the
merged Goal has the merged requirement, and the same members merge in every order.
-/
namespace Booley.Goals

open Booley.Lib Booley.TestRuns

variable {floats : FloatArithmetic} {names : Option Checkout} {group : MergeGroup}
  {family : GoalFamily} {members members' : List (Member floats)}

/-! ## Mutation Goals -/

theorem validateMutationParams_eq_ok {arg : MutationGoalArg} {params : MutationParams} :
    validateMutationParams arg = .ok params ↔
      mutationScope arg.scope = .ok params.scope ∧
      positiveInteger "total" arg.total = .ok params.total ∧
      mutationAuto arg.auto = .ok params.auto ∧
      positiveInteger "min_detected" arg.minDetected = .ok params.minDetected ∧
      (∀ floor count, params.minDetected = some floor → params.total = some count →
        floor ≤ count) ∧
      (params.total.isSome = true → params.auto = false) := by
  simp only [validateMutationParams, except_bind_eq_ok]
  constructor
  · rintro ⟨scope, hscope, total, htotal, auto, hauto, minDetected, hmin, h⟩
    cases total with
    | none =>
      obtain rfl : ⟨scope, none, auto, minDetected⟩ = params := by
        cases minDetected with
        | none => exact Except.ok.inj h
        | some floor => exact Except.ok.inj h
      exact ⟨hscope, htotal, hauto, hmin, by simp, by simp⟩
    | some count =>
      cases auto with
      | true =>
        cases minDetected with
        | none => simp at h
        | some floor =>
          by_cases hlt : count < floor
          · simp [hlt] at h
          · simp [hlt] at h
      | false =>
        cases minDetected with
        | none =>
          obtain rfl : ⟨scope, some count, false, none⟩ = params := by simpa using h
          exact ⟨hscope, htotal, hauto, hmin, by simp, by simp⟩
        | some floor =>
          by_cases hlt : count < floor
          · simp [hlt] at h
          · obtain rfl : ⟨scope, some count, false, some floor⟩ = params := by
              simpa [hlt] using h
            exact ⟨hscope, htotal, hauto, hmin, by simpa using hlt, by simp⟩
  · rintro ⟨hscope, htotal, hauto, hmin, hle, hexclusive⟩
    obtain ⟨scope, total, auto, minDetected⟩ := params
    refine ⟨scope, hscope, total, htotal, auto, hauto, minDetected, hmin, ?_⟩
    cases total with
    | none => cases minDetected <;> rfl
    | some count =>
      obtain rfl : auto = false := hexclusive rfl
      cases minDetected with
      | none => rfl
      | some floor =>
        have hnot : ¬ count < floor := by simpa using hle floor count rfl rfl
        simp [hnot]

/-- Every member is a mutation Goal of one Target. -/
structure Mutations (target : String) (members : List (Member floats)) : Prop where
  shape : ∀ member ∈ members, ∃ arg params, member.arg = .mutation arg ∧ arg.target = target ∧
    validateMutationParams arg = .ok params ∧
    member.goal = ⟨targetKey .mutation target, .mutation, some target, .mutation params,
      [arg.origin]⟩

theorem mutations_of_inGroup (hgroup : InGroup names group .mutation members)
    {own : MutationGoalArg} {first : Member floats} (hmem : first ∈ members)
    (hfirst : first.arg = .mutation own) : Mutations own.target members := by
  have hfirstTranslated := first.translated
  have hshared := hgroup.group first hmem
  rw [hfirst] at hfirstTranslated hshared
  rw [mergeGroup_mutation hfirstTranslated] at hshared
  refine ⟨fun member hmember => ?_⟩
  obtain ⟨arg, harg⟩ := exists_arg_of_family.2.2.1 (hgroup.family member hmember)
  have htranslated := member.translated
  have hown := hgroup.group member hmember
  rw [harg] at htranslated hown
  rw [mergeGroup_mutation htranslated] at hown
  have hsame := sameTarget_of_plainGroup (Except.ok.inj (hown.trans hshared.symm))
  have htarget : arg.target = own.target := by
    simpa [SameTarget, testRunFamilies] using hsame
  obtain ⟨params, hparams, hgoal⟩ := translateOne_mutation.mp htranslated
  exact ⟨arg, params, harg, htarget, hparams, htarget ▸ hgoal⟩

namespace Mutations

variable {target : String}

theorem mem_mutationsOf (h : Mutations target members)
    {item : MutationGoalArg × MutationParams} :
    item ∈ mutationsOf members ↔
      ∃ member ∈ members, member.arg = .mutation item.1 ∧
        member.goal.params = .mutation item.2 := by
  simp only [mutationsOf, List.mem_filterMap]
  constructor
  · rintro ⟨member, hmember, hitem⟩
    obtain ⟨arg, params, harg, -, -, hgoal⟩ := h.shape member hmember
    simp only [harg, hgoal, Option.some.injEq] at hitem
    subst hitem
    exact ⟨member, hmember, harg, by rw [hgoal]⟩
  · rintro ⟨member, hmember, harg, hparams⟩
    exact ⟨member, hmember, by simp [harg, hparams]⟩

theorem valid (h : Mutations target members) {item : MutationGoalArg × MutationParams}
    (hitem : item ∈ mutationsOf members) : validateMutationParams item.1 = .ok item.2 := by
  obtain ⟨member, hmember, harg, hparams⟩ := h.mem_mutationsOf.mp hitem
  obtain ⟨arg, params, harg', -, hvalid, hgoal⟩ := h.shape member hmember
  obtain rfl : arg = item.1 := GoalArg.mutation.inj (harg'.symm.trans harg)
  rw [hgoal] at hparams
  obtain rfl := GoalParams.mutation.inj hparams
  exact hvalid

/-- The item of one member. -/
theorem item_of_mem (h : Mutations target members) {member : Member floats}
    (hmember : member ∈ members) {own : MutationGoalArg} (harg : member.arg = .mutation own) :
    ∃ params, (own, params) ∈ mutationsOf members ∧ validateMutationParams own = .ok params ∧
      member.goal = ⟨targetKey .mutation target, .mutation, some target, .mutation params,
        [own.origin]⟩ := by
  obtain ⟨arg, params, harg', -, hvalid, hgoal⟩ := h.shape member hmember
  obtain rfl : arg = own := GoalArg.mutation.inj (harg'.symm.trans harg)
  exact ⟨params, h.mem_mutationsOf.mpr ⟨member, hmember, harg, by rw [hgoal]⟩, hvalid, hgoal⟩

end Mutations

/-- The merged `min_detected` bounds of some members. -/
def mergedFloors (members : List (Member floats)) : Merging Unit :=
  mergeValues (fun _ candidate current => current < candidate)
    ((mutationsOf members).map minDetectedBounds)

theorem mergeMutation_eq_ok {first : MutationGoalArg} {arg : GoalArg}
    {decisions : List MergeDecision} :
    mergeMutation first members = .ok (arg, decisions) ↔
      (∀ setting ∈ (mutationsOf members).map fun item => (item.1.scope, item.1.total, item.1.auto),
        ∀ other ∈ (mutationsOf members).map fun item => (item.1.scope, item.1.total, item.1.auto),
          setting = other) ∧
      arg = .mutation { first with
        minDetected := (((mergedFloors members).chosen.lookup ()).map Bound.written).or
          first.minDetected } ∧
      decisions = (mergedFloors members).decisions.map .minDetected := by
  simp only [mergeMutation, except_bind_eq_ok, 
    ← @requireEqual_eq_ok _ members _ _ "mutation scope, total, or auto"]
  constructor
  · rintro ⟨⟨⟩, hequal, h⟩
    obtain ⟨rfl, rfl⟩ := Prod.mk.inj (Except.ok.inj h)
    exact ⟨hequal, rfl, rfl⟩
  · rintro ⟨hequal, rfl, rfl⟩
    exact ⟨(), hequal, rfl⟩

/-- The merged floor: the largest a member sets, none when no member sets one. -/
theorem lookup_mergedFloors {target : String} (h : Mutations target members) :
    match (mergedFloors members).chosen.lookup () with
    | none => ∀ item ∈ mutationsOf members, item.1.minDetected = none
    | some bound => ∃ largest : Nat,
        positiveInteger "min_detected" (some bound.written) = .ok (some largest) ∧
        (∃ item ∈ mutationsOf members, item.2.minDetected = some largest) ∧
        ∀ item ∈ mutationsOf members, ∀ floor, item.2.minDetected = some floor →
          floor ≤ largest := by
  have hkept : KeptOf (boundRank fun _ value => value)
      ((mutationsOf members).map minDetectedBounds).flatten (mergedFloors members).chosen :=
    keptOf_mergeValues floorsRanked _
  have hset : ∀ item ∈ mutationsOf members, ∀ floor, item.2.minDetected = some floor →
      ∃ written, item.1.minDetected = some written ∧
        ((), (⟨written, floor, item.1.origin⟩ : Bound)) ∈
          ((mutationsOf members).map minDetectedBounds).flatten := by
    intro item hitem floor hfloor
    have hvalid := (validateMutationParams_eq_ok.mp (h.valid hitem)).2.2.2.1
    cases hwritten : item.1.minDetected with
    | none => simp [hwritten, positiveInteger, hfloor] at hvalid
    | some written =>
      refine ⟨written, rfl, List.mem_flatten.mpr ⟨minDetectedBounds item, ?_, ?_⟩⟩
      · exact List.mem_map_of_mem hitem
      · simp [minDetectedBounds, hwritten, hfloor]
  cases hlookup : (mergedFloors members).chosen.lookup () with
  | none =>
    intro item hitem
    have hvalid := (validateMutationParams_eq_ok.mp (h.valid hitem)).2.2.2.1
    cases hwritten : item.1.minDetected with
    | none => rfl
    | some written =>
      cases hfloor : item.2.minDetected with
      | none =>
        rw [hwritten, hfloor] at hvalid
        cases written with
        | int value =>
          by_cases hpos : 0 < value
          · simp [positiveInteger, hpos] at hvalid
          · simp [positiveInteger, hpos] at hvalid
        | _ => simp [positiveInteger] at hvalid
      | some floor =>
        obtain ⟨_, -, hmem⟩ := hset item hitem floor hfloor
        obtain ⟨kept, hkept'⟩ := hkept.exists_of_mem hmem
        simp [hlookup] at hkept'
  | some bound =>
    obtain ⟨hmem, hmax⟩ := hkept.strictest hlookup
    obtain ⟨given, hgiven, hbound⟩ := List.mem_flatten.mp hmem
    obtain ⟨item, hitem, rfl⟩ := List.mem_map.mp hgiven
    unfold minDetectedBounds at hbound
    cases hwritten : item.1.minDetected with
    | none => simp [hwritten] at hbound
    | some written =>
      cases hfloor : item.2.minDetected with
      | none => simp [hwritten, hfloor] at hbound
      | some largest =>
        obtain rfl : bound = ⟨written, largest, item.1.origin⟩ := by
          simpa [hwritten, hfloor] using hbound
        have hvalid := (validateMutationParams_eq_ok.mp (h.valid hitem)).2.2.2.1
        refine ⟨largest, by rw [← hwritten, hvalid, hfloor], ⟨item, hitem, hfloor⟩, ?_⟩
        intro other hother floor hotherFloor
        obtain ⟨_, -, hmem'⟩ := hset other hother floor hotherFloor
        have hle := hmax _ hmem'
        simpa [boundRank] using hle

/-- The settings of a merge whose members agree, with its merged floor. -/
theorem validate_mergedMutation {target : String} (h : Mutations target members)
    {own : MutationGoalArg} {first : Member floats} (hmem : first ∈ members)
    (hfirst : first.arg = .mutation own) {params : MutationParams} :
    validateMutationParams { own with
      minDetected := (((mergedFloors members).chosen.lookup ()).map Bound.written).or
        own.minDetected } = .ok params ↔
      ∃ ownParams, validateMutationParams own = .ok ownParams ∧
        params.scope = ownParams.scope ∧ params.total = ownParams.total ∧
        params.auto = ownParams.auto ∧
        (∀ item ∈ mutationsOf members, ∀ floor, item.2.minDetected = some floor →
          ∃ largest, params.minDetected = some largest ∧ floor ≤ largest) ∧
        (∀ largest, params.minDetected = some largest →
          ∃ item ∈ mutationsOf members, item.2.minDetected = some largest) ∧
        ∀ floor count, params.minDetected = some floor → params.total = some count →
          floor ≤ count := by
  obtain ⟨ownParams, hitem, hvalid, -⟩ := h.item_of_mem hmem hfirst
  obtain ⟨hscope, htotal, hauto, hmin, hle, hexclusive⟩ := validateMutationParams_eq_ok.mp hvalid
  have hfloors := lookup_mergedFloors h
  rw [validateMutationParams_eq_ok]
  cases hlookup : (mergedFloors members).chosen.lookup () with
  | none =>
    simp only [hlookup] at hfloors
    have hunset : ∀ item ∈ mutationsOf members, item.2.minDetected = none := by
      intro item hitem
      have := (validateMutationParams_eq_ok.mp (h.valid hitem)).2.2.2.1
      rw [hfloors item hitem] at this
      exact (Except.ok.inj this).symm
    simp only [Option.map_none, Option.none_or]
    constructor
    · rintro ⟨hscope', htotal', hauto', hmin', hle', -⟩
      have hnone : params.minDetected = none := by
        rw [hfloors _ hitem] at hmin'
        exact (Except.ok.inj hmin').symm
      refine ⟨ownParams, hvalid, Except.ok.inj (hscope'.symm.trans hscope),
        Except.ok.inj (htotal'.symm.trans htotal), Except.ok.inj (hauto'.symm.trans hauto),
        ?_, by simp [hnone], hle'⟩
      intro item hitem floor hfloor
      simp [hunset item hitem] at hfloor
    · rintro ⟨given, hgiven, hscope', htotal', hauto', -, hlargest, hle'⟩
      obtain rfl : given = ownParams := Except.ok.inj (hgiven.symm.trans hvalid)
      have hnone : params.minDetected = none := by
        cases hsome : params.minDetected with
        | none => rfl
        | some largest =>
          obtain ⟨item, hitem, hfloor⟩ := hlargest largest hsome
          simp [hunset item hitem] at hfloor
      refine ⟨hscope' ▸ hscope, htotal' ▸ htotal, hauto' ▸ hauto, ?_, hle', ?_⟩
      · rw [hnone, hfloors _ hitem]
        rfl
      · rw [htotal', hauto']
        exact hexclusive
  | some bound =>
    simp only [hlookup] at hfloors
    obtain ⟨largest, hwritten, ⟨top, htop, htopFloor⟩, hmax⟩ := hfloors
    simp only [Option.map_some, Option.some_or, hwritten, Except.ok.injEq]
    constructor
    · rintro ⟨hscope', htotal', hauto', hmin', hle', -⟩
      refine ⟨ownParams, hvalid, Except.ok.inj (hscope'.symm.trans hscope),
        Except.ok.inj (htotal'.symm.trans htotal), Except.ok.inj (hauto'.symm.trans hauto),
        ?_, ?_, hle'⟩
      · intro item hitem floor hfloor
        exact ⟨largest, hmin'.symm, hmax item hitem floor hfloor⟩
      · intro other hother
        obtain rfl : largest = other := Option.some.inj (hmin'.trans hother)
        exact ⟨top, htop, htopFloor⟩
    · rintro ⟨given, hgiven, hscope', htotal', hauto', hall, hsome, hle'⟩
      obtain rfl : given = ownParams := Except.ok.inj (hgiven.symm.trans hvalid)
      refine ⟨hscope' ▸ hscope, htotal' ▸ htotal, hauto' ▸ hauto, ?_, hle', ?_⟩
      · obtain ⟨other, hother, hge⟩ := hall top htop largest htopFloor
        obtain ⟨item, hitem, hfloor⟩ := hsome other hother
        rw [hother, le_antisymm hge (hmax item hitem other hfloor)]
      · rw [htotal', hauto']
        exact hexclusive

theorem mergedOf_mutation (hgroup : InGroup names group .mutation members)
    {first : Member floats} (hmem : first ∈ members) {own : MutationGoalArg}
    (hfirst : first.arg = .mutation own) {arg : GoalArg} {decisions : List MergeDecision}
    (h : mergeMutation own members = .ok (arg, decisions)) {goal : TranslatedGoal}
    (hgoal : translateOne floats arg = .ok goal) : MergedOf names (memberGoals members) goal := by
  have hmutations := mutations_of_inGroup hgroup hmem hfirst
  obtain ⟨hequal, rfl, -⟩ := mergeMutation_eq_ok.mp h
  obtain ⟨params, hvalid, rfl⟩ := translateOne_mutation.mp hgoal
  obtain ⟨ownParams, hown, hscope, htotal, hauto, hall, hlargest, -⟩ :=
    (validate_mergedMutation hmutations hmem hfirst).mp hvalid
  have hsettings : ∀ item ∈ mutationsOf members,
      item.2.scope = params.scope ∧ item.2.total = params.total ∧ item.2.auto = params.auto := by
    intro item hitem
    obtain ⟨_, hfirstItem, -⟩ := hmutations.item_of_mem hmem hfirst
    have hsame := hequal _ (List.mem_map_of_mem hitem) _ (List.mem_map_of_mem hfirstItem)
    simp only [Prod.mk.injEq] at hsame
    obtain ⟨hitemScope, hitemTotal, hitemAuto, -⟩ :=
      validateMutationParams_eq_ok.mp (hmutations.valid hitem)
    obtain ⟨hownScope, hownTotal, hownAuto, -⟩ := validateMutationParams_eq_ok.mp hown
    rw [hsame.1] at hitemScope
    rw [hsame.2.1] at hitemTotal
    rw [hsame.2.2] at hitemAuto
    rw [hscope, htotal, hauto]
    exact ⟨Except.ok.inj (hitemScope.symm.trans hownScope),
      Except.ok.inj (hitemTotal.symm.trans hownTotal),
      Except.ok.inj (hitemAuto.symm.trans hownAuto)⟩
  constructor
  · intro member hmember
    obtain ⟨given, hgiven, rfl⟩ := List.mem_map.mp hmember
    obtain ⟨_, _, -, -, -, hshape⟩ := hmutations.shape given hgiven
    rw [hshape]
  · constructor
    · intro member hmember
      obtain ⟨given, hgiven, rfl⟩ := List.mem_map.mp hmember
      obtain ⟨arg, -, harg, -⟩ := hmutations.shape given hgiven
      obtain ⟨values, hitem, -, hshape⟩ := hmutations.item_of_mem hgiven harg
      obtain ⟨hitemScope, hitemTotal, hitemAuto⟩ := hsettings _ hitem
      rw [hshape]
      exact ⟨rfl, values, rfl, hitemScope, hitemTotal, hitemAuto, hall _ hitem⟩
    · intro largest hsome
      obtain ⟨item, hitem, hfloor⟩ := hlargest largest hsome
      obtain ⟨given, hgiven, -, hparams⟩ := hmutations.mem_mutationsOf.mp hitem
      exact ⟨given.goal, List.mem_map_of_mem hgiven, item.2, hparams, hfloor⟩

theorem mergeMutation_perm (hgroup : InGroup names group .mutation members)
    (hperm : members.Perm members') {first first' : Member floats} (hmem : first ∈ members)
    (hmem' : first' ∈ members) {own own' : MutationGoalArg} (hfirst : first.arg = .mutation own)
    (hfirst' : first'.arg = .mutation own') {arg : GoalArg} {decisions : List MergeDecision}
    (h : mergeMutation own members = .ok (arg, decisions)) :
    MergesAgain floats arg decisions (mergeMutation own' members') := by
  have hmutations := mutations_of_inGroup hgroup hmem hfirst
  have hmutations' := mutations_of_inGroup (hgroup.of_mem_iff fun _ => hperm.mem_iff.symm)
    (hperm.mem_iff.mp hmem') hfirst'
  have hitems : (mutationsOf members).Perm (mutationsOf members') := hperm.filterMap _
  obtain ⟨hequal, rfl, rfl⟩ := mergeMutation_eq_ok.mp h
  refine ⟨_, _, mergeMutation_eq_ok.mpr ⟨?_, rfl, rfl⟩, ?_, ?_⟩
  · intro setting hsetting other hother
    have hsettings := hitems.map fun item => (item.1.scope, item.1.total, item.1.auto)
    exact hequal setting (hsettings.mem_iff.mpr hsetting) other (hsettings.mem_iff.mpr hother)
  · intro hnone
    have := decisions_mergeValues_perm floorsRanked (hitems.map minDetectedBounds)
      (List.map_eq_nil_iff.mp hnone)
    rw [List.map_eq_nil_iff]
    exact this
  · intro goal hgoal
    obtain ⟨params, hvalid, -⟩ := translateOne_mutation.mp hgoal
    obtain ⟨ownParams, hown, hscope, htotal, hauto, hall, hlargest, hle⟩ :=
      (validate_mergedMutation hmutations hmem hfirst).mp hvalid
    obtain ⟨ownParams', hitem', hown', -⟩ := hmutations.item_of_mem hmem' hfirst'
    obtain ⟨_, hitem, -⟩ := hmutations.item_of_mem hmem hfirst
    have hsame := hequal _ (List.mem_map_of_mem hitem') _ (List.mem_map_of_mem hitem)
    simp only [Prod.mk.injEq] at hsame
    obtain ⟨hscope₁, htotal₁, hauto₁, -⟩ := validateMutationParams_eq_ok.mp hown
    obtain ⟨hscope₂, htotal₂, hauto₂, -⟩ := validateMutationParams_eq_ok.mp hown'
    rw [hsame.1] at hscope₂
    rw [hsame.2.1] at htotal₂
    rw [hsame.2.2] at hauto₂
    refine ⟨_, translateOne_mutation.mpr ⟨params,
      (validate_mergedMutation hmutations' (hperm.mem_iff.mp hmem') hfirst').mpr
        ⟨ownParams', hown', ?_, ?_, ?_, ?_, ?_, hle⟩, rfl⟩⟩
    · exact hscope.trans (Except.ok.inj (hscope₁.symm.trans hscope₂))
    · exact htotal.trans (Except.ok.inj (htotal₁.symm.trans htotal₂))
    · exact hauto.trans (Except.ok.inj (hauto₁.symm.trans hauto₂))
    · intro item hitem
      exact hall item (hitems.mem_iff.mpr hitem)
    · intro largest hsome
      obtain ⟨item, hitem, hfloor⟩ := hlargest largest hsome
      exact ⟨item, hitems.mem_iff.mp hitem, hfloor⟩

end Booley.Goals
