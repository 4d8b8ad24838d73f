import Booley.Goals.GroupMerge

/-!
# The merge of one group, and of all arguments

`merge` establishes the requirement of the merged Goal whichever member comes first, and
`translateGoals` merges to one Goal exactly when all its arguments are of one group.
-/
namespace Booley.Goals

open Booley.Lib Booley.TestRuns

variable {floats : FloatArithmetic} {names : Option Checkout} {group : MergeGroup}
  {family : GoalFamily} {members members' : List (Member floats)}

/-! ## The merger of a group -/

theorem mergeArgs_target {first : Member floats} {own : TargetGoalArg}
    (hfirst : first.arg = .target own) :
    mergeArgs names first members = .ok (mergeTarget own.family first members) := by
  by_cases hsim : own.family = .sim
  · simp [mergeArgs, hfirst, mergeTarget, hsim]
  · simp [mergeArgs, hfirst, mergeTarget, hsim]

theorem mergedOf_mergeArgs (hgroup : InGroup names group family members)
    {first : Member floats} (hmem : first ∈ members) {arg : GoalArg}
    {decisions : List MergeDecision}
    (h : mergeArgs names first members = .ok (arg, decisions)) {goal : TranslatedGoal}
    (hgoal : translateOne floats arg = .ok goal) : MergedOf names (memberGoals members) goal := by
  have hfamily := hgroup.family first hmem
  cases hfirst : first.arg with
  | target own =>
    rw [mergeArgs_target hfirst] at h
    have hpair := Except.ok.inj h
    have harg : (mergeTarget own.family first members).1 = arg := by rw [hpair]
    rw [← harg] at hgoal
    exact mergedOf_target hgroup hmem hfirst hgoal
  | implementation own =>
    simp only [mergeArgs, hfirst] at h
    exact mergedOf_implementation hgroup hmem hfirst h hgoal
  | cycleCount own =>
    simp only [mergeArgs, hfirst] at h
    have harg : (mergeCycleCount own members).1 = arg := by rw [Except.ok.inj h]
    rw [hfirst] at hfamily
    subst hfamily
    rw [← harg] at hgoal
    exact mergedOf_cycleCount hgroup hmem hfirst hgoal
  | coverage own =>
    simp only [mergeArgs, hfirst] at h
    rw [hfirst] at hfamily
    subst hfamily
    exact mergedOf_coverage hgroup hmem hfirst h hgoal
  | mutation own =>
    simp only [mergeArgs, hfirst] at h
    rw [hfirst] at hfamily
    subst hfamily
    exact mergedOf_mutation hgroup hmem hfirst h hgoal
  | review own =>
    simp only [mergeArgs, hfirst] at h
    rw [hfirst] at hfamily
    subst hfamily
    exact mergedOf_review hgroup hmem hfirst h hgoal

/-- The members of one group have arguments of one shape. -/
theorem mergeArgs_perm (hgroup : InGroup names group family members)
    (hperm : members.Perm members') {first first' : Member floats} (hmem : first ∈ members)
    (hmem' : first' ∈ members) {arg : GoalArg} {decisions : List MergeDecision}
    (h : mergeArgs names first members = .ok (arg, decisions)) :
    MergesAgain floats arg decisions (mergeArgs names first' members') := by
  have hfamily := hgroup.family first hmem
  have hfamily' := hgroup.family first' hmem'
  cases hfirst : first.arg with
  | target own =>
    obtain ⟨own', hfirst'⟩ := exists_target_of_family first'.arg (by
      rw [hfamily', ← hfamily, hfirst]
      obtain hsim | ⟨hlint | helaboration, -⟩ := own.admitted
      · exact .inl hsim
      · exact .inr (.inl hlint)
      · exact .inr (.inr helaboration))
    rw [mergeArgs_target hfirst] at h
    have hpair := Except.ok.inj h
    have hagain := mergeTarget_perm hgroup hperm hmem hmem' hfirst hfirst'
    rw [mergeArgs_target hfirst']
    rwa [hpair] at hagain
  | implementation own =>
    obtain ⟨own', hfirst'⟩ := exists_implementation_of_family first'.arg (by
      rw [hfamily', ← hfamily, hfirst]
      exact own.admitted)
    simp only [mergeArgs, hfirst, hfirst'] at h ⊢
    exact mergeImplementation_perm hgroup hperm hmem hmem' hfirst hfirst' h
  | cycleCount own =>
    rw [hfirst] at hfamily
    subst hfamily
    obtain ⟨own', hfirst'⟩ := exists_arg_of_family.1 hfamily'
    simp only [mergeArgs, hfirst, hfirst'] at h ⊢
    have hpair := Except.ok.inj h
    have hagain := mergeCycleCount_perm hgroup hperm (List.ne_nil_of_mem hmem) own own'
    rwa [hpair] at hagain
  | coverage own =>
    rw [hfirst] at hfamily
    subst hfamily
    obtain ⟨own', hfirst'⟩ := exists_arg_of_family.2.1 hfamily'
    simp only [mergeArgs, hfirst, hfirst'] at h ⊢
    exact mergeCoverage_perm hgroup hperm hmem hmem' hfirst hfirst' h
  | mutation own =>
    rw [hfirst] at hfamily
    subst hfamily
    obtain ⟨own', hfirst'⟩ := exists_arg_of_family.2.2.1 hfamily'
    simp only [mergeArgs, hfirst, hfirst'] at h ⊢
    exact mergeMutation_perm hgroup hperm hmem hmem' hfirst hfirst' h
  | review own =>
    rw [hfirst] at hfamily
    subst hfamily
    obtain ⟨own', hfirst'⟩ := exists_arg_of_family.2.2.2 hfamily'
    simp only [mergeArgs, hfirst, hfirst'] at h ⊢
    exact mergeReview_perm hgroup hperm hmem hmem' hfirst h

/-! ## One group -/

theorem strictestOf_single {κ : Type} [DecidableEq κ] (rank : κ → Rat → Rat)
    (values : Dict κ Rat) : StrictestOf rank [values] values := by
  intro name
  cases hvalue : values.lookup name with
  | none => simpa using hvalue
  | some value =>
    constructor
    · exact ⟨values, by simp, hvalue⟩
    · intro given hgiven other hother
      obtain rfl := List.mem_singleton.mp hgiven
      obtain rfl := Option.some.inj (hvalue.symm.trans hother)
      exact le_rfl

/-- A lone Goal is merged already. -/
theorem mergedOf_single (member : Member floats) : MergedOf names [member.goal] member.goal := by
  have hparams : MergedParams names [member.goal] member.goal := by
    have htranslated := member.translated
    unfold MergedParams
    cases harg : member.arg with
    | target arg =>
      rw [harg] at htranslated
      cases htest : arg.test with
      | none =>
        rw [translateOne_wholeTarget htest] at htranslated
        simp [htranslated, SameTarget]
      | some test =>
        rw [translateOne_test htest] at htranslated
        simp [htranslated, SameTest]
    | implementation arg =>
      rw [harg] at htranslated
      obtain ⟨thresholds, hvalid, hread, hgoal⟩ := translateOne_implementation.mp htranslated
      simp only [hgoal, List.mem_singleton, forall_eq, List.filterMap_cons, List.filterMap_nil,
        TranslatedGoal.thresholds, TranslatedGoal.targetName, Option.getD_some]
      refine ⟨⟨trivial, thresholds, arg.baseline, rfl, fun _ => rfl⟩, strictestOf_single _ _, ?_,
        arg.otherTarget⟩
      intro hnone
      cases hbaseline : arg.baseline with
      | none => rfl
      | some baseline => simp [hread (by simp [hbaseline])] at hnone
    | cycleCount arg =>
      rw [harg] at htranslated
      obtain ⟨-, thresholds, -, hgoal⟩ := translateOne_cycleCount.mp htranslated
      simp only [hgoal, List.mem_singleton, forall_eq, List.filterMap_cons, List.filterMap_nil,
        TranslatedGoal.thresholds]
      exact ⟨⟨_, _, _, rfl, rfl⟩, strictestOf_single _ _⟩
    | coverage arg =>
      rw [harg] at htranslated
      obtain ⟨-, -, metrics, -, hgoal⟩ := translateOne_coverage.mp htranslated
      simp only [hgoal, List.mem_singleton, forall_eq, List.filterMap_cons, List.filterMap_nil,
        TranslatedGoal.floors]
      exact ⟨⟨_, _, _, rfl, rfl, rfl⟩, strictestOf_single _ _⟩
    | mutation arg =>
      rw [harg] at htranslated
      obtain ⟨params, -, hgoal⟩ := translateOne_mutation.mp htranslated
      simp only [hgoal, List.mem_singleton, forall_eq]
      refine ⟨⟨trivial, params, rfl, rfl, rfl, rfl, ?_⟩, ?_⟩
      · exact fun floor hfloor => ⟨floor, hfloor, le_rfl⟩
      · exact fun largest hlargest => ⟨_, rfl, params, rfl, hlargest⟩
    | review arg =>
      rw [harg] at htranslated
      simp [translateOne_review.mp htranslated]
  exact ⟨by simp, hparams⟩

theorem sameParams_symm {params others : GoalParams} (h : sameParams params others = true) :
    sameParams others params = true := by
  cases params <;> cases others <;> grind [sameParams, Dict.sameAs_iff]

theorem sameParams_trans {params others third : GoalParams} (h : sameParams params others = true)
    (h' : sameParams others third = true) : sameParams params third = true := by
  cases params <;> cases others <;> simp only [sameParams, Bool.false_eq_true] at h <;>
    cases third <;> grind [sameParams, Dict.sameAs_iff]

/-- Whether all members read like the first does not depend on which one is first. -/
theorem all_sameParams_perm (hperm : members.Perm members') {first first' : Member floats}
    (hmem' : first' ∈ members)
    (h : (members.all fun member => sameParams member.goal.params first.goal.params) = true) :
    (members'.all fun member => sameParams member.goal.params first'.goal.params) = true := by
  rw [List.all_eq_true] at h ⊢
  intro member hmember
  have hown := h member (hperm.mem_iff.mpr hmember)
  exact sameParams_trans hown (sameParams_symm (h first' hmem'))

theorem sameTestRunNote_perm (hperm : members.Perm members') :
    sameTestRunNote members' = [] → sameTestRunNote members = [] := by
  have hwritten := hperm.filterMap fun member =>
    (oneSelector member.arg).map fun test => selectorText test.selector
  have hlength := (distinct_perm fun text => hwritten.mem_iff (a := text)).length_eq
  unfold sameTestRunNote
  simp only [hlength]
  intro h
  split_ifs at h ⊢
  rfl

/-- What a merge of several members comes from. -/
theorem merge_eq_ok {first : Member floats} {others : List (Member floats)} (hothers : others ≠ [])
    {goal : TranslatedGoal} {warning : Option MergeWarning} :
    merge names first others = .ok (goal, warning) ↔
      (∀ member ∈ first :: others, ∀ member' ∈ first :: others,
        member.arg.family = member'.arg.family) ∧
      ∃ arg decisions merged, mergeArgs names first (first :: others) = .ok (arg, decisions) ∧
        translateOne floats arg = .ok merged ∧
        (((first :: others).all fun member =>
            sameParams member.goal.params first.goal.params) = true ∨
          decisions ++ sameTestRunNote (first :: others) ≠ []) ∧
        goal = { merged with
          origins := distinct ((first :: others).flatMap fun member => member.goal.origins) } ∧
        warning = some ⟨goal.key, goal.origins,
          decisions ++ sameTestRunNote (first :: others)⟩ := by
  have hfamilies : (∀ member ∈ first :: others, ∀ member' ∈ first :: others,
      member.arg.family = member'.arg.family) ↔
      (distinct ((first :: others).map fun member => member.arg.family)).length ≤ 1 := by
    rw [length_distinct_le_one_iff]
    simp only [List.forall_mem_map]
  rw [hfamilies]
  unfold merge
  rw [if_neg hothers]
  by_cases hmany : (distinct ((first :: others).map fun member => member.arg.family)).length > 1
  · have hnot : ¬ (distinct ((first :: others).map fun member =>
        member.arg.family)).length ≤ 1 := by omega
    simp only [hmany, if_true, reduceCtorEq, hnot, false_and]
  · rw [if_neg hmany, and_iff_right (Nat.le_of_not_lt hmany)]
    simp only [except_bind_eq_ok, Prod.exists, except_mapError_eq_ok]
    refine exists_congr fun arg => exists_congr fun decisions => ?_
    constructor
    · rintro ⟨hargs, merged, hmerged, h⟩
      split_ifs at h with hwarned
      obtain ⟨rfl, rfl⟩ := Prod.mk.inj (Except.ok.inj h)
      refine ⟨merged, hargs, hmerged, ?_, rfl, rfl⟩
      simpa [List.isEmpty_iff] using hwarned
    · rintro ⟨merged, hargs, hmerged, hwarned, rfl, rfl⟩
      refine ⟨hargs, merged, hmerged, ?_⟩
      rw [if_pos (by simpa [List.isEmpty_iff] using hwarned)]

/-- A merge states what all members require. -/
theorem mergedOf_merge {first : Member floats} {others : List (Member floats)}
    (hgroup : ∀ member ∈ first :: others, mergeGroup names member.arg member.goal = .ok group)
    {goal : TranslatedGoal} {warning : Option MergeWarning}
    (h : merge names first others = .ok (goal, warning)) :
    MergedOf names (memberGoals (first :: others)) goal := by
  by_cases hothers : others = []
  · subst hothers
    obtain ⟨rfl, -⟩ := Prod.mk.inj (Except.ok.inj h)
    exact mergedOf_single first
  · obtain ⟨hfamily, arg, decisions, merged, hargs, hmerged, -, rfl, -⟩ := (merge_eq_ok hothers).mp h
    have hin : InGroup names group first.arg.family (first :: others) :=
      ⟨hgroup, fun member hmember => hfamily member hmember first (by simp)⟩
    have hof := mergedOf_mergeArgs hin (by simp) hargs hmerged
    exact ⟨hof.family, hof.params⟩

/-- A group that merges, merges in every order. -/
theorem merge_perm {first first' : Member floats} {others others' : List (Member floats)}
    (hgroup : ∀ member ∈ first :: others, mergeGroup names member.arg member.goal = .ok group)
    (hperm : (first :: others).Perm (first' :: others'))
    {goal : TranslatedGoal} {warning : Option MergeWarning}
    (h : merge names first others = .ok (goal, warning)) :
    ∃ goal' warning', merge names first' others' = .ok (goal', warning') := by
  by_cases hothers : others = []
  · subst hothers
    have hsingle := List.singleton_perm.mp hperm
    simp only [List.cons.injEq] at hsingle
    exact ⟨first'.goal, none, by simp [merge, ← hsingle.2]⟩
  · have hothers' : others' ≠ [] := by
      intro hnil
      have hlength := hperm.length_eq
      have := List.length_pos_of_ne_nil hothers
      simp [hnil] at hlength
      exact hothers hlength
    obtain ⟨hfamily, arg, decisions, merged, hargs, hmerged, hwarned, -, -⟩ :=
      (merge_eq_ok hothers).mp h
    have hmem' : first' ∈ first :: others := hperm.mem_iff.mpr (by simp)
    have hin : InGroup names group first.arg.family (first :: others) :=
      ⟨hgroup, fun member hmember => hfamily member hmember first (by simp)⟩
    obtain ⟨arg', decisions', hargs', hdecided, htranslates⟩ :=
      mergeArgs_perm hin hperm (by simp) hmem' hargs
    obtain ⟨merged', hmerged'⟩ := htranslates merged hmerged
    refine ⟨_, _, (merge_eq_ok hothers').mpr ⟨?_, arg', decisions', merged', hargs', hmerged', ?_,
      rfl, rfl⟩⟩
    · intro member hmember member' hmember'
      exact hfamily member (hperm.mem_iff.mpr hmember) member' (hperm.mem_iff.mpr hmember')
    · rcases hwarned with hidentical | hdecisions
      · exact .inl (all_sameParams_perm hperm hmem' hidentical)
      · refine .inr fun hnone => hdecisions ?_
        obtain ⟨hnone, hnote⟩ := List.append_eq_nil_iff.mp hnone
        rw [hdecided hnone, sameTestRunNote_perm hperm hnote, List.append_nil]

/-! ## All arguments -/

/-- The arguments of an entry with their groups, in order. -/
def Translated (names : Option Checkout) (args : List GoalArg)
    (translated : List (MergeGroup × Member floats)) : Prop :=
  List.Forall₂ (fun arg entry =>
    entry.2.arg = arg ∧ mergeGroup names entry.2.arg entry.2.goal = .ok entry.1) args translated

theorem translateAll_eq_ok {args : List GoalArg} {index : Nat}
    {translated : List (MergeGroup × Member floats)} :
    translateAll floats names index args = .ok translated ↔ Translated names args translated := by
  unfold Translated
  induction args generalizing index translated with
  | nil =>
    simp only [translateAll, Except.ok.injEq, List.forall₂_nil_left_iff]
    exact eq_comm
  | cons arg rest ih =>
    unfold translateAll
    rw [List.forall₂_cons_left_iff]
    constructor
    · intro h
      split at h
      · cases h
      · rename_i goal htranslated
        obtain ⟨group, hgroup, h⟩ := except_bind_eq_ok.mp h
        obtain ⟨others, hothers, h⟩ := except_bind_eq_ok.mp h
        obtain rfl := Except.ok.inj h
        exact ⟨(group, ⟨arg, goal, htranslated⟩), others,
          ⟨rfl, except_mapError_eq_ok.mp hgroup⟩, ih.mp hothers, rfl⟩
    · rintro ⟨⟨group, member⟩, others, ⟨rfl, hgroup⟩, hothers, rfl⟩
      have htranslated := member.translated
      split
      · rename_i reason hfailed
        rw [htranslated] at hfailed
        cases hfailed
      · rename_i goal hgoal
        obtain rfl : member.goal = goal := Except.ok.inj (htranslated.symm.trans hgoal)
        exact except_bind_eq_ok.mpr ⟨group, except_mapError_eq_ok.mpr hgroup,
          except_bind_eq_ok.mpr ⟨others, ih.mpr hothers, rfl⟩⟩

theorem Translated.map_arg {args : List GoalArg} {translated : List (MergeGroup × Member floats)}
    (h : Translated names args translated) :
    translated.map (fun entry => entry.2.arg) = args := by
  induction h with
  | nil => rfl
  | cons hhead _ ih => simp [hhead.1, ih]

theorem Translated.mergeGroup_eq {args : List GoalArg} {translated : List (MergeGroup × Member floats)}
    (h : Translated names args translated) :
    ∀ entry ∈ translated, mergeGroup names entry.2.arg entry.2.goal = .ok entry.1 := by
  induction h with
  | nil => simp
  | cons hhead _ ih => simpa [hhead.2] using ih

/-- The groups merge to one Goal exactly when there is one, and its members merge. -/
theorem mergeGroups_groupsOf_eq_single {translated : List (MergeGroup × Member floats)}
    {merged : TranslatedGoal × Option MergeWarning} :
    mergeGroups names (groupsOf translated) = .ok [merged] ↔
      ∃ group first others, translated.map Prod.snd = first :: others ∧
        (∀ entry ∈ translated, entry.1 = group) ∧ merge names first others = .ok merged := by
  have hone : ∀ {group}, distinct (translated.map Prod.fst) = [group] →
      (∀ entry ∈ translated, entry.1 = group) ∧
        groupsOf translated = [translated.map Prod.snd] := by
    intro group hgroup
    have hall : ∀ entry ∈ translated, entry.1 = group := by
      intro entry hentry
      have := mem_distinct.mpr (List.mem_map_of_mem (f := Prod.fst) hentry)
      simpa [hgroup] using this
    refine ⟨hall, ?_⟩
    have hfilter : translated.filter (·.1 = group) = translated := by
      rw [List.filter_eq_self]
      simpa using hall
    simp [groupsOf, hgroup, hfilter]
  -- each group has a member, so there are as many Goals as groups
  have hlength : ∀ (groups : List MergeGroup),
      (∀ group ∈ groups, group ∈ translated.map Prod.fst) → ∀ {goals},
      mergeGroups names (groups.map fun group =>
        (translated.filter (·.1 = group)).map Prod.snd) = .ok goals →
      goals.length = groups.length := by
    intro groups
    induction groups with
    | nil =>
      intro _ goals h
      obtain rfl := Except.ok.inj h
      rfl
    | cons group rest ih =>
      intro hmem goals h
      obtain ⟨entry, hentry, hgroup⟩ := List.mem_map.mp (hmem group (by simp))
      cases hmembers : (translated.filter (·.1 = group)).map Prod.snd with
      | nil =>
        simp only [List.map_eq_nil_iff, List.filter_eq_nil_iff] at hmembers
        simpa [hgroup] using hmembers entry hentry
      | cons first others =>
        rw [List.map_cons, hmembers] at h
        unfold mergeGroups at h
        obtain ⟨_, -, h⟩ := except_bind_eq_ok.mp h
        obtain ⟨goals', hgoals', h⟩ := except_bind_eq_ok.mp h
        obtain rfl := Except.ok.inj h
        simp [ih (fun group' h' => hmem group' (by simp [h'])) hgoals']
  constructor
  · intro h
    have hcount := hlength _ (fun group h' => mem_distinct.mp h') h
    obtain ⟨group, hgroup⟩ := List.length_eq_one_iff.mp hcount.symm
    obtain ⟨hall, hmembers⟩ := hone hgroup
    rw [hmembers] at h
    cases htranslated : translated.map Prod.snd with
    | nil => simp [htranslated, mergeGroups] at h
    | cons first others =>
      rw [htranslated] at h
      simp only [mergeGroups, except_bind_eq_ok] at h
      obtain ⟨found, hfound, _, hnil, h⟩ := h
      obtain rfl := Except.ok.inj hnil
      obtain ⟨rfl, -⟩ := List.cons.inj (Except.ok.inj h)
      exact ⟨group, first, others, rfl, hall, hfound⟩
  · rintro ⟨group, first, others, hmembers, hall, hmerged⟩
    have hgroups : distinct (translated.map Prod.fst) = [group] := by
      have hsub : ∀ given ∈ distinct (translated.map Prod.fst), given = group := by
        intro given hgiven
        obtain ⟨entry, hentry, rfl⟩ := List.mem_map.mp (mem_distinct.mp hgiven)
        exact hall entry hentry
      have hne : distinct (translated.map Prod.fst) ≠ [] := by
        intro hnil
        cases htranslated : translated with
        | nil => simp [htranslated] at hmembers
        | cons entry rest =>
          have := mem_distinct.mpr (List.mem_map_of_mem (f := Prod.fst)
            (show entry ∈ translated by simp [htranslated]))
          simp [hnil] at this
      have hle := length_distinct_le_one_iff.mpr (fun given hgiven other hother =>
        (hsub given (mem_distinct.mpr hgiven)).trans (hsub other (mem_distinct.mpr hother)).symm)
      obtain ⟨given, hgiven⟩ := List.length_eq_one_iff.mp
        (le_antisymm hle (List.length_pos_of_ne_nil hne))
      rw [hgiven, hsub given (by simp [hgiven])]
    rw [(hone hgroups).2, hmembers]
    simp [mergeGroups, hmerged, except_bind_eq_ok]

/-- The arguments merge to one Goal: they are of one group, and its members merge. -/
theorem translateGoals_eq_single {args : List GoalArg} {goal : TranslatedGoal}
    {warnings : List MergeWarning} :
    translateGoals floats names args = .ok ⟨[goal], warnings⟩ ↔
      ∃ group first others warning,
        (first :: others).map (fun member : Member floats => member.arg) = args ∧
        (∀ member ∈ first :: others, mergeGroup names member.arg member.goal = .ok group) ∧
        merge names first others = .ok (goal, warning) ∧ warnings = warning.toList := by
  have hkeys : requireDistinctKeys [goal] = .ok () := by simp [requireDistinctKeys, distinct]
  simp only [translateGoals, except_bind_eq_ok, translateAll_eq_ok, Except.ok.injEq]
  constructor
  · rintro ⟨translated, htranslated, merged, hmerged, ⟨⟩, -, h⟩
    obtain ⟨hgoals, hwarnings⟩ := Translation.mk.inj h
    obtain ⟨⟨found, warning⟩, rfl, rfl⟩ := List.map_eq_singleton_iff.mp hgoals
    obtain ⟨group, first, others, hmembers, hall, hmerge⟩ := mergeGroups_groupsOf_eq_single.mp hmerged
    refine ⟨group, first, others, warning, ?_, ?_, hmerge, ?_⟩
    · rw [← hmembers, List.map_map, ← htranslated.map_arg]
      rfl
    · intro member hmember
      rw [← hmembers] at hmember
      obtain ⟨entry, hentry, rfl⟩ := List.mem_map.mp hmember
      rw [← hall entry hentry]
      exact htranslated.mergeGroup_eq entry hentry
    · rw [← hwarnings]
      cases warning <;> rfl
  · rintro ⟨group, first, others, warning, rfl, hgroup, hmerge, rfl⟩
    have htranslated : Translated names ((first :: others).map fun member => member.arg)
        ((first :: others).map fun member => (group, member)) := by
      unfold Translated
      rw [List.forall₂_map_left_iff, List.forall₂_map_right_iff, List.forall₂_same]
      exact fun member hmember => ⟨rfl, hgroup member hmember⟩
    refine ⟨_, htranslated, [(goal, warning)], mergeGroups_groupsOf_eq_single.mpr
      ⟨group, first, others, ?_, ?_, hmerge⟩, (), by simpa using hkeys, ?_⟩
    · simp
    · simp
    · cases warning <;> rfl

end Booley.Goals
