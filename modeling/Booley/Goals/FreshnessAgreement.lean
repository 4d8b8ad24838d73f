import Booley.Goals.Freshness

/-!
# Stamping and checking agree

Evidence stamped on some inputs is fresh on the same inputs, and evidence that lacks a required
digest, or holds one that is not the current one, is stale.
-/
namespace Booley.Goals

open Booley.Lib Json

variable {resolvers : GoalFreshnessResolvers} {readers : ReviewReaders} {key : String}
  {goal : Option GoalSpec} {detail current source stamp : Fields} {target : Option String}
  {targetSurface : Option Fields} {entry : FreshnessEntry}

/-! ## One resolution of the current inputs -/

namespace GoalFreshnessResolvers

/-- The resolvers a stamp for a Target is completed with. -/
def frozen (resolvers : GoalFreshnessResolvers) (target : Option String) (excluded : List String) :
    GoalFreshnessResolvers :=
  if target = none then resolvers.withArtifacts excluded else resolvers

theorem fingerprint_eq_ok (h : resolvers.fingerprint target = .ok current) :
    ∃ excluded source surface, resolvers.selectArtifacts target = .ok excluded ∧
      resolvers.sourceFingerprint target (some excluded) = .ok source ∧
      resolvers.surfaceFingerprint target (some excluded) = .ok surface ∧
      current = source.set "target_surface" (.object surface) := by
  obtain ⟨excluded, hexcluded, h⟩ := except_bind_eq_ok.mp h
  obtain ⟨source, hsource, h⟩ := except_bind_eq_ok.mp h
  obtain ⟨surface, hsurface, h⟩ := except_bind_eq_ok.mp h
  exact ⟨excluded, source, surface, hexcluded, hsource, hsurface, (Except.ok.inj h).symm⟩

/-- The artifacts are only left out of what they are selected for. -/
theorem sourceFingerprint_selected {excluded : List String}
    (h : resolvers.selectArtifacts target = .ok excluded) :
    resolvers.sourceFingerprint target none = resolvers.sourceFingerprint target (some excluded) := by
  by_cases hnone : target = none ∧ resolvers.productionSource = true
  · have hpaths : resolvers.artifactPaths = .ok excluded := by
      simpa [selectArtifacts, hnone] using h
    simp [sourceFingerprint, hnone, hpaths]
  · simp [sourceFingerprint, hnone]

theorem surfaceFingerprint_selected {excluded : List String}
    (h : resolvers.selectArtifacts target = .ok excluded) :
    resolvers.surfaceFingerprint target none =
      resolvers.surfaceFingerprint target (some excluded) := by
  by_cases hpolicy : resolvers.policySurface.isSome = true ∨ resolvers.productionSurface = true
  · cases target with
    | none =>
      have hpaths : resolvers.artifactPaths = .ok excluded := by
        rcases hpolicy with hsome | hproduction
        · simpa [selectArtifacts, hsome] using h
        · simpa [selectArtifacts, hproduction] using h
      simp [surfaceFingerprint, hpolicy, hpaths]
    | some name =>
      have hnone : [] = excluded := by simpa [selectArtifacts] using h
      subst hnone
      simp [surfaceFingerprint, hpolicy]
  · simp [surfaceFingerprint, hpolicy]

theorem sourceFingerprint_frozen {excluded : List String}
    (h : resolvers.selectArtifacts target = .ok excluded) :
    (resolvers.frozen target excluded).sourceFingerprint target none =
      resolvers.sourceFingerprint target (some excluded) := by
  cases target with
  | none => simp [frozen, sourceFingerprint, withArtifacts]
  | some name => exact sourceFingerprint_selected h

theorem surfaceFingerprint_frozen {excluded : List String}
    (h : resolvers.selectArtifacts target = .ok excluded) :
    (resolvers.frozen target excluded).surfaceFingerprint target none =
      resolvers.surfaceFingerprint target (some excluded) := by
  cases target with
  | none => simp [frozen, surfaceFingerprint, withArtifacts]
  | some name => exact surfaceFingerprint_selected h

end GoalFreshnessResolvers

/-! ## Stamped evidence -/

/-- Every category that is required or named has a digest in a fingerprint. -/
def Digested (current : Fields) (categories : List String) : Prop :=
  ∀ category ∈ categories, isText (digestOf current category) = true

/-- The categories a stamp names. -/
def namedCategories (stamp : Fields) : List String :=
  ((stamp.get "categories").map texts).getD []

/-- The fingerprint a stamp holds, when it holds one. -/
def fingerprintOf (stamp : Fields) : Option Fields := (stamp.get "fingerprint").bind fields?

/-- The categories compared for a completed stamp: those the key requires, and those the stamp of
a producer names. -/
def comparedCategories (key : String) (stamp : Fields) : List String :=
  goalRequiredCategories key ++
    if (fingerprintOf stamp).isSome then namedCategories stamp else []

/-- The producer of a detail supplied no fingerprint, or one whose digests the source resolver
returns for the Target. -/
def ProducedBy (resolvers : GoalFreshnessResolvers) (key : String) (target : Option String)
    (stamp : Fields) : Prop :=
  ∀ fingerprint, fingerprintOf stamp = some fingerprint →
    ∃ source, resolvers.sourceFingerprint target none = .ok source ∧
      ∀ category ∈ comparedCategories key stamp, category ≠ "target_surface" →
        digestOf fingerprint category = digestOf source category

theorem digestOf_set_self (fingerprint : Fields) (category : String) (value : Json) :
    digestOf (fingerprint.set category value) category = (value.fields?).bind (·.get "digest") := by
  simp [digestOf]

theorem digestOf_set_ne (fingerprint : Fields) {category other : String} (value : Json)
    (hne : category ≠ other) :
    digestOf (fingerprint.set other value) category = digestOf fingerprint category := by
  simp [digestOf, Fields.get_set_ne fingerprint value hne]

/-- What a stamp holds once it is completed. -/
structure Completed (key : String) (target : Option String) (current stamp : Fields) : Prop where
  target : stamp.get "target" = some (targetField target)
  compared : ∃ (fingerprint : Fields) (categories : List String),
    stamp.get "fingerprint" = some (.object fingerprint) ∧
    stamp.get "categories" = some (.list (categories.map .text)) ∧
    (∀ category ∈ goalRequiredCategories key, category ∈ categories) ∧
    ∀ category ∈ categories, isText (digestOf current category) = true ∧
      digestOf fingerprint category = digestOf current category

theorem texts_map_text (categories : List String) :
    (Json.list (categories.map .text)).texts = categories := by
  simp [texts, List.filterMap_map, Function.comp_def, text?]

/-- The surface a stamp is completed with. -/
def surfaceField (resolvers : GoalFreshnessResolvers) (target : Option String)
    (targetSurface : Option Fields) : Json :=
  match targetSurface with
  | some surface => .object surface
  | none => orError (resolvers.surfaceFingerprint target none)

/-- A stamp whose fingerprint is the source resolver's is completed to one that compares equal. -/
theorem completed_completedStamp {fingerprint surface : Fields}
    (htarget : stamp.get "target" = some (targetField target))
    (hfingerprint : fingerprintOf stamp = some fingerprint)
    (hsource : ∀ category ∈ goalRequiredCategories key ++ namedCategories stamp,
      category ≠ "target_surface" → digestOf fingerprint category = digestOf source category)
    (hsurface : surfaceField resolvers target targetSurface = .object surface)
    (hcurrent : current = source.set "target_surface" (.object surface))
    (hdigested : Digested current ("target_surface" ::
      (goalRequiredCategories key ++ namedCategories stamp))) :
    Completed key target current (completedStamp key resolvers target targetSurface stamp) := by
  have hfields : (stamp.get "fingerprint").bind fields? = some fingerprint := hfingerprint
  have hmem : ∀ category, category ∈ (namedCategories stamp ++ goalRequiredCategories key ++
        ["target_surface"]).dedup.insertionSort (· ≤ ·) ↔
      category ∈ "target_surface" :: (goalRequiredCategories key ++ namedCategories stamp) := by
    intro category
    rw [List.mem_insertionSort, List.mem_dedup]
    simp only [List.mem_append, List.mem_cons, List.not_mem_nil, or_false]
    tauto
  constructor
  · unfold completedStamp
    rw [Fields.get_set_ne _ _ (by decide), Fields.get_set_ne _ _ (by decide), htarget]
  · refine ⟨fingerprint.set "target_surface" (.object surface), (namedCategories stamp ++
      goalRequiredCategories key ++ ["target_surface"]).dedup.insertionSort (· ≤ ·), ?_, ?_, ?_, ?_⟩
    · unfold completedStamp
      rw [Fields.get_set_self, hfields, ← hsurface]
      rfl
    · unfold completedStamp
      rw [Fields.get_set_ne _ _ (by decide), Fields.get_set_self]
      rfl
    · intro category hcategory
      exact (hmem category).mpr (by simp [hcategory])
    · intro category hcategory
      refine ⟨hdigested category ((hmem category).mp hcategory), ?_⟩
      rw [hcurrent]
      by_cases heq : category = "target_surface"
      · rw [heq, digestOf_set_self, digestOf_set_self]
      · rw [digestOf_set_ne _ _ heq, digestOf_set_ne _ _ heq]
        refine hsource category ?_ heq
        simpa [heq] using (hmem category).mp hcategory

/-- The detail of a stamp that was completed. -/
theorem stampGoalDetail_get (goal : Option GoalSpec) (resolvers : GoalFreshnessResolvers)
    (targetSurface : Option Fields) (hdone : ¬ (hasSuffix "_done" key ∧
      ((detail.get "verification_only").map truthy).getD false = true)) :
    ∃ frozen : GoalFreshnessResolvers × Fields × Option Fields,
      frozen = (match stampTarget (stampOf detail) goal with
        | none => freezeArtifacts resolvers ((stampOf detail).set "target"
            (targetField (stampTarget (stampOf detail) goal))) targetSurface
        | some _ => (resolvers, (stampOf detail).set "target"
            (targetField (stampTarget (stampOf detail) goal)), targetSurface)) ∧
      (stampGoalDetail key detail goal resolvers targetSurface).get "source_fingerprint" =
        some (.object (completedStamp key frozen.1 (stampTarget (stampOf detail) goal) frozen.2.2
          (fingerprintedStamp frozen.1 (stampTarget (stampOf detail) goal) frozen.2.1))) := by
  refine ⟨_, rfl, ?_⟩
  unfold stampGoalDetail
  rw [if_neg hdone]
  have hstamp : ∀ value, stampOf (detail.set "goal_waiver_policy" value) = stampOf detail := by
    intro value
    unfold stampOf
    rw [Fields.get_set_ne _ _ (by decide)]
  by_cases hcoverage : isCoverageKey key = true
  · simp only [hcoverage, if_true, hstamp]
    exact Fields.get_set_self _ _ _
  · simp only [hcoverage]
    exact Fields.get_set_self _ _ _

/-- What the inputs a stamp is made on have to provide for it to be complete. -/
structure Resolves (resolvers : GoalFreshnessResolvers) (key : String) (target : Option String)
    (stamp : Fields) (targetSurface : Option Fields) (current : Fields) : Prop where
  fingerprint : resolvers.fingerprint target = .ok current
  digested : Digested current ("target_surface" :: comparedCategories key stamp)
  produced : ProducedBy resolvers key target stamp
  supplied : ∀ surface, targetSurface = some surface →
    resolvers.surfaceFingerprint target none = .ok surface

/-- A detail stamped on inputs that resolve compares equal with them. -/
theorem completed_stampGoalDetail
    (hdone : ¬ (hasSuffix "_done" key ∧
      ((detail.get "verification_only").map truthy).getD false = true))
    (h : Resolves resolvers key (stampTarget (stampOf detail) goal) (stampOf detail) targetSurface
      current) :
    ∃ stamp, (stampGoalDetail key detail goal resolvers targetSurface).get "source_fingerprint" =
        some (.object stamp) ∧
      Completed key (stampTarget (stampOf detail) goal) current stamp := by
  obtain ⟨excluded, source, surface, hexcluded, hsource, hsurface, hcurrent⟩ :=
    GoalFreshnessResolvers.fingerprint_eq_ok h.fingerprint
  obtain ⟨frozen, hfrozen, hget⟩ := stampGoalDetail_get goal resolvers targetSurface hdone
  refine ⟨_, hget, ?_⟩
  generalize htarget : stampTarget (stampOf detail) goal = target at *
  have hfrozen : frozen = (resolvers.frozen target excluded,
      (stampOf detail).set "target" (targetField target), targetSurface) := by
    rw [hfrozen]
    cases target with
    | none =>
      dsimp only [freezeArtifacts]
      rw [hexcluded]
      rfl
    | some name => rfl
  rw [hfrozen]
  dsimp only
  have hsurfaceField : surfaceField (resolvers.frozen target excluded) target targetSurface =
      .object surface := by
    cases hsupplied : targetSurface with
    | none =>
      unfold surfaceField
      rw [GoalFreshnessResolvers.surfaceFingerprint_frozen hexcluded, hsurface]
      rfl
    | some supplied =>
      have heq := h.supplied supplied hsupplied
      rw [GoalFreshnessResolvers.surfaceFingerprint_selected hexcluded, hsurface] at heq
      rw [Except.ok.inj heq]
      rfl
  have hproducer : fingerprintOf ((stampOf detail).set "target" (targetField target)) =
      fingerprintOf (stampOf detail) := by
    unfold fingerprintOf
    rw [Fields.get_set_ne _ _ (by decide)]
  have hnamed : namedCategories ((stampOf detail).set "target" (targetField target)) =
      namedCategories (stampOf detail) := by
    unfold namedCategories
    rw [Fields.get_set_ne _ _ (by decide)]
  cases hfingerprint : fingerprintOf (stampOf detail) with
  | none =>
    have hstamp : fingerprintedStamp (resolvers.frozen target excluded) target
          ((stampOf detail).set "target" (targetField target)) =
        [("target", targetField target), ("categories", .list []),
          ("fingerprint", .object source)] := by
      have hnone : (((stampOf detail).set "target" (targetField target)).get "fingerprint").bind
          fields? = none := hproducer.trans hfingerprint
      unfold fingerprintedStamp
      rw [hnone]
      dsimp only
      rw [GoalFreshnessResolvers.sourceFingerprint_frozen hexcluded, hsource]
      rfl
    rw [hstamp]
    refine completed_completedStamp rfl rfl (fun _ _ _ => rfl) hsurfaceField hcurrent ?_
    have hnone : namedCategories [("target", targetField target), ("categories", .list []),
        ("fingerprint", .object source)] = [] := rfl
    have hcompared : comparedCategories key (stampOf detail) = goalRequiredCategories key := by
      simp [comparedCategories, hfingerprint]
    rw [hnone, List.append_nil, ← hcompared]
    exact h.digested
  | some fingerprint =>
    have hstamp : fingerprintedStamp (resolvers.frozen target excluded) target
          ((stampOf detail).set "target" (targetField target)) =
        (stampOf detail).set "target" (targetField target) := by
      have hsome : (((stampOf detail).set "target" (targetField target)).get "fingerprint").bind
          fields? = some fingerprint := hproducer.trans hfingerprint
      unfold fingerprintedStamp
      rw [hsome]
    have hcompared : comparedCategories key (stampOf detail) =
        goalRequiredCategories key ++ namedCategories (stampOf detail) := by
      simp [comparedCategories, hfingerprint]
    obtain ⟨produced, hproduced, hdigests⟩ := h.produced fingerprint hfingerprint
    rw [GoalFreshnessResolvers.sourceFingerprint_selected hexcluded, hsource] at hproduced
    obtain rfl := Except.ok.inj hproduced
    rw [hstamp]
    refine completed_completedStamp (Fields.get_set_self _ _ _) (hproducer.trans hfingerprint) ?_
      hsurfaceField hcurrent ?_
    · intro category hcategory hne
      exact hdigests category (by rwa [hcompared, ← hnamed]) hne
    · rw [hnamed, ← hcompared]
      exact h.digested

/-! ## Checking stamped evidence -/

theorem changedCategories_eq_nil {fingerprint : Fields} {categories : List String}
    (h : ∀ category ∈ categories, isText (digestOf current category) = true ∧
      digestOf fingerprint category = digestOf current category) :
    changedCategories fingerprint current (categories.map .text) = .ok [] := by
  have hloose : ∀ (fields : Fields) category, isText (digestOf fields category) = true →
      looseDigest (fields.get category) = .ok (digestOf fields category) := by
    intro fields category htext
    unfold digestOf at htext ⊢
    cases hvalue : fields.get category with
    | none =>
      rw [hvalue] at htext
      simp [isText] at htext
    | some value =>
      rw [hvalue] at htext
      cases value with
      | object inner =>
        cases inner with
        | nil => simp [isText, fields?, Fields.get] at htext
        | cons field rest => simp [looseDigest, truthy, fields?]
      | _ => simp [isText, fields?] at htext
  induction categories with
  | nil => rfl
  | cons category rest ih =>
    obtain ⟨htext, heq⟩ := h category (by simp)
    have hrest := ih fun other hother => h other (by simp [hother])
    rw [List.map_cons, changedCategories, hloose fingerprint category (by rwa [heq]),
      hloose current category htext, except_ok_bind, except_ok_bind, hrest, except_ok_bind]
    simp [heq]

theorem Completed.stampDefect (h : Completed key target current stamp) :
    stampDefect (some (.object stamp)) (goalRequiredCategories key) = none := by
  obtain ⟨fingerprint, categories, hfingerprint, hcategories, hrequired, hequal⟩ := h.compared
  have hnamed : ((stamp.get "categories").map texts).getD [] = categories := by
    rw [hcategories]
    exact texts_map_text categories
  have homitted : (goalRequiredCategories key).filter (!categories.contains ·) = [] := by
    rw [List.filter_eq_nil_iff]
    intro category hcategory
    simp [hrequired category hcategory]
  have hundigested : (goalRequiredCategories key).filter
      (fun category => !isText (digestOf fingerprint category)) = [] := by
    rw [List.filter_eq_nil_iff]
    intro category hcategory
    obtain ⟨htext, heq⟩ := hequal category (hrequired category hcategory)
    simp [heq, htext]
  unfold Goals.stampDefect
  simp only [Option.bind_some, fields?, hfingerprint, hnamed, homitted, hundigested]
  simp

theorem Completed.compareRequired (h : Completed key target current stamp) :
    (compareRequired stamp current (goalRequiredCategories key)).stale = false := by
  obtain ⟨fingerprint, categories, hfingerprint, -, hrequired, hequal⟩ := h.compared
  have hunresolved : (goalRequiredCategories key).filter
      (fun category => !isText (digestOf current category)) = [] := by
    rw [List.filter_eq_nil_iff]
    intro category hcategory
    simp [(hequal category (hrequired category hcategory)).1]
  have hchanged : (goalRequiredCategories key).filter
      (fun category => digestOf fingerprint category ≠ digestOf current category) = [] := by
    rw [List.filter_eq_nil_iff]
    intro category hcategory
    simp [(hequal category (hrequired category hcategory)).2]
  unfold Goals.compareRequired
  simp only [hfingerprint, Option.bind_some, fields?, Option.getD_some, hunresolved, hchanged]
  simp

/-- A completed stamp is fresh on the inputs it compares equal with. -/
theorem not_stale_of_completed (hreview : isReviewKey key = false)
    (hgoal : ∀ spec, goal = some spec → spec.family ≠ .review)
    (hstamp : entry.fields.get "source_fingerprint" = some (.object stamp))
    (hcompleted : Completed key target current stamp) (htarget : stampTarget stamp goal = target)
    (hcurrent : resolvers.fingerprint target = .ok current)
    (hwaiver : waiverPolicyReason key entry resolvers = none) :
    ∃ freshness, evaluateGoalFreshness readers key entry goal resolvers = .ok freshness ∧
      freshness.stale = false := by
  unfold evaluateGoalFreshness
  by_cases hjudged : goalRequiredCategories key = [] ∨ entry.met ≠ .flag true
  · simp only [hjudged, if_true]
    exact ⟨_, rfl, rfl⟩
  have hscope : goal.filter declaresScope = none := by
    rw [Option.filter_eq_none_iff]
    intro spec hspec
    simp [declaresScope, hgoal spec hspec]
  have hshared : evaluateVerificationFreshness readers key entry
        [(stampTarget stamp none, current)] resolvers.fingerprint = .ok none ∨
      ∃ freshness, evaluateVerificationFreshness readers key entry
        [(stampTarget stamp none, current)] resolvers.fingerprint = .ok (some freshness) ∧
          freshness.stale = false := by
    obtain ⟨fingerprint, categories, hfingerprint, hcategories, -, hequal⟩ := hcompleted.compared
    unfold evaluateVerificationFreshness
    by_cases hnone : verificationFingerprintCategories key = []
    · exact .inl (if_pos hnone)
    · right
      simp only [hnone, if_false, hreview, Bool.false_eq_true, sourceFreshness, hstamp,
        Option.bind_some, fields?, Option.getD_some, List.lookup_cons_self, compareSourceStamp,
        hfingerprint, hcategories, changedCategories_eq_nil hequal]
      exact ⟨_, rfl, rfl⟩
  simp only [hjudged, if_false, hstamp, hcompleted.stampDefect, hscope, compareMetEvidence, hwaiver,
    htarget, hcurrent, Option.bind_some, fields?, Option.getD_some, hcompleted.compareRequired]
  rcases hshared with hnone | ⟨shared, hsome, hfresh⟩
  · rw [hnone]
    exact ⟨_, rfl, hcompleted.compareRequired⟩
  · rw [hsome]
    refine ⟨_, rfl, ?_⟩
    rw [hfresh]
    exact hcompleted.compareRequired

theorem stampTarget_of_completed (htarget : stampTarget (stampOf detail) goal = target)
    (hstamp : stamp.get "target" = some (targetField target)) : stampTarget stamp goal = target := by
  cases goal with
  | some spec => exact htarget
  | none =>
    cases target with
    | none => simp [stampTarget, hstamp, targetField, text?]
    | some name =>
      have hname : name ≠ "" := by
        unfold stampTarget at htarget
        cases htext : ((stampOf detail).get "target").bind text? with
        | none => simp [htext] at htarget
        | some held =>
          simp only [htext] at htarget
          split_ifs at htarget with hempty
          rw [← Option.some.inj htarget]
          exact hempty
      simp [stampTarget, hstamp, targetField, text?, hname]

/-- The waiver digest of a producer is the semantic one of the policy that is read. -/
def WaiverMatches (resolvers : GoalFreshnessResolvers) (detail : Fields) : Prop :=
  ∃ policy digest evaluation, resolvers.waiverPolicy = .ok policy ∧
    resolvers.waiverSemantics = some (.ok digest) ∧
    detail.get "evaluation" = some (.object evaluation) ∧
    Fields.get evaluation "approved_waiver_set_digest" = some (.text digest)

/-- A stamped detail holds the waiver policy that is read when it is checked. -/
theorem waiverPolicyReason_of_stamped
    (hdone : ¬ (hasSuffix "_done" key ∧
      ((detail.get "verification_only").map truthy).getD false = true))
    (h : isCoverageKey key = true → WaiverMatches resolvers detail) {met : Json} :
    waiverPolicyReason key ⟨met, .object (stampGoalDetail key detail goal resolvers targetSurface)⟩
      resolvers = none := by
  unfold waiverPolicyReason
  by_cases hcoverage : isCoverageKey key = true
  · obtain ⟨policy, digest, evaluation, hpolicy, hsemantics, hevaluation, hdigest⟩ := h hcoverage
    have hproducer : producerWaiverPolicy detail resolvers = .ok policy := by
      simp [producerWaiverPolicy, hpolicy, hsemantics, hevaluation, hdigest, fields?,
        except_ok_bind]
    have hget : (stampGoalDetail key detail goal resolvers targetSurface).get
        "goal_waiver_policy" = some (.object policy) := by
      unfold stampGoalDetail
      rw [if_neg hdone]
      simp only [hcoverage, if_true, hproducer]
      rw [Fields.get_set_ne _ _ (by decide), Fields.get_set_self]
      rfl
    simp [hcoverage, hpolicy, FreshnessEntry.fields, fields?, hget]
  · simp [hcoverage]

/-! ## Stale evidence -/

/-- The digests a stamp names and holds. -/
def Stamped (required : List String) (entry : FreshnessEntry) (stamp fingerprint : Fields) : Prop :=
  entry.fields.get "source_fingerprint" = some (.object stamp) ∧
    stamp.get "fingerprint" = some (.object fingerprint) ∧
    ∀ category ∈ required, category ∈ namedCategories stamp ∧
      isText (digestOf fingerprint category) = true

/-- Evidence holds every required digest and the identity of the waiver policy, and each is the
current one. -/
structure Current (resolvers : GoalFreshnessResolvers) (key : String) (goal : Option GoalSpec)
    (entry : FreshnessEntry) : Prop where
  digests : ∃ stamp fingerprint current, Stamped (goalRequiredCategories key) entry stamp fingerprint ∧
    resolvers.fingerprint (stampTarget stamp goal) = .ok current ∧
    ∀ category ∈ goalRequiredCategories key, isText (digestOf current category) = true ∧
      digestOf fingerprint category = digestOf current category
  waiver : isCoverageKey key = true → ∃ policy, resolvers.waiverPolicy = .ok policy ∧
    entry.fields.get "goal_waiver_policy" = some (.object policy)

theorem stamped_of_stampDefect
    (h : stampDefect (entry.fields.get "source_fingerprint") (goalRequiredCategories key) = none) :
    ∃ stamp fingerprint, Stamped (goalRequiredCategories key) entry stamp fingerprint := by
  unfold stampDefect at h
  cases hstamp : (entry.fields.get "source_fingerprint").bind fields? with
  | none => simp [hstamp] at h
  | some stamp =>
    cases hfingerprint : (stamp.get "fingerprint").bind fields? with
    | none => simp [hstamp, hfingerprint] at h
    | some fingerprint =>
      obtain ⟨value, hvalue, hfields⟩ := Option.bind_eq_some_iff.mp hstamp
      obtain ⟨inner, hinner, hinnerFields⟩ := Option.bind_eq_some_iff.mp hfingerprint
      rw [fields?_eq_some] at hfields hinnerFields
      subst hfields hinnerFields
      simp only [hstamp, hfingerprint] at h
      split_ifs at h with homitted hundigested
      refine ⟨stamp, fingerprint, hvalue, hinner, ?_⟩
      simp only [ne_eq, not_not, List.filter_eq_nil_iff] at homitted hundigested
      intro category hcategory
      exact ⟨by simpa [namedCategories] using homitted category hcategory,
        by simpa using hundigested category hcategory⟩

/-- Evidence that misses a required digest is stale, whatever the Goal. -/
theorem stale_of_not_stamped (hmet : entry.met = .flag true)
    (hrequired : goalRequiredCategories key ≠ [])
    (h : ¬ ∃ stamp fingerprint, Stamped (goalRequiredCategories key) entry stamp fingerprint) :
    ∃ freshness, evaluateGoalFreshness readers key entry goal resolvers = .ok freshness ∧
      freshness.stale = true := by
  unfold evaluateGoalFreshness
  cases hdefect : stampDefect (entry.fields.get "source_fingerprint")
      (goalRequiredCategories key) with
  | none => exact absurd (stamped_of_stampDefect hdefect) h
  | some defect =>
    simp only [hrequired, hmet, ne_eq, not_true, or_self, if_false, hdefect]
    exact ⟨_, rfl, rfl⟩

theorem compareRequired_not_stale {fingerprint : Fields}
    (hfingerprint : stamp.get "fingerprint" = some (.object fingerprint)) {required : List String}
    (h : (compareRequired stamp current required).stale = false) :
    ∀ category ∈ required, isText (digestOf current category) = true ∧
      digestOf fingerprint category = digestOf current category := by
  unfold compareRequired at h
  simp only [hfingerprint, Option.bind_some, fields?, Option.getD_some] at h
  split_ifs at h with hunresolved hchanged
  · simp [staleFreshness] at h
  · simp only [ne_eq, not_not, List.filter_eq_nil_iff] at hunresolved hchanged
    intro category hcategory
    exact ⟨by simpa using hunresolved category hcategory,
      by simpa using hchanged category hcategory⟩

theorem waiver_of_waiverPolicyReason (h : waiverPolicyReason key entry resolvers = none)
    (hcoverage : isCoverageKey key = true) : ∃ policy, resolvers.waiverPolicy = .ok policy ∧
      entry.fields.get "goal_waiver_policy" = some (.object policy) := by
  unfold waiverPolicyReason at h
  rw [if_pos hcoverage] at h
  cases hpolicy : resolvers.waiverPolicy with
  | error failure => simp [hpolicy] at h
  | ok policy =>
    simp only [hpolicy] at h
    split_ifs at h with hsame
    exact ⟨policy, rfl, by simpa using hsame⟩

/-- Evidence that is not current is stale. -/
theorem stale_of_not_current (hmet : entry.met = .flag true)
    (hrequired : goalRequiredCategories key ≠ [])
    (hscope : ∀ spec, goal = some spec → declaresScope spec = false)
    (h : ¬ Current resolvers key goal entry) :
    ∃ freshness, evaluateGoalFreshness readers key entry goal resolvers = .ok freshness ∧
      freshness.stale = true := by
  by_cases hstamped : ∃ stamp fingerprint,
      Stamped (goalRequiredCategories key) entry stamp fingerprint
  · have hfilter : goal.filter declaresScope = none := by
      rw [Option.filter_eq_none_iff]
      intro spec hspec
      simp [hscope spec hspec]
    unfold evaluateGoalFreshness
    simp only [hrequired, hmet, ne_eq, not_true, or_self, if_false]
    cases hdefect : stampDefect (entry.fields.get "source_fingerprint")
        (goalRequiredCategories key) with
    | some defect => exact ⟨_, rfl, rfl⟩
    | none =>
      obtain ⟨stamp, fingerprint, hstamp, hfingerprint, hdigests⟩ := hstamped
      simp only [hfilter, hstamp, Option.bind_some, fields?, Option.getD_some, compareMetEvidence]
      cases hreason : waiverPolicyReason key entry resolvers with
      | some reason => exact ⟨_, rfl, rfl⟩
      | none =>
        cases hcurrent : resolvers.fingerprint (stampTarget stamp goal) with
        | error failure => exact ⟨_, rfl, rfl⟩
        | ok current =>
          dsimp only
          by_cases hstale : (compareRequired stamp current (goalRequiredCategories key)).stale = true
          · rw [if_pos hstale]
            exact ⟨_, rfl, hstale⟩
          · have hequal := compareRequired_not_stale hfingerprint (by simpa using hstale)
            exact absurd ⟨⟨stamp, fingerprint, current, ⟨hstamp, hfingerprint, hdigests⟩, hcurrent,
              hequal⟩, waiver_of_waiverPolicyReason hreason⟩ h
  · exact stale_of_not_stamped hmet hrequired hstamped

/-- Evidence of a review Goal with declared files is fresh only when the files and requirements
are the declared ones and the comparison of the receipt says so. -/
theorem scope_of_not_stale {spec : GoalSpec} {freshness : VerificationFreshness}
    (hmet : entry.met = .flag true) (hrequired : goalRequiredCategories key ≠ [])
    (hscope : declaresScope spec = true)
    (h : evaluateGoalFreshness readers key entry (some spec) resolvers = .ok freshness)
    (hfresh : freshness.stale = false) :
    reviewScopeReason readers key ((entry.fields.get "contract").getD (.object [])) spec =
        .ok none ∧
      evaluateVerificationFreshness readers key entry [] resolvers.fingerprint =
        .ok (some freshness) := by
  unfold evaluateGoalFreshness at h
  simp only [hrequired, hmet, ne_eq, not_true, or_self, if_false] at h
  cases hdefect : stampDefect (entry.fields.get "source_fingerprint")
      (goalRequiredCategories key) with
  | some defect =>
    simp only [hdefect] at h
    rw [← Except.ok.inj h] at hfresh
    cases hfresh
  | none =>
    have hfilter : (some spec).filter declaresScope = some spec := by simp [hscope]
    simp only [hdefect, hfilter, reviewGoalFreshness] at h
    obtain ⟨reason?, hreason, h⟩ := except_bind_eq_ok.mp h
    cases reason? with
    | some reason =>
      rw [← Except.ok.inj h] at hfresh
      cases hfresh
    | none =>
      obtain ⟨checked, hchecked, h⟩ := except_bind_eq_ok.mp h
      refine ⟨hreason, ?_⟩
      rw [hchecked]
      cases checked with
      | none =>
        rw [← Except.ok.inj h] at hfresh
        cases hfresh
      | some checked => rw [← Except.ok.inj h, Option.getD_some]

/-- The stamping path and the checking path agree. Evidence stamped on inputs that resolve is
fresh on them. Evidence that misses a required digest, the Target surface or the waiver policy,
or whose own is not the current one, is stale. Review evidence that misses a digest is stale too,
and that of a Goal with declared files is fresh only on what it was recorded for. -/
theorem goal_freshness_agrees (readers : ReviewReaders) (resolvers : GoalFreshnessResolvers)
    (key : String) (goal : Option GoalSpec) :
    (∀ (detail : Fields) (targetSurface : Option Fields) (current : Fields),
      isReviewKey key = false → (∀ spec, goal = some spec → spec.family ≠ .review) →
      ¬ (hasSuffix "_done" key ∧ ((detail.get "verification_only").map truthy).getD false = true) →
      Resolves resolvers key (stampTarget (stampOf detail) goal) (stampOf detail) targetSurface
        current →
      (isCoverageKey key = true → WaiverMatches resolvers detail) →
      ∃ freshness, evaluateGoalFreshness readers key
          ⟨.flag true, .object (stampGoalDetail key detail goal resolvers targetSurface)⟩ goal
          resolvers = .ok freshness ∧ freshness.stale = false) ∧
    ∀ entry : FreshnessEntry, entry.met = .flag true → goalRequiredCategories key ≠ [] →
      ((∀ spec, goal = some spec → declaresScope spec = false) →
        ¬ Current resolvers key goal entry →
        ∃ freshness, evaluateGoalFreshness readers key entry goal resolvers = .ok freshness ∧
          freshness.stale = true) ∧
      ((¬ ∃ stamp fingerprint, Stamped (goalRequiredCategories key) entry stamp fingerprint) →
        ∃ freshness, evaluateGoalFreshness readers key entry goal resolvers = .ok freshness ∧
          freshness.stale = true) ∧
      ∀ spec freshness, goal = some spec → declaresScope spec = true →
        evaluateGoalFreshness readers key entry goal resolvers = .ok freshness →
        freshness.stale = false →
        reviewScopeReason readers key ((entry.fields.get "contract").getD (.object [])) spec =
            .ok none ∧
          evaluateVerificationFreshness readers key entry [] resolvers.fingerprint =
            .ok (some freshness) := by
  constructor
  · intro detail targetSurface current hreview hgoal hdone hresolves hwaiver
    obtain ⟨stamp, hstamp, hcompleted⟩ := completed_stampGoalDetail hdone hresolves
    exact not_stale_of_completed hreview hgoal hstamp hcompleted
      (stampTarget_of_completed rfl hcompleted.target) hresolves.fingerprint
      (waiverPolicyReason_of_stamped hdone hwaiver)
  · intro entry hmet hrequired
    refine ⟨stale_of_not_current hmet hrequired, stale_of_not_stamped hmet hrequired, ?_⟩
    rintro spec freshness rfl hscope h hfresh
    exact scope_of_not_stale hmet hrequired hscope h hfresh

/-! ## A lint Goal -/

section Lint

/-- Resolvers of a worktree whose sources and declarations are the same for every Target. -/
def settledResolvers : GoalFreshnessResolvers where
  source _ := .ok [("rtl", .object [("digest", .text "r1")])]
  targetSurface _ := .ok [("digest", .text "s1")]
  waiverPolicy := .ok []
  waiverSemantics := none
  artifactPaths := .ok []
  policySurface := none
  productionSource := false
  productionSurface := false
  projectSource current _ := .ok current
  targetSurfaceFingerprint _ _ := .ok []

def noReviews : ReviewReaders where
  reviewFiles _ _ := .ok []
  reviewTargetSurface _ := .ok .null
  isFile _ := true
  specSource _ := ""
  reviewFreshness _ _ := none
  identity _ := ""

/-- A lint Goal stamped without a producer stamp is fresh. -/
theorem goal_freshness_agrees_lint : ∃ freshness,
    evaluateGoalFreshness noReviews "lint_core"
        ⟨.flag true, .object (stampGoalDetail "lint_core" []
          (some ⟨"lint_core", .lint, some "core", [], ["ad-hoc"]⟩) settledResolvers none)⟩
        (some ⟨"lint_core", .lint, some "core", [], ["ad-hoc"]⟩) settledResolvers =
      .ok freshness ∧ freshness.stale = false := by
  refine (goal_freshness_agrees noReviews settledResolvers "lint_core"
    (some ⟨"lint_core", .lint, some "core", [], ["ad-hoc"]⟩)).1 [] none
    [("rtl", .object [("digest", .text "r1")]), ("target_surface", .object [("digest", .text "s1")])]
    (by decide) ?_ (by decide) ⟨by decide, ?_, ?_, ?_⟩ ?_
  · rintro spec hspec
    rw [← Option.some.inj hspec]
    decide
  · have hcompared : comparedCategories "lint_core" (stampOf []) = ["rtl", "target_surface"] := by
      decide
    intro category hcategory
    rw [hcompared] at hcategory
    rcases List.mem_cons.mp hcategory with rfl | hother
    · decide
    · rcases List.mem_cons.mp hother with rfl | hlast
      · decide
      · rw [List.mem_singleton.mp hlast]
        decide
  · intro fingerprint hfingerprint
    have hnone : fingerprintOf (stampOf []) = none := by decide
    rw [hnone] at hfingerprint
    cases hfingerprint
  · intro surface hsurface
    cases hsurface
  · intro hcoverage
    exact absurd hcoverage (by decide)

end Lint

end Booley.Goals
