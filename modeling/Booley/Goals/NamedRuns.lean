import Booley.Goals.WholeMerge

/-!
# The Test Runs a selector names

A slot is frozen to the Test Runs its selector names on the plan of the Target. A selector and
its canonical form name the same ones, so selectors of one identity differ by a seed count at
most.
-/
namespace Booley.Goals

open Booley.Lib Booley.TestRuns

/-- The Test Runs of one selector on a plan: N seeds are the first N of the drawn ones.
`none` while the Test does not exist or the seeds run out. -/
def namedRuns (plan : TargetTestPlan) (drawn : Option String → List Nat)
    (selector : TestSelector) : Except TestRunError (Option (List TestRun)) := do
  match ← orMissing (plan.run (some selector.test) selector.variant none) with
  | none => .ok none
  | some base =>
    refuseSkipped plan (some selector.test)
    match selector.seedForm with
    | .pinned seed =>
      let run ← plan.run (some selector.test) selector.variant (some seed)
      .ok (some [run])
    | .unpinned => .ok (some [base])
    | .count n =>
      let _ ← plan.run (some selector.test) selector.variant (some 1)
      let seeds := (drawn base.variant).take n
      if seeds.length < n then .ok none
      else some <$> seeds.mapM fun seed =>
        plan.run (some selector.test) selector.variant (some seed)

/-- What the slot of a lone selector is frozen to, with its seeds at hand. -/
theorem slotRuns_eq_namedRuns {plan : TargetTestPlan} {test : WrittenSelector}
    (hslot : test.text ≠ suiteSlot) {request : ResolutionRequest}
    {drawn : Option String → List Nat}
    (hshared : ∀ variant n, test.selector.seedForm = .count n → n ≠ 0 →
      n ≤ (drawn variant).length ∧
      request.shared.lookup (test.selector.test, variant, n) = some ((drawn variant).take n))
    (hcount : test.selector.seedForm ≠ .count 0) :
    slotRuns plan test.text [test.text] [] request = namedRuns plan drawn test.selector := by
  unfold slotRuns namedRuns
  rw [if_neg hslot, test.parsed]
  simp only [except_ok_bind]
  refine bind_congr fun found => ?_
  cases found with
  | none => rfl
  | some base =>
    refine bind_congr fun _ => ?_
    cases hform : test.selector.seedForm with
    | unpinned => rfl
    | pinned seed => rfl
    | count n =>
      have hn : n ≠ 0 := fun h => hcount (by rw [hform, h])
      obtain ⟨hlength, hlookup⟩ := hshared base.variant n hform hn
      refine bind_congr fun _ => ?_
      have hpinned : pinnedSeeds plan [test.text] base = .ok [] := by
        simp [pinnedSeeds, hslot, test.parsed, hform, except_ok_bind]
      have htaken : seedsOf [] base = [] := rfl
      have hne : (drawn base.variant).take n ≠ [] := by
        intro hnil
        have hzero := congrArg List.length hnil
        rw [List.length_take, List.length_nil] at hzero
        omega
      have hfew : ¬ ((drawn base.variant).take n).length < n := by
        rw [List.length_take]
        omega
      simp only [hpinned, htaken, hlookup, Option.getD_some, except_ok_bind, hne,
        List.append_nil, List.not_mem_nil, and_false, exists_false, or_self, if_false, hfew]

/-! ## Canonical selectors -/

/-- A built Test Variant has a valid name. -/
theorem variant_of_buildTestRun {test variant : Option String} {seed : Option Nat}
    {args : List String} {env : List (String × String)} {run : TestRun}
    (h : buildTestRun test variant seed args env = .ok run) :
    ∀ name, variant = some name → nameProblem name = none := by
  unfold buildTestRun at h
  split at h
  · cases h
  · obtain ⟨⟨⟩, -, h⟩ := except_bind_eq_ok.mp h
    obtain ⟨⟨⟩, hvariant, -⟩ := except_bind_eq_ok.mp h
    exact checkName_eq_ok.mp hvariant

/-- What a plan resolves a Test to without a seed of its own. -/
theorem run_unseeded {plan : TargetTestPlan} {test : String} {variant : Option String}
    {base : TestRun} (h : plan.run (some test) variant none = .ok base) :
    base.test = some test ∧ base.seed = plan.defaultSeed ∧
      (∀ name, base.variant = some name → nameProblem name = none) ∧
      ∀ seed, plan.run (some test) variant seed = plan.run (some test) base.variant seed := by
  have hdeclared : test ∈ plan.tests := ((TargetTestPlan.run_eq_ok h).2 test rfl).1
  have hopen := h
  unfold TargetTestPlan.run at hopen
  simp only [Option.isSome_none, Bool.false_and, Bool.false_eq_true, if_false, hdeclared,
    not_true_eq_false, Option.none_or] at hopen
  cases htable : plan.variantsOf test with
  | none =>
    cases variant with
    | some name => simp [htable] at hopen
    | none =>
      simp only [htable] at hopen
      obtain ⟨rfl, -⟩ := buildTestRun_eq_ok hopen
      exact ⟨rfl, rfl, by simp, fun _ => rfl⟩
  | some table =>
    simp only [htable] at hopen
    cases hdeclared' : table.variant ((variant.filter (· ≠ "")).getD table.default) with
    | none =>
      rw [hdeclared'] at hopen
      cases hopen
    | some declared =>
      simp only [hdeclared'] at hopen
      obtain ⟨rfl, -⟩ := buildTestRun_eq_ok hopen
      have hvalid := variant_of_buildTestRun hopen declared.name rfl
      have hname : declared.name = (variant.filter (· ≠ "")).getD table.default := by
        have := List.find?_some hdeclared'
        simpa using this
      have hagain : (((some declared.name).filter (· ≠ "")).getD table.default) =
          (variant.filter (· ≠ "")).getD table.default := by
        rw [Option.filter_some, if_pos (by simpa using ne_empty_of_nameProblem_eq_none hvalid),
          Option.getD_some, hname]
      refine ⟨rfl, rfl, ?_, ?_⟩
      · rintro name hsome
        obtain rfl := Option.some.inj hsome
        exact hvalid
      · intro seed
        simp only [TargetTestPlan.run, htable, hagain, hdeclared']

/-- Asking for the Default Seed is asking for none. -/
theorem run_defaultSeed {plan : TargetTestPlan} {test : String} {variant : Option String}
    {seed : Nat} (hseeded : plan.mechanism.seeded = true) (hseed : plan.defaultSeed = some seed) :
    plan.run (some test) variant (some seed) = plan.run (some test) variant none := by
  simp [TargetTestPlan.run, hseeded, hseed]

theorem orMissing_eq_some {found : Except TestRunError TestRun} {run : TestRun} :
    orMissing found = .ok (some run) ↔ found = .ok run := by
  unfold orMissing
  split
  · simp
  · simp
  · simp
  · simp

/-- A selector resolves when its Test and Test Variant exist in the checkout. -/
theorem canonicalSelector_eq_some {checkout : Checkout} {target : String}
    {selector canonical : TestSelector} :
    checkout.canonicalSelector target selector = .ok (some canonical) ↔
      ∃ plan base, checkout.plan target = some plan ∧
        plan.run (some selector.test) selector.variant none = .ok base ∧
        canonical = ⟨selector.test, base.variant, canonicalForm selector.seedForm base.seed⟩ := by
  unfold Checkout.canonicalSelector
  cases hplan : checkout.plan target with
  | none => simp
  | some plan =>
    simp only [except_bind_eq_ok, Option.some.injEq]
    constructor
    · rintro ⟨found, hfound, h⟩
      cases found with
      | none => simp at h
      | some base =>
        exact ⟨plan, base, rfl, orMissing_eq_some.mp hfound,
          (Option.some.inj (Except.ok.inj h)).symm⟩
    · rintro ⟨_, base, rfl, hbase, rfl⟩
      exact ⟨some base, orMissing_eq_some.mpr hbase, rfl⟩

/-- A selector and its canonical form name the same Test Runs. -/
theorem namedRuns_canonical {checkout : Checkout} {target : String}
    {selector canonical : TestSelector} {plan : TargetTestPlan}
    (hcanonical : checkout.canonicalSelector target selector = .ok (some canonical))
    (hplan : checkout.plan target = some plan) (drawn : Option String → List Nat) :
    namedRuns plan drawn canonical = namedRuns plan drawn selector := by
  obtain ⟨found, base, hfound, hbase, rfl⟩ := canonicalSelector_eq_some.mp hcanonical
  obtain rfl := Option.some.inj (hplan.symm.trans hfound)
  obtain ⟨-, hseed, -, hvariant⟩ := run_unseeded hbase
  unfold namedRuns
  simp only [← hvariant, hbase, orMissing, except_ok_bind]
  refine bind_congr fun _ => ?_
  cases hform : selector.seedForm with
  | pinned seed => rfl
  | count n => rfl
  | unpinned =>
    cases hdefault : base.seed with
    | none => rfl
    | some seed =>
      have hplanSeed : plan.defaultSeed = some seed := hseed.symm.trans hdefault
      have hseeded := checkout.seeded target plan hplan (by simp [hplanSeed])
      simp only [canonicalForm, run_defaultSeed hseeded hplanSeed, hbase, except_ok_bind]

/-! ## Selectors of one identity -/

/-- A parsed selector has valid names, and a seed count of at least one. -/
theorem parseTestSelector_valid {text : String} {selector : TestSelector}
    (h : parseTestSelector text = .ok selector) :
    nameProblem selector.test = none ∧
      (∀ name, selector.variant = some name → nameProblem name = none) ∧
      selector.seedForm ≠ .count 0 := by
  have hseeds : ∀ {seed : List Char} {form : SeedForm},
      parseSeedForm seed text = .ok form → form ≠ .count 0 := by
    rintro seed form hform rfl
    unfold parseSeedForm at hform
    split at hform
    · cases hform
    · obtain ⟨count, -, hform⟩ := except_bind_eq_ok.mp hform
      split_ifs at hform with hfew hmany
      have hzero := SeedForm.count.inj (Except.ok.inj hform)
      omega
    · obtain ⟨seed, -, hform⟩ := except_bind_eq_ok.mp hform
      split_ifs at hform
      cases hform
  unfold parseTestSelector at h
  dsimp only at h
  split_ifs at h
  obtain ⟨test, htest, h⟩ := except_bind_eq_ok.mp h
  obtain ⟨hvalid, rfl⟩ := validateTestOrVariantName_eq_ok.mp htest
  -- a Test Variant is named or it is not, and so is a seed
  split at h
  · obtain ⟨_, hvariant, h⟩ := except_bind_eq_ok.mp h
    obtain rfl := Except.ok.inj hvariant
    split at h
    · obtain ⟨form, hform, h⟩ := except_bind_eq_ok.mp h
      obtain rfl := Except.ok.inj hform
      obtain rfl := Except.ok.inj h
      exact ⟨hvalid, by simp, by simp⟩
    · obtain ⟨form, hform, h⟩ := except_bind_eq_ok.mp h
      obtain rfl := Except.ok.inj h
      exact ⟨hvalid, by simp, hseeds hform⟩
  · obtain ⟨_, hvariant, h⟩ := except_bind_eq_ok.mp h
    obtain ⟨name, hname, rfl⟩ := except_map_eq_ok.mp hvariant
    obtain ⟨hvalid', rfl⟩ := validateTestOrVariantName_eq_ok.mp hname
    split at h
    · obtain ⟨form, hform, h⟩ := except_bind_eq_ok.mp h
      obtain rfl := Except.ok.inj hform
      obtain rfl := Except.ok.inj h
      exact ⟨hvalid, by simpa using hvalid', by simp⟩
    · obtain ⟨form, hform, h⟩ := except_bind_eq_ok.mp h
      obtain rfl := Except.ok.inj h
      exact ⟨hvalid, by simpa using hvalid', hseeds hform⟩

/-- Valid names are read back from the text of Test and Test Variant. -/
theorem variantText_inj {selector other : TestSelector} (htest : nameProblem selector.test = none)
    (htest' : nameProblem other.test = none) (h : variantText selector = variantText other) :
    selector.test = other.test ∧ selector.variant = other.variant := by
  have hplus : variantSeparator ∈ forbiddenNameCharacters := by decide
  have hno := not_mem_of_nameProblem_eq_none htest hplus
  have hno' := not_mem_of_nameProblem_eq_none htest' hplus
  have hcut : ∀ {front back : List Char}, variantSeparator ∉ front →
      (front ++ variantSeparator :: back).takeWhile (· ≠ variantSeparator) = front ∧
      front.takeWhile (· ≠ variantSeparator) = front := by
    intro front back hfront
    have hall : ∀ c ∈ front, decide (c ≠ variantSeparator) = true := by
      intro c hc
      exact decide_eq_true fun heq => hfront (heq ▸ hc)
    constructor
    · rw [List.takeWhile_append_of_pos hall, List.takeWhile_cons_of_neg (by simp), List.append_nil]
    · conv_lhs => rw [← List.append_nil front]
      rw [List.takeWhile_append_of_pos hall, List.takeWhile_nil, List.append_nil]
  have htext : ∀ given : TestSelector, variantSeparator ∉ given.test.toList →
      (variantText given).toList.takeWhile (· ≠ variantSeparator) = given.test.toList := by
    intro given hgiven
    unfold variantText
    cases given.variant with
    | none => exact (@hcut _ [] hgiven).2
    | some name =>
      have happend : (given.test ++ "+" ++ name).toList =
          given.test.toList ++ variantSeparator :: name.toList := by
        simp [variantSeparator]
      rw [happend]
      exact (hcut hgiven).1
  have hname : selector.test = other.test := by
    rw [← String.toList_inj, ← htext selector hno, ← htext other hno', h]
  refine ⟨hname, ?_⟩
  have hlist := congrArg String.toList h
  unfold variantText at hlist
  rw [hname] at hlist
  cases hvariant : selector.variant with
  | none =>
    cases hvariant' : other.variant with
    | none => rfl
    | some name => simp [hvariant, hvariant', String.toList_append] at hlist
  | some name =>
    cases hvariant' : other.variant with
    | none => simp [hvariant, hvariant', String.toList_append] at hlist
    | some name' =>
      simp only [hvariant, hvariant', String.toList_append, List.append_cancel_left_eq] at hlist
      rw [String.toList_inj.mp hlist]

theorem toString_nat_inj {n m : Nat} (h : toString n = toString m) : n = m := by
  have hlist := congrArg String.toList h
  rw [Nat.toString_eq_ofList_toDigits, Nat.toString_eq_ofList_toDigits, String.toList_ofList,
    String.toList_ofList] at hlist
  rw [← @Nat.ofDigitChars_ten_toDigits n, hlist, Nat.ofDigitChars_ten_toDigits]

/-- Two seed forms of one tag are equal, or both ask for a number of seeds. -/
theorem seedForm_of_seedFormTag {form other : SeedForm} (h : seedFormTag form = seedFormTag other) :
    form = other ∨ ∃ n m, form = .count n ∧ other = .count m := by
  cases hform : form with
  | count n =>
    rw [hform, eq_comm] at h
    have hcount := seedFormTag_eq_x.mp (show seedFormTag other = "x" from h)
    cases other with
    | count m => exact .inr ⟨n, m, rfl, rfl⟩
    | _ => simp [SeedForm.isCount] at hcount
  | unpinned =>
    rw [hform] at h
    cases other with
    | unpinned => exact .inl rfl
    | count m => simp [seedFormTag] at h
    | pinned seed =>
      have hhead := congrArg (fun text => text.toList.head?) h
      simp [seedFormTag] at hhead
  | pinned seed =>
    rw [hform] at h
    cases other with
    | unpinned =>
      have hhead := congrArg (fun text => text.toList.head?) h
      simp [seedFormTag] at hhead
    | count m =>
      have hcount := seedFormTag_eq_x.mp h
      simp [SeedForm.isCount] at hcount
    | pinned seed' =>
      have hlist := congrArg String.toList h
      simp only [seedFormTag, String.toList_append, List.append_cancel_left_eq] at hlist
      exact .inl (congrArg _ (toString_nat_inj (String.toList_inj.mp hlist)))

/-- The plan that decides what a selector names: that of the checkout it was resolved in, or
a later one of its Target while it named nothing there. -/
def planFor (names : Option Checkout) (later : String → Option TargetTestPlan) (target : String)
    (selector : TestSelector) : Option TargetTestPlan :=
  match names with
  | none => later target
  | some checkout =>
    match checkout.canonicalSelector target selector with
    | .ok (some _) => checkout.plan target
    | _ => later (checkout.identity target)

/-- Two selectors that name the same Test Runs but for a number of seeds. -/
structure SameButCount (plan : TargetTestPlan) (selector other : TestSelector) : Prop where
  test : selector.test = other.test
  runs : ∀ drawn, (namedRuns plan drawn selector = namedRuns plan drawn other) ∨
    ∃ variant n m, selector.seedForm = .count n ∧ other.seedForm = .count m ∧
      namedRuns plan drawn selector = namedRuns plan drawn ⟨selector.test, variant, .count n⟩ ∧
      namedRuns plan drawn other = namedRuns plan drawn ⟨selector.test, variant, .count m⟩

theorem sameButCount_of_eq {plan : TargetTestPlan} {selector other canonical canonical' :
    TestSelector} (htest : selector.test = canonical.test) (htest' : other.test = canonical'.test)
    (hvalid : nameProblem canonical.test = none) (hvalid' : nameProblem canonical'.test = none)
    (htext : variantText canonical = variantText canonical')
    (htag : seedFormTag canonical.seedForm = seedFormTag canonical'.seedForm)
    (hcount : ∀ n, canonical.seedForm = .count n → selector.seedForm = .count n)
    (hcount' : ∀ n, canonical'.seedForm = .count n → other.seedForm = .count n)
    (hruns : ∀ drawn, namedRuns plan drawn canonical = namedRuns plan drawn selector)
    (hruns' : ∀ drawn, namedRuns plan drawn canonical' = namedRuns plan drawn other) :
    SameButCount plan selector other := by
  obtain ⟨hname, hvariant⟩ := variantText_inj hvalid hvalid' htext
  constructor
  · rw [htest, htest', hname]
  · intro drawn
    rw [← hruns, ← hruns', htest]
    obtain ⟨name, variant, form⟩ := canonical
    obtain ⟨name', variant', form'⟩ := canonical'
    obtain rfl : name = name' := hname
    obtain rfl : variant = variant' := hvariant
    obtain heq | ⟨n, m, hform, hform'⟩ := seedForm_of_seedFormTag htag
    · obtain rfl : form = form' := heq
      exact .inl rfl
    · obtain rfl : form = .count n := hform
      obtain rfl : form' = .count m := hform'
      exact .inr ⟨variant, n, m, hcount n rfl, hcount' m rfl, rfl, rfl⟩

theorem count_of_canonicalForm {form : SeedForm} {seed : Option Nat} {n : Nat}
    (h : canonicalForm form seed = .count n) : form = .count n := by
  cases form <;> cases seed <;> simp_all [canonicalForm]

/-- A selector resolves when one does that its canonical form reads like. -/
theorem resolves_of_variantText {checkout : Checkout} {target : String}
    {selector other canonical : TestSelector} (hvalid : nameProblem selector.test = none)
    (hvalid' : nameProblem other.test = none)
    (hcanonical : checkout.canonicalSelector target selector = .ok (some canonical))
    (htext : variantText canonical = variantText other) :
    ∃ resolved, checkout.canonicalSelector target other = .ok (some resolved) := by
  obtain ⟨plan, base, hplan, hbase, rfl⟩ := canonicalSelector_eq_some.mp hcanonical
  have ⟨hname, hvariant⟩ : selector.test = other.test ∧ base.variant = other.variant :=
    @variantText_inj ⟨selector.test, base.variant, _⟩ other hvalid hvalid' htext
  obtain ⟨-, -, -, hresolved⟩ := run_unseeded hbase
  have hagain : plan.run (some other.test) other.variant none = .ok base := by
    rw [← hname, ← hvariant, ← hresolved, hbase]
  exact ⟨_, canonicalSelector_eq_some.mpr ⟨plan, base, hplan, hagain, rfl⟩⟩

/-- Selectors of one identity are decided by one plan, and name the same Test Runs on it but
for a number of seeds. -/
theorem sameButCount_of_canonicalIdentity {names : Option Checkout}
    {later : String → Option TargetTestPlan} {target other : String}
    {selector selector' : TestSelector} (hvalid : nameProblem selector.test = none)
    (hvalid' : nameProblem selector'.test = none) {identity : TestIdentity}
    (h : canonicalIdentity names target selector = .ok identity)
    (h' : canonicalIdentity names other selector' = .ok identity) :
    identityOf names target = identityOf names other ∧
      planFor names later target selector = planFor names later other selector' ∧
      ∀ plan, planFor names later target selector = some plan →
        SameButCount plan selector selector' := by
  cases names with
  | none =>
    obtain rfl := Except.ok.inj h
    obtain ⟨rfl, hrest⟩ := Prod.mk.inj (Except.ok.inj h')
    obtain ⟨htext, htag⟩ := Prod.mk.inj hrest
    refine ⟨rfl, rfl, fun plan _ => ?_⟩
    exact sameButCount_of_eq rfl rfl hvalid hvalid' htext.symm htag.symm (fun _ hform => hform)
      (fun _ hform => hform) (fun _ => rfl) fun _ => rfl
  | some checkout =>
    obtain ⟨resolved, hresolved, h⟩ := except_bind_eq_ok.mp h
    obtain ⟨resolved', hresolved', h'⟩ := except_bind_eq_ok.mp h'
    obtain rfl := Except.ok.inj h
    obtain ⟨htarget, hrest⟩ := Prod.mk.inj (Except.ok.inj h')
    obtain ⟨htext, htag⟩ := Prod.mk.inj hrest
    have hplans : checkout.plan target = checkout.plan other :=
      checkout.samePlan _ _ htarget.symm
    -- what one Target resolves, the other resolves too
    have hcanonical : checkout.canonicalSelector target selector' = .ok resolved' := by
      rw [← hresolved']
      unfold Checkout.canonicalSelector
      rw [hplans]
    cases resolved with
    | none =>
      cases resolved' with
      | some canonical' =>
        obtain ⟨found, hfound⟩ := resolves_of_variantText hvalid' hvalid hcanonical htext
        simp [hresolved] at hfound
      | none =>
        have hplan : planFor (some checkout) later target selector =
            later (checkout.identity target) := by simp [planFor, hresolved]
        have hplan' : planFor (some checkout) later other selector' =
            later (checkout.identity other) := by simp [planFor, hresolved']
        refine ⟨htarget.symm, by rw [hplan, hplan', htarget], fun plan _ => ?_⟩
        exact sameButCount_of_eq rfl rfl hvalid hvalid' htext.symm htag.symm (fun _ hform => hform)
          (fun _ hform => hform) (fun _ => rfl) fun _ => rfl
    | some canonical =>
      cases resolved' with
      | none =>
        obtain ⟨found, hfound⟩ := resolves_of_variantText hvalid hvalid' hresolved htext.symm
        simp [hcanonical] at hfound
      | some canonical' =>
        have hplan : planFor (some checkout) later target selector = checkout.plan target := by
          simp [planFor, hresolved]
        have hplan' : planFor (some checkout) later other selector' = checkout.plan other := by
          simp [planFor, hresolved']
        refine ⟨htarget.symm, by rw [hplan, hplan', hplans], fun plan hsome => ?_⟩
        rw [hplan] at hsome
        obtain ⟨_, base, -, -, hform⟩ := canonicalSelector_eq_some.mp hresolved
        obtain ⟨_, base', -, -, hform'⟩ := canonicalSelector_eq_some.mp hcanonical
        have hname : selector.test = canonical.test := by rw [hform]
        have hname' : selector'.test = canonical'.test := by rw [hform']
        refine sameButCount_of_eq hname hname' (hname ▸ hvalid) (hname' ▸ hvalid') htext.symm
          htag.symm ?_ ?_ (namedRuns_canonical hresolved hsome)
          (namedRuns_canonical hcanonical hsome)
        · intro n hcount
          rw [hform] at hcount
          exact count_of_canonicalForm hcount
        · intro n hcount
          rw [hform'] at hcount
          exact count_of_canonicalForm hcount

/-- Fewer seeds name the first of the Test Runs that more seeds name. -/
theorem namedRuns_take {plan : TargetTestPlan} {drawn : Option String → List Nat} {test : String}
    {variant : Option String} {n m : Nat} (hle : m ≤ n) {runs : List TestRun}
    (h : namedRuns plan drawn ⟨test, variant, .count n⟩ = .ok (some runs)) :
    namedRuns plan drawn ⟨test, variant, .count m⟩ = .ok (some (runs.take m)) ∧
      runs.length = n := by
  unfold namedRuns at h ⊢
  obtain ⟨found, hfound, h⟩ := except_bind_eq_ok.mp h
  rw [hfound, except_ok_bind]
  cases found with
  | none => cases h
  | some base =>
    obtain ⟨⟨⟩, hskipped, h⟩ := except_bind_eq_ok.mp h
    obtain ⟨seeded, hseeded, h⟩ := except_bind_eq_ok.mp h
    dsimp only at h ⊢
    rw [hskipped, except_ok_bind, hseeded, except_ok_bind]
    by_cases hfew : ((drawn base.variant).take n).length < n
    · rw [if_pos hfew] at h
      cases h
    · rw [if_neg hfew] at h
      obtain ⟨_, hmapped, hsome⟩ := except_map_eq_ok.mp h
      obtain rfl := Option.some.inj hsome
      have hlength : ((drawn base.variant).take n).length = n := by
        rw [List.length_take] at hfew ⊢
        omega
      have htake : ((drawn base.variant).take n).take m = (drawn base.variant).take m := by
        rw [List.take_take, Nat.min_eq_left hle]
      have henough : ¬ ((drawn base.variant).take m).length < m := by
        rw [List.length_take] at hlength ⊢
        omega
      have hmapped' := except_mapM_take hmapped m
      rw [htake] at hmapped'
      refine ⟨?_, ?_⟩
      · rw [if_neg henough]
        exact except_map_eq_ok.mpr ⟨_, hmapped', rfl⟩
      · rw [← hlength]
        exact except_mapM_length hmapped

end Booley.Goals
