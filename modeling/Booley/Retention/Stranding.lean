import Booley.Retention.Effects

/-!
# What pruning leaves behind it

Which invocations a call that returns has removed, and when another one still depends on them.
-/
namespace Booley.Retention

open Booley.Lib Booley.Lib.Prog

namespace Reports

/-- No invocation that is still there depends on one that is gone now. -/
def NoneStranded (before after : Reports) : Prop :=
  ∀ removed, (before.invocations.lookup removed).isSome = true →
    after.completedTombstone removed = true →
    ∀ live, (after.invocations.lookup live).isSome = true → ¬ before.DependsOn live removed

/-- A dependent that is neither pruned nor being pruned, and none of whose receipts
authenticates. -/
def Unauthenticated (reports : Reports) (n dependent : Nat) : Prop :=
  dependent ≠ n ∧ reports.recoverableQuarantine dependent = false ∧
    (∃ receipt, reports.HoldsReceipt n receipt ∧ receipt.dependentInvocation = dependent) ∧
    ∀ receipt, reports.HoldsReceipt n receipt → receipt.dependentInvocation = dependent →
      reports.authenticateDependentReport receipt = false

/-- The journal an interrupted batch left, when it can be read. -/
def Resumes (reports : Reports) (n : Nat) (batch : PruneBatch) : Prop :=
  reports.readPruneBatch n = .ok (some batch)

/-- The invocations a call with dependents removes beside the origin. -/
def Member (reports : Reports) (n m : Nat) : Prop :=
  (∃ batch, reports.Resumes n batch ∧ m ∈ batch.members) ∨
    (∀ batch, ¬ reports.Resumes n batch) ∧ reports.DependsOn m n

end Reports

/-- What a call that returns may be relied on for: it strands no invocation, and it refuses when
a dependent is not authenticated or cannot be located. -/
structure StrandsNone (before after : Reports) (n : Nat) : Prop where
  stranded : before.NoneStranded after
  authenticated : ∀ dependent, ¬ before.Unauthenticated n dependent
  located : ∀ producer, before.Unlocatable n producer →
    ∃ batch, before.Resumes n batch ∧ producer ∈ batch.members

/-- The removed invocations are closed under their own dependents, and a journal that is resumed
names every dependent that has appeared since. -/
structure ClosedSelection (reports : Reports) (n : Nat) (includeDependents : Bool) : Prop where
  members : includeDependents = true → ∀ m, reports.Member n m →
    ∀ dependent, (reports.invocations.lookup dependent).isSome = true →
      reports.DependsOn dependent m → dependent = n ∨ reports.Member n dependent
  journal : ∀ batch, reports.Resumes n batch → ∀ dependent, reports.DependsOn dependent n →
    dependent = n ∨ dependent ∈ batch.members ∨ reports.completedTombstone dependent = true ∨
      reports.recoverableQuarantine dependent = true
  producers : ∀ batch, reports.Resumes n batch → ∀ producer, reports.Unlocatable n producer →
    producer ∈ batch.members

variable {env : PruneEnvironment} {before after : Reports} {n : Nat}
  {projectData includeDependents : Bool}

/-! ## A call that returns -/

/-- The dependents a call selects, and where they were read. -/
inductive Selects (reports : Reports) (n : Nat) (dependencies : List DependentInvocation) : Prop
  | resumed (batch : PruneBatch) (hbatch : reports.Resumes n batch)
      (h : reports.journalDependents n batch.members = .ok dependencies)
  | found (hbatch : reports.readPruneBatch n = .ok none)
      (h : reports.dependentInvocations n true = .ok dependencies)

/-- What a call that returns has done. -/
inductive Returned (before after : Reports) (n : Nat) (includeDependents : Bool) : Prop
  | already (hpruned : before.completedTombstone n = true) (heq : after = before)
  | alone (dependencies : List DependentInvocation) (hselects : Selects before n dependencies)
      (hbatch : before.readPruneBatch n = .ok none) (halone : includeDependents = false)
      (hpruned : ∀ item ∈ dependencies, before.completedTombstone item.path = true)
      (hframe : Frame (· = n) before after) (htombstone : after.completedTombstone n = true)
  | batch (dependencies : List DependentInvocation) (hselects : Selects before n dependencies)
      (hinclude : includeDependents = true)
      (hframe : Frame (Selected n dependencies) before after)
      (htombstones : ∀ m, Selected n dependencies m → after.completedTombstone m = true)
      (hlocks : ∀ item ∈ dependencies, lockMember n item before = .ok ())

theorem returned_of_run
    (h : (pruneInvocation env n projectData includeDependents).run before = (.ok (), after)) :
    Returned before after n includeDependents := by
  have hwp : wp (fun _ => True) (fun _ last => Returned before last n includeDependents)
      (fun _ _ => True) (pruneInvocation env n projectData includeDependents) before := by
    refine wp_bind.mpr (wp_read.mpr ⟨trivial, ?_⟩)
    dsimp only [id]
    by_cases hpositive : n < 1
    · rw [if_pos hpositive]
      exact ⟨trivial, trivial⟩
    rw [if_neg hpositive]
    by_cases hpruned : before.completedTombstone n = true
    · rw [if_pos hpruned]
      exact ⟨trivial, .already hpruned rfl⟩
    rw [if_neg hpruned]
    cases hbatch : before.readPruneBatch n with
    | error refusal => exact ⟨trivial, trivial⟩
    | ok batch? =>
      cases includeDependents with
      | true =>
        have hbatchCall : ∀ dependencies, Selects before n dependencies →
            wp (fun _ => True) (fun _ last => Returned before last n true) (fun _ _ => True)
              (pruneInvocationBatch env n dependencies projectData) before :=
          fun dependencies hselects => wp_weaken (keeps_pruneInvocationBatch dependencies)
            (fun _ _ => trivial) (fun _ last _ hlast => .batch dependencies hselects rfl hlast.1
              hlast.2.1 hlast.2.2) fun _ _ _ _ => trivial
        cases batch? with
        | some batch =>
          dsimp only
          rw [if_pos rfl]
          split
          · exact ⟨trivial, trivial⟩
          · rename_i dependencies hdependencies
            exact hbatchCall dependencies (.resumed batch hbatch hdependencies)
        | none =>
          dsimp only
          split
          · exact ⟨trivial, trivial⟩
          · rename_i dependencies hdependencies
            exact hbatchCall dependencies (.found hbatch hdependencies)
      | false =>
        cases batch? with
        | some batch => exact ⟨trivial, trivial⟩
        | none =>
          dsimp only
          split
          · exact ⟨trivial, trivial⟩
          · rename_i dependencies hdependencies
            rw [if_neg Bool.false_ne_true]
            split_ifs with hlive
            · exact ⟨trivial, trivial⟩
            · have hdone : ∀ item ∈ dependencies, before.completedTombstone item.path = true := by
                intro item hitem
                by_contra hnot
                exact hlive (List.any_eq_true.mpr ⟨item, hitem, by simpa using hnot⟩)
              have hone : Keeps (· = n) before (·.completedTombstone n = true)
                  (pruneSelected env n projectData) before := keeps_pruneSelected rfl (.refl before)
              exact wp_weaken hone (fun _ _ => trivial)
                (fun _ last _ hlast => .alone dependencies (.found hbatch hdependencies) hbatch
                  rfl hdone hlast.1 hlast.2) fun _ _ _ _ => trivial
  have hrun := run_of_wp hwp
  rw [h] at hrun
  exact hrun

/-! ## The selected invocations -/

namespace Reports

theorem not_completedTombstone_of_live {m : Nat}
    (h : (before.invocations.lookup m).isSome = true) : before.completedTombstone m = false := by
  obtain ⟨directory, hdirectory⟩ := Option.isSome_iff_exists.mp h
  simp [completedTombstone, hdirectory]

/-- A dependent whose receipt does not authenticate is not pruned. -/
theorem Unauthenticated.not_pruned {dependent : Nat} (h : before.Unauthenticated n dependent) :
    before.completedTombstone dependent = false := by
  obtain ⟨-, -, ⟨receipt, hholds, rfl⟩, hall⟩ := h
  have hfails := hall receipt hholds rfl
  unfold authenticateDependentReport at hfails
  cases hreport : before.report? receipt.dependentInvocation with
  | none => simpa [hreport] using hfails
  | some report =>
    apply not_completedTombstone_of_live
    unfold report? at hreport
    obtain ⟨directory, hdirectory, -⟩ := Option.bind_eq_some_iff.mp hreport
    simp [hdirectory]

/-- Without its report a dependent is one by a receipt, which does not authenticate. -/
theorem unauthenticated_of_missing {dependent : Nat} (hn : dependent ≠ n)
    (hdepends : before.DependsOn dependent n)
    (hgone : before.invocations.lookup dependent = none)
    (hpruned : before.completedTombstone dependent = false)
    (hrecoverable : before.recoverableQuarantine dependent = false) :
    before.Unauthenticated n dependent := by
  refine ⟨hn, hrecoverable, ?_, ?_⟩
  · rcases hdepends with hreceipt | ⟨-, -, directory, hdirectory, -⟩
    · exact hreceipt
    · simp [hgone] at hdirectory
  · rintro receipt - rfl
    simp [authenticateDependentReport, report?, hgone, hpruned]

end Reports

/-- The members of a journal, each as discovery finds it now if it does. -/
theorem journalDependents_eq_ok {members : List Nat} {dependencies : List DependentInvocation}
    (h : before.journalDependents n members = .ok dependencies) :
    ∃ current : List DependentInvocation,
      ((before.invocations.lookup n).isSome = true →
        before.dependentInvocations n false = .ok current) ∧
      ((before.invocations.lookup n).isSome = false → current = []) ∧
      dependencies = members.map fun member => match current.find? (·.path = member) with
        | some item => item
        | none => ⟨member, before.completedTombstone member ||
            before.recoverableQuarantine member⟩ := by
  unfold Reports.journalDependents at h
  dsimp only at h
  split_ifs at h with hlive
  · obtain ⟨current, hcurrent, h⟩ := except_bind_eq_ok.mp h
    exact ⟨current, fun _ => hcurrent, by simp [hlive], (Except.ok.inj h).symm⟩
  · exact ⟨[], by simp [hlive], fun _ => rfl, (Except.ok.inj h).symm⟩

theorem paths_of_journalDependents {members : List Nat} {dependencies : List DependentInvocation}
    (h : before.journalDependents n members = .ok dependencies) :
    dependencies.map (·.path) = members := by
  obtain ⟨current, -, -, rfl⟩ := journalDependents_eq_ok h
  rw [List.map_map]
  conv_rhs => rw [← List.map_id members]
  apply List.map_congr_left
  intro member _
  dsimp only [Function.comp]
  split
  · rename_i item hitem
    simpa using List.find?_some hitem
  · rfl

theorem Selects.mem_iff {dependencies : List DependentInvocation}
    (h : Selects before n dependencies) (m : Nat) :
    m ∈ dependencies.map (·.path) ↔ before.Member n m := by
  cases h with
  | resumed batch hbatch h =>
    rw [paths_of_journalDependents h]
    constructor
    · exact fun hm => .inl ⟨batch, hbatch, hm⟩
    · rintro (⟨other, hother, hm⟩ | ⟨hnone, -⟩)
      · obtain rfl : batch = other := by
          simpa using (Except.ok.inj (hbatch.symm.trans hother))
        exact hm
      · exact absurd hbatch (hnone batch)
  | found hbatch h =>
    have hnone : ∀ batch, ¬ before.Resumes n batch := by
      intro batch hresumes
      rw [Reports.Resumes, hbatch] at hresumes
      simp at hresumes
    rw [(Reports.discovered_of_dependentInvocations h).mem_iff]
    constructor
    · exact fun hm => .inr ⟨hnone, hm⟩
    · rintro (⟨batch, hresumes, -⟩ | ⟨-, hm⟩)
      · exact absurd hresumes (hnone batch)
      · exact hm

/-- A selected dependent that could be locked is authenticated, pruned or being pruned. -/
theorem Selects.authenticated {dependencies : List DependentInvocation}
    (h : Selects before n dependencies) {item : DependentInvocation} (hitem : item ∈ dependencies)
    (hlock : before.completedTombstone item.path = true ∨
      lockMember n item before = .ok ()) : ¬ before.Unauthenticated n item.path := by
  intro hunauthenticated
  have hpruned := hunauthenticated.not_pruned
  obtain ⟨-, hrecoverable, ⟨receipt, hholds, hpath⟩, hall⟩ := hunauthenticated
  have hdiscovered : ∀ {dependencies : List DependentInvocation} {rejectUnknown : Bool},
      before.dependentInvocations n rejectUnknown = .ok dependencies → item ∈ dependencies →
      item.authenticated = true → False := by
    intro dependencies rejectUnknown hfound hmem hauthenticated
    rw [(Reports.discovered_of_dependentInvocations hfound).authenticated item hmem]
      at hauthenticated
    obtain ⟨other, hother, hotherPath, hauthenticates⟩ :=
      Reports.exists_receipt_of_authenticates hauthenticated ⟨receipt, hholds, hpath⟩
    rw [hall other hother hotherPath] at hauthenticates
    cases hauthenticates
  have hauthenticated : item.authenticated = true := by
    rcases hlock with htombstone | hlock
    · simp [htombstone] at hpruned
    · unfold lockMember at hlock
      by_contra hnot
      have hfalse : item.authenticated = false := by simpa using hnot
      simp [hpruned, hfalse, hrecoverable] at hlock
  cases h with
  | resumed batch hbatch h =>
    obtain ⟨current, hlive, hgone, rfl⟩ := journalDependents_eq_ok h
    obtain ⟨member, -, hmember⟩ := List.mem_map.mp hitem
    split at hmember
    · rename_i held hheld
      subst hmember
      cases horigin : (before.invocations.lookup n).isSome with
      | true => exact hdiscovered (hlive horigin) (List.mem_of_find?_eq_some hheld) hauthenticated
      | false => simp [hgone horigin] at hheld
    · subst hmember
      simp [hpruned, hrecoverable] at hauthenticated
  | found hbatch h => exact hdiscovered h hitem hauthenticated

/-! ## When nothing is stranded -/

/-- A call with dependents that returns has kept every invocation it did not select. -/
theorem live_after_of_not_selected {dependencies : List DependentInvocation} {m : Nat}
    (hframe : Frame (Selected n dependencies) before after) (hm : ¬ Selected n dependencies m)
    (hlive : (before.invocations.lookup m).isSome = true) :
    (after.invocations.lookup m).isSome = true := by
  rw [hframe.invocations m hm]
  exact hlive

theorem live_of_dependsOn {m dependent : Nat} (h : before.DependsOn dependent m) :
    (before.invocations.lookup m).isSome = true := by
  by_contra hgone
  exact Reports.not_dependsOn_of_gone (by simpa using hgone) h

theorem Returned.not_resumes_of_pruned {batch : PruneBatch}
    (hpruned : before.completedTombstone n = true) : ¬ before.Resumes n batch := by
  intro hresumes
  simp only [Reports.completedTombstone, Bool.and_eq_true] at hpruned
  obtain ⟨hgone, hempty⟩ := hpruned
  have hlive : before.invocations.lookup n = none := by simpa using hgone
  cases hquarantine : before.quarantines.lookup n with
  | none => simp [hquarantine] at hempty
  | some quarantine =>
    have hbatch : quarantine.batchJournal = none := by
      simp only [hquarantine, Quarantine.empty, Bool.and_eq_true] at hempty
      simpa using hempty.1.2
    simp [Reports.Resumes, Reports.readPruneBatch, hlive, hquarantine, hbatch] at hresumes

/-- What a batch call that strands nothing has selected. -/
theorem closed_of_batch {dependencies : List DependentInvocation}
    (hselects : Selects before n dependencies)
    (hframe : Frame (Selected n dependencies) before after)
    (htombstones : ∀ m, Selected n dependencies m → after.completedTombstone m = true)
    (h : StrandsNone before after n) : ClosedSelection before n includeDependents where
  members _ m hm dependent hlive hdepends := by
    by_contra hnot
    have hselected : ¬ Selected n dependencies dependent := by
      rintro (heq | hmember)
      · exact hnot (.inl heq)
      · exact hnot (.inr ((hselects.mem_iff dependent).mp hmember))
    exact h.stranded m (live_of_dependsOn hdepends)
      (htombstones m (.inr ((hselects.mem_iff m).mpr hm))) dependent
      (live_after_of_not_selected hframe hselected hlive) hdepends
  journal batch hresumes dependent hdepends := by
    by_contra hnot
    simp only [not_or] at hnot
    obtain ⟨hn, hmember, hpruned, hrecoverable⟩ := hnot
    cases hlookup : before.invocations.lookup dependent with
    | none =>
      exact h.authenticated dependent (Reports.unauthenticated_of_missing hn hdepends hlookup
        (by simpa using hpruned) (by simpa using hrecoverable))
    | some directory =>
      have hselected : ¬ Selected n dependencies dependent := by
        rintro (heq | hmem)
        · exact hn heq
        · rcases (hselects.mem_iff dependent).mp hmem with ⟨other, hother, hin⟩ | ⟨hnone, -⟩
          · obtain rfl : batch = other := by
              simpa using Except.ok.inj (hresumes.symm.trans hother)
            exact hmember hin
          · exact hnone batch hresumes
      exact h.stranded n (live_of_dependsOn hdepends) (htombstones n (.inl rfl)) dependent
        (live_after_of_not_selected hframe hselected (by simp [hlookup])) hdepends
  producers batch hresumes producer hunlocatable := by
    obtain ⟨other, hother, hin⟩ := h.located producer hunlocatable
    obtain rfl : batch = other := by simpa using Except.ok.inj (hresumes.symm.trans hother)
    exact hin

theorem closed_of_strandsNone (hreturned : Returned before after n includeDependents)
    (h : StrandsNone before after n) : ClosedSelection before n includeDependents := by
  cases hreturned with
  | already hpruned heq =>
    have hgone : before.invocations.lookup n = none := by
      simp only [Reports.completedTombstone, Bool.and_eq_true] at hpruned
      simpa using hpruned.1
    refine ⟨?_, fun _ hresumes => absurd hresumes (Returned.not_resumes_of_pruned hpruned),
      fun _ hresumes => absurd hresumes (Returned.not_resumes_of_pruned hpruned)⟩
    rintro - m (⟨batch, hresumes, -⟩ | ⟨-, hdepends⟩)
    · exact absurd hresumes (Returned.not_resumes_of_pruned hpruned)
    · exact absurd hdepends (Reports.not_dependsOn_of_gone hgone)
  | alone dependencies hselects hbatch halone hpruned hframe htombstone =>
    have hnone : ∀ batch, ¬ before.Resumes n batch := by
      intro batch hresumes
      rw [Reports.Resumes, hbatch] at hresumes
      simp at hresumes
    refine ⟨?_, fun batch hresumes => absurd hresumes (hnone batch),
      fun batch hresumes => absurd hresumes (hnone batch)⟩
    simp [halone]
  | batch dependencies hselects hinclude hframe htombstones hlocks =>
    exact closed_of_batch hselects hframe htombstones h

/-- A dependent the call has to refuse is not among those it selected. -/
theorem not_unlocatable_of_selects {dependencies : List DependentInvocation}
    (hselects : Selects before n dependencies)
    (h : ClosedSelection before n includeDependents) (producer : Nat)
    (hunlocatable : before.Unlocatable n producer) :
    ∃ batch, before.Resumes n batch ∧ producer ∈ batch.members := by
  cases hselects with
  | resumed batch hbatch _ => exact ⟨batch, hbatch, h.producers batch hbatch producer hunlocatable⟩
  | found hbatch hfound =>
    exact absurd hunlocatable (Reports.not_unlocatable_of_dependentInvocations hfound producer)

theorem strandsNone_of_batch {dependencies : List DependentInvocation}
    (hselects : Selects before n dependencies) (hinclude : includeDependents = true)
    (hframe : Frame (Selected n dependencies) before after)
    (htombstones : ∀ m, Selected n dependencies m → after.completedTombstone m = true)
    (hlocks : ∀ item ∈ dependencies, lockMember n item before = .ok ())
    (h : ClosedSelection before n includeDependents) : StrandsNone before after n where
  stranded removed hremoved hpruned live hlive hdepends := by
    have hkept : ∀ m, after.completedTombstone m = false → ¬ Selected n dependencies m := by
      intro m hnot hm
      simp [htombstones m hm] at hnot
    have hliveNot := hkept live (Reports.not_completedTombstone_of_live hlive)
    have hbefore : (before.invocations.lookup live).isSome = true := by
      rw [← hframe.invocations live hliveNot]
      exact hlive
    have hselected : Selected n dependencies removed := by
      by_contra hnot
      have hstill := live_after_of_not_selected hframe hnot hremoved
      simp [Reports.not_completedTombstone_of_live hstill] at hpruned
    have hliveN : live ≠ n := fun heq => hliveNot (.inl heq)
    have hliveMember : ¬ before.Member n live :=
      fun hmember => hliveNot (.inr ((hselects.mem_iff live).mpr hmember))
    rcases hselected with rfl | hmember
    · by_cases hresumes : ∃ batch, before.Resumes removed batch
      · obtain ⟨batch, hbatch⟩ := hresumes
        rcases h.journal batch hbatch live hdepends with heq | hin | htombstone | hrecoverable
        · exact hliveN heq
        · exact hliveMember (.inl ⟨batch, hbatch, hin⟩)
        · simp [Reports.not_completedTombstone_of_live hbefore] at htombstone
        · obtain ⟨directory, hdirectory⟩ := Option.isSome_iff_exists.mp hbefore
          simp [Reports.recoverableQuarantine, hdirectory] at hrecoverable
      · exact hliveMember (.inr ⟨fun batch hbatch => hresumes ⟨batch, hbatch⟩, hdepends⟩)
    · rcases h.members hinclude removed ((hselects.mem_iff removed).mp hmember) live hbefore
        hdepends with heq | hin
      · exact hliveN heq
      · exact hliveMember hin
  authenticated dependent hunauthenticated := by
    have hdepends : before.DependsOn dependent n := .inl hunauthenticated.2.2.1
    have hmember : before.Member n dependent := by
      by_cases hresumes : ∃ batch, before.Resumes n batch
      · obtain ⟨batch, hbatch⟩ := hresumes
        rcases h.journal batch hbatch dependent hdepends with heq | hin | htombstone | hrecoverable
        · exact absurd heq hunauthenticated.1
        · exact .inl ⟨batch, hbatch, hin⟩
        · simp [hunauthenticated.not_pruned] at htombstone
        · simp [hunauthenticated.2.1] at hrecoverable
      · exact .inr ⟨fun batch hbatch => hresumes ⟨batch, hbatch⟩, hdepends⟩
    obtain ⟨item, hitem, rfl⟩ := List.mem_map.mp ((hselects.mem_iff dependent).mpr hmember)
    exact hselects.authenticated hitem (.inr (hlocks item hitem)) hunauthenticated
  located := not_unlocatable_of_selects hselects h

theorem strandsNone_of_closed (hreturned : Returned before after n includeDependents)
    (h : ClosedSelection before n includeDependents) : StrandsNone before after n := by
  cases hreturned with
  | already hpruned heq =>
    subst heq
    have hgone : after.invocations.lookup n = none := by
      simp only [Reports.completedTombstone, Bool.and_eq_true] at hpruned
      simpa using hpruned.1
    have hcampaigns : after.campaigns n = [] := by simp [Reports.campaigns, hgone]
    refine ⟨?_, ?_, ?_⟩
    · intro removed hlive htombstone
      simp [Reports.not_completedTombstone_of_live hlive] at htombstone
    · rintro dependent ⟨-, -, hreceipt, -⟩
      exact Reports.not_dependsOn_of_gone hgone (.inl hreceipt)
    · rintro producer ⟨⟨campaign, hcampaign, -⟩, -⟩
      simp [hcampaigns] at hcampaign
  | alone dependencies hselects hbatch halone hpruned hframe htombstone =>
    have hnone : ∀ batch, ¬ before.Resumes n batch := by
      intro batch hresumes
      rw [Reports.Resumes, hbatch] at hresumes
      simp at hresumes
    have hitem : ∀ dependent, before.DependsOn dependent n →
        ∃ item ∈ dependencies, item.path = dependent := by
      intro dependent hdepends
      exact List.mem_map.mp ((hselects.mem_iff dependent).mpr (.inr ⟨hnone, hdepends⟩))
    refine ⟨?_, ?_, not_unlocatable_of_selects hselects h⟩
    · intro removed hremoved hgone live hlive hdepends
      have heq : removed = n := by
        by_contra hne
        rw [hframe.completedTombstone hne,
          Reports.not_completedTombstone_of_live hremoved] at hgone
        cases hgone
      subst heq
      obtain ⟨item, hmem, rfl⟩ := hitem live hdepends
      obtain ⟨directory, hdirectory⟩ := Option.isSome_iff_exists.mp hlive
      obtain ⟨held, hheld, -⟩ := hframe.evidence item.path directory hdirectory
      have hnot : before.completedTombstone item.path = false :=
        Reports.not_completedTombstone_of_live (by simp [hheld])
      simp [hpruned item hmem] at hnot
    · intro dependent hunauthenticated
      obtain ⟨item, hmem, rfl⟩ := hitem dependent (.inl hunauthenticated.2.2.1)
      exact hselects.authenticated hmem (.inl (hpruned item hmem)) hunauthenticated
  | batch dependencies hselects hinclude hframe htombstones hlocks =>
    exact strandsNone_of_batch hselects hinclude hframe htombstones hlocks h

/-- A call that returns strands no invocation, and has refused whatever it must, exactly when
the invocations it selects are closed under their dependents and the journal it resumes is up
to date. -/
theorem pruneInvocation_strands_none_iff
    (h : (pruneInvocation env n projectData includeDependents).run before = (.ok (), after)) :
    StrandsNone before after n ↔ ClosedSelection before n includeDependents :=
  ⟨closed_of_strandsNone (returned_of_run h), strandsNone_of_closed (returned_of_run h)⟩

/-! ## A dependent of a dependent -/

section Chain

/-- An environment that finds nothing to refuse. -/
def permissive : PruneEnvironment where
  validate _ _ := .ok ()
  recoverLane _ := .ok ()
  authenticRun _ := true
  infersProjectData := true
  listing := id
  listing_perm _ := .refl _

def chainCampaign (n : Nat) (id : String) (dependents : List Nat) : Campaign where
  target := "top"
  campaignId := some id
  sha256 := id
  receipts := dependents.map fun dependent => some ⟨id, n, "top", dependent⟩
  producers := []
  interrupted := []

/-- A finished invocation whose report cites the campaign it resumed. -/
def chainInvocation (campaigns : List Campaign) (resumed : List (Nat × String)) : Directory where
  invocation := {
    files := ["progress.json"]
    campaigns := campaigns
    report := some (some (resumed.map fun origin => ⟨origin.2,
      some ⟨.reportsRoot ⟨origin.1, "top"⟩, "simulation_campaign_manifest", origin.2, origin.2⟩⟩))
    projections := []
    bare := by simp }
  pruneJournal := none
  batchJournal := none
  temporaries := []

/-- Invocation 2 resumed a campaign of 1, and 3 one of 2. -/
def chain : Reports where
  invocations := (((∅ : Dict Nat Directory).insert 3 (chainInvocation [] [(2, "b")])).insert 2
    (chainInvocation [chainCampaign 2 "b" [3]] [(1, "a")])).insert 1
      (chainInvocation [chainCampaign 1 "a" [2]] [])
  quarantines := ∅
  foreignLocks := []
  runDirectories := []

/-- Pruning 1 with its dependents removes 2 and leaves 3, which depends on 2. -/
theorem pruneInvocation_strands_dependent_of_dependent :
    ¬ ∀ (env : PruneEnvironment) (before after : Reports) (n : Nat)
      (projectData includeDependents : Bool),
      (pruneInvocation env n projectData includeDependents).run before = (.ok (), after) →
        StrandsNone before after n := by
  intro hall
  have hrun : ((pruneInvocation permissive 1 true true).run chain).1 = .ok () := by decide
  have h := hall permissive chain _ 1 true true (Prod.ext hrun rfl)
  refine h.stranded 2 (by decide) (by decide) 3 (by decide) (.inl ⟨⟨⟨"b", 2, "top", 3⟩, true⟩, ?_, rfl⟩)
  exact ⟨chainCampaign 2 "b" [3], by decide, some ⟨"b", 2, "top", 3⟩, by decide, by decide, rfl⟩

/-- Pruning 3, on which nothing depends, leaves nothing stranded. -/
theorem pruneInvocation_strands_none_iff_leaf :
    StrandsNone chain ((pruneInvocation permissive 3 true true).run chain).2 3 ↔
      ClosedSelection chain 3 true :=
  pruneInvocation_strands_none_iff (Prod.ext (by decide) rfl :
    (pruneInvocation permissive 3 true true).run chain = (.ok (), _))

end Chain

end Booley.Retention
