import Booley.Retention.Pruning

/-!
# What pruning changes

A call, stopped anywhere, leaves every invocation it did not select as it was, and the evidence
of a selected one as it was until its directory is renamed. Outside the reports root it removes
only run directories of the selected invocations' interrupted attempts.
-/
namespace Booley.Retention

open Booley.Lib Booley.Lib.Prog

/-- A run directory an interrupted attempt of the invocation owns. -/
def Reports.OwnsRun (reports : Reports) (n : Nat) (run : String) : Prop :=
  ∃ campaign ∈ reports.campaigns n, ∃ attempt ∈ campaign.interrupted, attempt.ownedRun = some run

/-- Nothing but the selected invocations has changed, and no evidence that is still in place. -/
structure Frame (selected : Nat → Prop) (before after : Reports) : Prop where
  invocations : ∀ m, ¬ selected m →
    after.invocations.lookup m = before.invocations.lookup m
  quarantines : ∀ m, ¬ selected m →
    after.quarantines.lookup m = before.quarantines.lookup m
  foreignLocks : after.foreignLocks = before.foreignLocks
  evidence : ∀ m directory, after.invocations.lookup m = some directory →
    ∃ held, before.invocations.lookup m = some held ∧ directory.invocation = held.invocation
  inPlace : ∀ m, (before.invocations.lookup m).isSome →
    (after.invocations.lookup m).isSome ∨ (after.quarantines.lookup m).isSome
  quarantined : ∀ m, (before.quarantines.lookup m).isSome → (after.quarantines.lookup m).isSome
  kept : ∀ run ∈ after.runDirectories, run ∈ before.runDirectories
  removed : ∀ run ∈ before.runDirectories, run ∉ after.runDirectories →
    ∃ m, selected m ∧ before.OwnsRun m run

variable {env : PruneEnvironment} {selected : Nat → Prop} {start reports : Reports} {n : Nat}
  {projectData : Bool}

namespace Frame

theorem refl (reports : Reports) : Frame selected reports reports where
  invocations _ _ := rfl
  quarantines _ _ := rfl
  foreignLocks := rfl
  evidence _ directory h := ⟨directory, h, rfl⟩
  inPlace _ h := .inl h
  quarantined _ h := h
  kept _ h := h
  removed _ h hnot := absurd h hnot

theorem campaigns (h : Frame selected start reports) {m : Nat} {campaign : Campaign}
    (hcampaign : campaign ∈ reports.campaigns m) : campaign ∈ start.campaigns m := by
  unfold Reports.campaigns at hcampaign ⊢
  cases hlookup : reports.invocations.lookup m with
  | none => simp [hlookup] at hcampaign
  | some directory =>
    obtain ⟨held, hheld, heq⟩ := h.evidence m directory hlookup
    rw [hlookup] at hcampaign
    rw [hheld]
    dsimp only at hcampaign ⊢
    rwa [← heq]

theorem ownsRun (h : Frame selected start reports) {m : Nat} {run : String}
    (hrun : reports.OwnsRun m run) : start.OwnsRun m run := by
  obtain ⟨campaign, hcampaign, hattempt⟩ := hrun
  exact ⟨campaign, h.campaigns hcampaign, hattempt⟩

theorem trans {also : Nat → Prop} {last : Reports} (h : Frame selected start reports)
    (hnext : Frame also reports last) (halso : ∀ m, also m → selected m) :
    Frame selected start last where
  invocations m hm :=
    (hnext.invocations m fun hm' => hm (halso m hm')).trans (h.invocations m hm)
  quarantines m hm :=
    (hnext.quarantines m fun hm' => hm (halso m hm')).trans (h.quarantines m hm)
  foreignLocks := hnext.foreignLocks.trans h.foreignLocks
  evidence m directory hdirectory := by
    obtain ⟨middle, hmiddle, heq⟩ := hnext.evidence m directory hdirectory
    obtain ⟨held, hheld, hheq⟩ := h.evidence m middle hmiddle
    exact ⟨held, hheld, heq.trans hheq⟩
  inPlace m hm := by
    rcases h.inPlace m hm with hlive | hgone
    · exact hnext.inPlace m hlive
    · exact .inr (hnext.quarantined m hgone)
  quarantined m hm := hnext.quarantined m (h.quarantined m hm)
  kept run hrun := h.kept run (hnext.kept run hrun)
  removed run hrun hgone := by
    by_cases hmiddle : run ∈ reports.runDirectories
    · obtain ⟨m, hm, howns⟩ := hnext.removed run hmiddle hgone
      exact ⟨m, halso m hm, h.ownsRun howns⟩
    · exact h.removed run hrun hmiddle

theorem mono {also : Nat → Prop} (h : Frame also start reports)
    (halso : ∀ m, also m → selected m) : Frame selected start reports :=
  (Frame.refl start).trans h halso

end Frame

/-! ## One write -/

theorem frame_updateDirectory {change : Directory → Directory}
    (hchange : ∀ directory, (change directory).invocation = directory.invocation)
    (hn : selected n) : Frame selected reports (updateDirectory n change reports) where
  invocations m hm := by
    have hne : m ≠ n := fun heq => hm (heq ▸ hn)
    simp [updateDirectory, Dict.lookup_alter, hne]
  quarantines _ _ := rfl
  foreignLocks := rfl
  evidence m directory hdirectory := by
    simp only [updateDirectory, Dict.lookup_alter] at hdirectory
    split_ifs at hdirectory with hm
    · subst hm
      obtain ⟨held, hheld, rfl⟩ := Option.map_eq_some_iff.mp hdirectory
      exact ⟨held, hheld, hchange held⟩
    · exact ⟨directory, hdirectory, rfl⟩
  inPlace m hm := by
    by_cases heq : m = n
    · subst heq
      exact .inl (by simpa [updateDirectory, Dict.lookup_alter] using hm)
    · exact .inl (by simpa [updateDirectory, Dict.lookup_alter, heq] using hm)
  quarantined _ h := h
  kept _ h := h
  removed _ h hnot := absurd h hnot

theorem frame_updateQuarantine {change : Quarantine → Quarantine} (hn : selected n) :
    Frame selected reports (updateQuarantine n change reports) where
  invocations _ _ := rfl
  quarantines m hm := by
    have hne : m ≠ n := fun heq => hm (heq ▸ hn)
    simp [updateQuarantine, Dict.lookup_alter, hne]
  foreignLocks := rfl
  evidence _ directory h := ⟨directory, h, rfl⟩
  inPlace _ h := .inl h
  quarantined m hm := by
    by_cases heq : m = n
    · subst heq
      simpa [updateQuarantine, Dict.lookup_alter] using hm
    · simpa [updateQuarantine, Dict.lookup_alter, heq] using hm
  kept _ h := h
  removed _ h hnot := absurd h hnot

theorem lookup_renameToQuarantine (m : Nat) :
    (renameToQuarantine n reports).invocations.lookup m =
      if m = n then none else reports.invocations.lookup m := by
  unfold renameToQuarantine
  cases hlookup : reports.invocations.lookup n with
  | none =>
    by_cases hm : m = n
    · subst hm
      simp [hlookup]
    · simp [hm]
  | some directory =>
    by_cases hm : m = n
    · subst hm
      simp
    · simp [hm, AList.lookup_erase_ne hm]

theorem frame_renameToQuarantine (hn : selected n) :
    Frame selected reports (renameToQuarantine n reports) where
  invocations m hm := by
    have hne : m ≠ n := fun heq => hm (heq ▸ hn)
    rw [lookup_renameToQuarantine, if_neg hne]
  quarantines m hm := by
    have hne : m ≠ n := fun heq => hm (heq ▸ hn)
    unfold renameToQuarantine
    cases reports.invocations.lookup n with
    | none => rfl
    | some directory => simp [AList.lookup_insert_ne hne]
  foreignLocks := by
    unfold renameToQuarantine
    cases reports.invocations.lookup n <;> rfl
  evidence m directory hdirectory := by
    rw [lookup_renameToQuarantine] at hdirectory
    split_ifs at hdirectory
    exact ⟨directory, hdirectory, rfl⟩
  inPlace m hm := by
    rw [lookup_renameToQuarantine]
    by_cases heq : m = n
    · subst heq
      obtain ⟨directory, hdirectory⟩ := Option.isSome_iff_exists.mp hm
      exact .inr (by simp [renameToQuarantine, hdirectory])
    · exact .inl (by simpa [heq] using hm)
  quarantined m hm := by
    unfold renameToQuarantine
    cases reports.invocations.lookup n with
    | none => exact hm
    | some directory =>
      by_cases heq : m = n
      · subst heq
        simp
      · simpa [AList.lookup_insert_ne heq] using hm
  kept run hrun := by
    unfold renameToQuarantine at hrun
    cases hlookup : reports.invocations.lookup n with
    | none => simpa [hlookup] using hrun
    | some directory => simpa [hlookup] using hrun
  removed run hrun hnot := by
    unfold renameToQuarantine at hnot
    cases hlookup : reports.invocations.lookup n with
    | none => simp [hlookup, hrun] at hnot
    | some directory => simp [hlookup, hrun] at hnot

theorem Frame.removeRun (h : Frame selected start reports) {m : Nat} {run : String}
    (hm : selected m) (howns : start.OwnsRun m run) :
    Frame selected start
      { reports with runDirectories := reports.runDirectories.filter (· ≠ run) } where
  invocations := h.invocations
  quarantines := h.quarantines
  foreignLocks := h.foreignLocks
  evidence := h.evidence
  inPlace := h.inPlace
  quarantined := h.quarantined
  kept other hother := h.kept other (List.mem_filter.mp hother).1
  removed other hother hgone := by
    by_cases hpresent : other ∈ reports.runDirectories
    · have heq : other = run := by simpa [hpresent] using hgone
      exact ⟨m, hm, heq ▸ howns⟩
    · exact h.removed other hother hpresent

/-- A frame leaves the pruned invocations it does not select pruned. -/
theorem Frame.completedTombstone {before after : Reports} (h : Frame selected before after)
    {m : Nat} (hm : ¬ selected m) :
    after.completedTombstone m = before.completedTombstone m := by
  unfold Reports.completedTombstone
  rw [h.invocations m hm, h.quarantines m hm]

/-! ## One invocation -/

theorem lookup_updateDirectory (change : Directory → Directory) (m : Nat) :
    (updateDirectory n change reports).invocations.lookup m =
      if m = n then (reports.invocations.lookup n).map change
      else reports.invocations.lookup m := by
  simp [updateDirectory, Dict.lookup_alter]

/-- A program that changes nothing but the selected invocations, wherever it is stopped. -/
def Keeps (selected : Nat → Prop) (start : Reports) (post : Reports → Prop)
    (prog : Prog Reports String Unit) (reports : Reports) : Prop :=
  wp (Frame selected start) (fun _ after => Frame selected start after ∧ post after)
    (fun _ => Frame selected start) prog reports

variable {post : Reports → Prop}

theorem Keeps.bind {middle : Reports → Prop} {first : Prog Reports String Unit}
    {second : Unit → Prog Reports String Unit} (hfirst : Keeps selected start middle first reports)
    (hsecond : ∀ after, Frame selected start after → middle after →
      Keeps selected start post (second ()) after) :
    Keeps selected start post (first >>= second) reports :=
  wp_bind.mpr (wp_mono hfirst (fun _ after _ h => hsecond after h.1 h.2) fun _ _ _ h => h)

/-- A loop that changes nothing but the selected invocations. -/
theorem keeps_forEach {α : Type} (inv : List α → Reports → Prop) {items : List α}
    {body : α → Prog Reports String Unit} (h : Frame selected start reports)
    (hinit : inv items reports)
    (hbody : ∀ item rest after, Frame selected start after → inv (item :: rest) after →
      Keeps selected start (inv rest) (body item) after) :
    Keeps selected start (inv []) (forEach items body) reports :=
  wp_forEach (fun rest after => Frame selected start after ∧ inv rest after) ⟨h, hinit⟩
    (fun _ _ h => h.1) fun item rest after h => hbody item rest after h.1 h.2

theorem keeps_require {check : Reports → Except String Unit} (h : Frame selected start reports) :
    Keeps selected start (fun after => after = reports ∧ check reports = .ok ()) (require check)
      reports := by
  refine wp_require.mpr ⟨h, ?_⟩
  cases hcheck : check reports with
  | error refusal => exact h
  | ok value => exact ⟨h, rfl, rfl⟩

/-- Publishing a journal leaves the directory in place. -/
theorem keeps_writeCampaignJson {publish : Directory → Directory}
    (hpublish : ∀ directory, (publish directory).invocation = directory.invocation)
    (hn : selected n) (h : Frame selected start reports)
    (hlive : (reports.invocations.lookup n).isSome) :
    Keeps selected start (fun after => (after.invocations.lookup n).isSome)
      (writeCampaignJson n publish) reports := by
  have hstaged : Frame selected start (updateDirectory n (fun directory =>
      { directory with temporaries := ".coverage-" :: directory.temporaries }) reports) :=
    h.trans (frame_updateDirectory (fun _ => rfl) hn) fun _ h => h
  have hpublished : Frame selected start (updateDirectory n (fun directory =>
      publish { directory with temporaries := directory.temporaries.tail }) _) :=
    hstaged.trans (frame_updateDirectory (fun _ => hpublish _) hn) fun _ h => h
  refine wp_bind.mpr (wp_update.mpr ⟨h, hstaged, wp_update.mpr ⟨hstaged, hpublished, ?_⟩⟩)
  refine ⟨hpublished, ?_⟩
  simpa [lookup_updateDirectory] using hlive

theorem keeps_rename (hn : selected n) (h : Frame selected start reports)
    (hlive : (reports.invocations.lookup n).isSome) :
    Keeps selected start (fun after => after.invocations.lookup n = none ∧
        (after.quarantines.lookup n).isSome) (update (renameToQuarantine n)) reports := by
  have hrenamed := h.trans (frame_renameToQuarantine hn) fun _ h => h
  refine wp_update.mpr ⟨h, hrenamed, hrenamed, ?_, ?_⟩
  · rw [lookup_renameToQuarantine, if_pos rfl]
  · obtain ⟨directory, hdirectory⟩ := Option.isSome_iff_exists.mp hlive
    simp [renameToQuarantine, hdirectory]

/-- Recovering a campaign of a selected invocation removes only run directories of its own. -/
theorem keeps_recoverCampaign {campaign : Campaign} (hn : selected n)
    (hcampaign : campaign ∈ start.campaigns n) (h : Frame selected start reports)
    (hlive : (reports.invocations.lookup n).isSome) :
    Keeps selected start (fun after => (after.invocations.lookup n).isSome)
      (recoverCampaign env projectData campaign) reports := by
  have howns : ∀ run ∈ campaign.interrupted.filterMap (·.ownedRun), start.OwnsRun n run := by
    intro run hrun
    obtain ⟨attempt, hattempt, hrun⟩ := List.mem_filterMap.mp hrun
    exact ⟨campaign, hcampaign, attempt, hattempt, hrun⟩
  refine (keeps_require h).bind ?_
  rintro _ - ⟨rfl, -⟩
  cases projectData with
  | false => exact ⟨h, h, hlive⟩
  | true =>
    refine Keeps.bind
      (keeps_forEach (fun _ after => (after.invocations.lookup n).isSome) h hlive ?_) ?_
    · intro lane rest after hafter hlive
      refine wp_ofExcept.mpr ⟨hafter, ?_⟩
      split
      · exact ⟨hafter, hlive⟩
      · exact hafter
    · intro after hafter hlive
      refine wp_mono (keeps_forEach (fun rest after => (after.invocations.lookup n).isSome ∧
        ∀ run ∈ rest, start.OwnsRun n run) hafter ⟨hlive, howns⟩ ?_)
        (fun _ _ _ h => ⟨h.1, h.2.1⟩) fun _ _ _ h => h
      rintro run rest after hafter ⟨hlive, hruns⟩
      have hrest : ∀ other ∈ rest, start.OwnsRun n other :=
        fun other hother => hruns other (by simp [hother])
      refine wp_bind.mpr (wp_read.mpr ⟨hafter, ?_⟩)
      cases after.runDirectories.contains run with
      | false => exact ⟨hafter, hafter, hlive, hrest⟩
      | true =>
        dsimp only
        split
        · have hremoved := hafter.removeRun hn (hruns run (by simp))
          exact ⟨hafter, hremoved, hremoved, hlive, hrest⟩
        · exact ⟨hafter, hafter⟩

/-- A selected invocation ends up in its quarantine, or the call refuses. -/
theorem keeps_quarantineInvocation (hn : selected n) (h : Frame selected start reports) :
    Keeps selected start (fun after => after.invocations.lookup n = none ∧
        (after.quarantines.lookup n).isSome)
      (quarantineInvocation env n projectData) reports := by
  refine wp_bind.mpr (wp_read.mpr ⟨h, ?_⟩)
  dsimp only [id]
  cases hlookup : reports.invocations.lookup n with
  | none =>
    dsimp only
    split
    · exact ⟨h, h⟩
    · rename_i quarantine hquarantine
      exact ⟨h, h, hlookup, by simp [hquarantine]⟩
  | some directory =>
    have hlive : (reports.invocations.lookup n).isSome := by simp [hlookup]
    dsimp only
    split_ifs
    · exact ⟨h, h⟩
    · exact keeps_rename hn h hlive
    · refine Keeps.bind (keeps_writeCampaignJson (fun _ => rfl) hn h hlive) ?_
      intro after hafter hlive
      exact keeps_rename hn hafter hlive
    · refine (keeps_require h).bind ?_
      rintro _ - ⟨rfl, -⟩
      have hcampaigns : ∀ campaign ∈ directory.invocation.campaigns,
          campaign ∈ start.campaigns n := by
        intro campaign hcampaign
        apply h.campaigns
        simpa [Reports.campaigns, hlookup] using hcampaign
      refine Keeps.bind (keeps_forEach (fun rest after => (after.invocations.lookup n).isSome ∧
        ∀ campaign ∈ rest, campaign ∈ start.campaigns n) h ⟨hlive, hcampaigns⟩ ?_) ?_
      · rintro campaign rest after hafter ⟨hlive, hrest⟩
        refine wp_mono (keeps_recoverCampaign hn (hrest campaign (by simp)) hafter hlive) ?_
          fun _ _ _ h => h
        intro _ _ _ hlast
        exact ⟨hlast.1, hlast.2, fun other hother => hrest other (by simp [hother])⟩
      · rintro after hafter ⟨hlive, -⟩
        refine Keeps.bind (keeps_writeCampaignJson (fun _ => rfl) hn hafter hlive) ?_
        intro after hafter hlive
        exact keeps_rename hn hafter hlive

theorem lookup_updateQuarantine (change : Quarantine → Quarantine) :
    (updateQuarantine n change reports).quarantines.lookup n =
      (reports.quarantines.lookup n).map change := by
  simp [updateQuarantine, Dict.lookup_alter]

/-- Emptying the quarantine of an invocation whose directory is gone leaves its tombstone. -/
theorem keeps_removeQuarantine (hn : selected n) (h : Frame selected start reports)
    (hgone : reports.invocations.lookup n = none)
    (hquarantine : (reports.quarantines.lookup n).isSome) :
    Keeps selected start (·.completedTombstone n = true) (removeQuarantine env n) reports := by
  obtain ⟨quarantine, hheld⟩ := Option.isSome_iff_exists.mp hquarantine
  refine wp_bind.mpr (wp_read.mpr ⟨h, ?_⟩)
  rw [hheld]
  dsimp only
  split_ifs with hempty
  · refine ⟨h, h, ?_⟩
    simpa [Reports.completedTombstone, hgone, hheld] using hempty
  · exact ⟨h, h⟩
  · refine (keeps_forEach (fun rest after => after.invocations.lookup n = none ∧
      ∃ left, after.quarantines.lookup n = some left ∧ left.children.Perm rest) h
      ⟨hgone, quarantine, hheld, (env.listing_perm quarantine.children).symm⟩ ?_).bind ?_
    · rintro child rest after hafter ⟨hgone, left, hleft, hperm⟩
      have hremoved : Frame selected start (updateQuarantine n (·.remove child) after) :=
        hafter.trans (frame_updateQuarantine hn) fun _ h => h
      refine wp_update.mpr ⟨hafter, hremoved, hremoved, hgone, left.remove child, ?_,
        Quarantine.children_remove hperm⟩
      rw [lookup_updateQuarantine, hleft]
      rfl
    · rintro after hafter ⟨hgone, left, hleft, hperm⟩
      have hremoved : Frame selected start (updateQuarantine n (fun quarantine =>
          { quarantine with pruneJournal := none }) after) :=
        hafter.trans (frame_updateQuarantine hn) fun _ h => h
      obtain ⟨hbatch, hothers⟩ := Quarantine.children_eq_nil.mp (List.perm_nil.mp hperm)
      have hgone' : (updateQuarantine n (fun quarantine =>
          { quarantine with pruneJournal := none }) after).invocations.lookup n = none := hgone
      refine wp_update.mpr ⟨hafter, hremoved, hremoved, ?_⟩
      simp [Reports.completedTombstone, hgone', lookup_updateQuarantine, hleft, Quarantine.empty,
        hbatch, hothers]

/-- Pruning one selected invocation that returns leaves its tombstone. -/
theorem keeps_pruneSelected (hn : selected n) (h : Frame selected start reports) :
    Keeps selected start (·.completedTombstone n = true) (pruneSelected env n projectData)
      reports :=
  (keeps_quarantineInvocation hn h).bind fun _ hafter hquarantined =>
    keeps_removeQuarantine hn hafter hquarantined.1 hquarantined.2

/-! ## An invocation with its dependents -/

/-- A program started later than the frame's first state. -/
theorem Keeps.rebase {also : Nat → Prop} {prog : Prog Reports String Unit}
    (h : Frame selected start reports) (hprog : Keeps also reports post prog reports)
    (halso : ∀ m, also m → selected m) :
    Keeps selected start (fun after => Frame also reports after ∧ post after) prog reports :=
  wp_weaken hprog (fun _ hcrash => h.trans hcrash halso)
    (fun _ _ _ hpost => ⟨h.trans hpost.1 halso, hpost⟩) fun _ _ _ hrefused => h.trans hrefused halso

theorem keeps_ensurePruneBatch {members : List Nat} (hn : selected n)
    (h : Frame selected start reports) :
    Keeps selected start (fun _ => True) (ensurePruneBatch n members) reports := by
  refine wp_bind.mpr (wp_require.mpr ⟨h, ?_⟩)
  split
  · rename_i batch hbatch
    cases batch with
    | some batch => exact ⟨h, h, trivial⟩
    | none =>
      refine (keeps_require h).bind ?_
      rintro after hafter ⟨heq, hcheck⟩
      have hlive : (after.invocations.lookup n).isSome := by
        split_ifs at hcheck with hlive
        rwa [heq]
      exact wp_mono (keeps_writeCampaignJson (fun _ => rfl) hn hafter hlive)
        (fun _ _ _ hpost => ⟨hpost.1, trivial⟩) fun _ _ _ h => h
  · exact h

/-- The invocations a batch call selects. -/
def Selected (n : Nat) (dependencies : List DependentInvocation) (m : Nat) : Prop :=
  m = n ∨ m ∈ dependencies.map (·.path)

/-- A batch call that returns has locked every member and leaves all of them pruned. -/
theorem keeps_pruneInvocationBatch (dependencies : List DependentInvocation) :
    Keeps (Selected n dependencies) reports
      (fun after => (∀ m, Selected n dependencies m → after.completedTombstone m = true) ∧
        ∀ item ∈ dependencies, lockMember n item reports = .ok ())
      (pruneInvocationBatch env n dependencies projectData) reports := by
  have hrefl : Frame (Selected n dependencies) reports reports := Frame.refl reports
  unfold pruneInvocationBatch
  refine wp_bind.mpr (wp_mono (wp_forEach_require hrefl fun _ => hrefl) ?_ fun _ _ _ h => h)
  rintro - locked - ⟨hlocked, hlocks⟩
  rw [hlocked]
  refine (keeps_require hrefl).bind ?_
  rintro verified - ⟨hverified, -⟩
  rw [hverified]
  refine wp_bind.mpr (wp_mono (wp_forEach_require hrefl fun _ => hrefl) ?_ fun _ _ _ h => h)
  rintro - checked - ⟨hchecked, -⟩
  rw [hchecked]
  refine Keeps.bind (keeps_ensurePruneBatch (.inl rfl) hrefl) ?_
  rintro journalled hjournalled -
  refine Keeps.bind (keeps_forEach (fun rest after =>
    (∀ m ∈ dependencies.map (·.path), m ∈ rest ∨ after.completedTombstone m = true) ∧
      ∀ m ∈ rest, m ∈ dependencies.map (·.path)) hjournalled
    ⟨fun m hm => .inl hm, fun m hm => hm⟩ ?_) ?_
  · rintro member rest after hafter ⟨hdone, hrest⟩
    have hmember := hrest member (by simp)
    have hone : Keeps (· = member) after (·.completedTombstone member = true)
        (pruneSelected env member projectData) after :=
      keeps_pruneSelected rfl (Frame.refl after)
    refine wp_mono (hone.rebase hafter fun m hm => .inr (hm ▸ hmember)) ?_ fun _ _ _ h => h
    rintro - last - ⟨hframe, hown, htombstone⟩
    refine ⟨hframe, ?_, fun m hm => hrest m (by simp [hm])⟩
    intro m hm
    by_cases heq : m = member
    · exact .inr (heq ▸ htombstone)
    · rcases hdone m hm with hleft | hpruned
      · exact .inl ((List.mem_cons.mp hleft).resolve_left heq)
      · exact .inr ((hown.completedTombstone heq).trans hpruned)
  · rintro emptied hemptied ⟨hdone, -⟩
    have hpruned : ∀ m ∈ dependencies.map (·.path), emptied.completedTombstone m = true := by
      intro m hm
      simpa using hdone m hm
    refine (keeps_require hemptied).bind ?_
    rintro remaining - ⟨hremaining, -⟩
    rw [hremaining]
    have hone : Keeps (· = n) emptied (·.completedTombstone n = true)
        (pruneSelected env n projectData) emptied :=
      keeps_pruneSelected rfl (Frame.refl emptied)
    refine wp_mono (hone.rebase hemptied fun m hm => .inl hm) ?_ fun _ _ _ h => h
    rintro - last - ⟨hframe, hown, htombstone⟩
    refine ⟨hframe, ?_, hlocks⟩
    rintro m (rfl | hm)
    · exact htombstone
    · by_cases heq : m = n
      · exact heq ▸ htombstone
      · exact (hown.completedTombstone heq).trans (hpruned m hm)

end Booley.Retention
