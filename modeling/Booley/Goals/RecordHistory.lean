import Booley.Lib.History
import Booley.Goals.ApplyEffects

/-!
# The history of one Goal Record

Callers load the record, compute updates from the copies they hold and save them; approved
changes capture a record effect and drive it, at once or from a recovery long after. The two
write paths keep one history.
-/
namespace Booley.Goals

open Booley.Lib Booley.TestRuns

/-- One Goal Record, the copies its callers hold, and the record effects prepared for it. -/
structure RecordWorld where
  record : GoalRecord
  /-- What the record file held before, newest first. -/
  earlier : List GoalRecord
  loaded : List GoalRecord
  prepared : List FileEffect

/-- One step of one caller. The steps that write hold the record lock. -/
inductive RecordEvent where
  | load
  | save (copy : Nat) (update : GoalRecord.Update)
  | prepare (proposal : Proposal) (source : FreezeSource)
  | drive (effect : Nat) (symlinked : Bool)

namespace RecordWorld

/-- The world right after a record is created. -/
def created (record : GoalRecord) : RecordWorld where
  record := record
  earlier := []
  loaded := []
  prepared := []

def history (world : RecordWorld) : List GoalRecord := world.record :: world.earlier

/-- The record file holds another record. -/
def publish (world : RecordWorld) (record : GoalRecord) : RecordWorld :=
  { world with record := record, earlier := world.history }

/-- Save what a caller computes from a copy it holds; a refused save changes nothing. -/
def saveCopy (presentation : GoalSpec → String) (world : RecordWorld) (base : GoalRecord)
    (update : GoalRecord.Update) : RecordWorld :=
  match GoalRecord.save presentation world.record (base.updated update) with
  | .ok saved => { world.publish saved with loaded := world.loaded ++ [saved] }
  | .error _ => world

/-- Capture the record effect of a proposal that an active record can take. -/
def prepareEffect (recordFile : String) (world : RecordWorld) (proposal : Proposal)
    (source : FreezeSource) : RecordWorld :=
  if world.record.state ≠ .active ∨ conflict proposal world.record ≠ "" then world
  else match recordEffect recordFile world.record proposal source with
    | .ok effect => { world with prepared := world.prepared ++ [effect] }
    | .error _ => world

/-- Apply a captured effect to the record file, which may already hold its outcome. -/
def driveEffect (world : RecordWorld) (effect : FileEffect) (symlinked : Bool) : RecordWorld :=
  match effect.apply symlinked (some (.record world.record)) with
  | .ok (some (.record record)) =>
    if record = world.record then world else world.publish record
  | _ => world

def step (presentation : GoalSpec → String) (recordFile : String) (world : RecordWorld) :
    RecordEvent → RecordWorld
  | .load => { world with loaded := world.loaded ++ [world.record] }
  | .save copy update =>
    match world.loaded[copy]? with
    | some base => saveCopy presentation world base update
    | none => world
  | .prepare proposal source => prepareEffect recordFile world proposal source
  | .drive effect symlinked =>
    match world.prepared[effect]? with
    | some effect => driveEffect world effect symlinked
    | none => world

def run (presentation : GoalSpec → String) (recordFile : String) (world : RecordWorld)
    (events : List RecordEvent) : RecordWorld :=
  events.foldl (step presentation recordFile) world

end RecordWorld

/-- One record was computed from another and published as its next revision. -/
structure Supersedes (newer previous : GoalRecord) : Prop where
  revision : newer.revision = previous.revision + 1
  creation : newer.SameCreation previous
  floor : previous.publicationFloor ≤ newer.publicationFloor
  computed :
    (∃ update, newer = { previous.updated update with revision := previous.revision + 1 }) ∨
      ∃ proposal source, approvedRecord previous proposal source = .ok newer

theorem counts_supersedes : Counts GoalRecord.revision Supersedes :=
  fun _ _ h => h.revision

/-! ## What each write path publishes -/

theorem supersedes_of_approved {previous newer : GoalRecord} {proposal : Proposal}
    {source : FreezeSource} (h : approvedRecord previous proposal source = .ok newer) :
    Supersedes newer previous := by
  obtain ⟨-, -, resolutions, heq⟩ := approvedRecord_spec h
  refine ⟨by rw [heq], ?_, by rw [heq], .inr ⟨proposal, source, h⟩⟩
  rw [heq]
  exact ⟨rfl, rfl, rfl, rfl, rfl, rfl, rfl, rfl, rfl, rfl⟩

theorem supersedes_of_save {presentation : GoalSpec → String} {previous saved : GoalRecord}
    {update : GoalRecord.Update}
    (h : GoalRecord.save presentation previous (previous.updated update) = .ok saved) :
    Supersedes saved previous := by
  obtain ⟨rfl, -, -, hfloor, hcreation, -⟩ := GoalRecord.save_eq_ok h
  refine ⟨rfl, ?_, hfloor, .inl ⟨update, rfl⟩⟩
  exact ⟨hcreation.id, hcreation.worktree, hcreation.branch, hcreation.originalRef,
    hcreation.baseSha, hcreation.enteredAt, hcreation.pairedProjectBaseSha,
    hcreation.inputTopologyDigest, hcreation.inputPaths, hcreation.projectSnapshot⟩

/-- The Goal revision that names a specification for good. -/
def goalIdentity (goal : RecordedGoal) : String × Nat := (goal.spec.key, goal.specRevision)

/-- A record brings in at most the Goal of the change it was computed for. -/
theorem renews_of_supersedes {newer previous : GoalRecord} (h : Supersedes newer previous)
    (hstamped : ∀ goal ∈ previous.goals, goal.specRevision ≤ previous.revision) :
    Renews GoalRecord.revision GoalRecord.goals RecordedGoal.specRevision newer previous := by
  rcases h.computed with ⟨update, heq⟩ | ⟨proposal, source, happroved⟩
  · have hgoals : newer.goals = previous.goals := by
      rw [heq]
      exact GoalRecord.updated_goals previous update
    constructor
    · intro goal hgoal
      exact .inl (hgoals ▸ hgoal)
    · intro goal hgoal other hother hnew
      have hle := hstamped goal (hgoals ▸ hgoal)
      omega
  · obtain ⟨-, -, resolutions, heq⟩ := approvedRecord_spec happroved
    have hgoals : newer.goals = nextGoals previous proposal := by rw [heq]
    -- A Goal newer than the previous record can only be the approved one.
    have happrovedGoal : ∀ goal ∈ newer.goals, previous.revision < goal.specRevision →
        goal = ⟨proposal.after, previous.revision + 1⟩ := by
      intro goal hgoal hnew
      rcases mem_nextGoals (hgoals ▸ hgoal) with hheld | hreplaced
      · have hle := hstamped goal hheld
        omega
      · exact hreplaced
    constructor
    · intro goal hgoal
      rcases mem_nextGoals (hgoals ▸ hgoal) with hheld | rfl
      · exact .inl hheld
      · exact .inr (Nat.lt_succ_self _)
    · intro goal hgoal other hother hnew hotherNew
      rw [happrovedGoal goal hgoal hnew, happrovedGoal other hother hotherNew]

/-! ## The invariant -/

/-- What every world of a created record keeps. -/
structure RecordWorld.Coherent (world : RecordWorld) : Prop where
  chained : world.history.IsChain Supersedes
  stamped : Stamped GoalRecord.revision GoalRecord.goals RecordedGoal.specRevision world.history
  identified : Identified GoalRecord.goals goalIdentity world.history
  loaded : ∀ record ∈ world.loaded, record ∈ world.history
  prepared : ∀ effect ∈ world.prepared, ∃ before after proposal source,
    before ∈ world.history ∧ effect.before = some (.record before) ∧
      effect.after = some (.record after) ∧
      approvedRecord before proposal source = .ok after

namespace RecordWorld

theorem goals_stamped {record : GoalRecord} (h : record.defect = none) :
    ∀ goal ∈ record.goals, goal.specRevision ≤ record.revision := by
  intro goal hgoal
  by_contra hnewer
  have hany : (record.goals.any fun goal => record.revision < goal.specRevision) = true :=
    List.any_eq_true.mpr ⟨goal, hgoal, decide_eq_true (not_le.mp hnewer)⟩
  simp only [GoalRecord.defect, hany, if_true] at h
  split_ifs at h

theorem created_coherent {entered record published : GoalRecord} {goals : List GoalSpec}
    (hentered : GoalRecord.enter entered goals = .ok record)
    (hcreated : GoalRecord.create record = .ok published) : (created published).Coherent := by
  unfold GoalRecord.enter at hentered
  split_ifs at hentered with hrepeated
  unfold GoalRecord.create at hcreated
  split_ifs at hcreated with hstart
  obtain ⟨hdefect, hpublished⟩ := GoalRecord.validate_eq_ok.mp hcreated
  have hgoals : published.goals = goals.map fun goal => ⟨goal, 1⟩ := by
    rw [hpublished, ← Except.ok.inj hentered]
  have hnodup := GoalRecord.nodup_of_repeatedKeys (not_not.mp hrepeated)
  constructor
  · exact List.isChain_singleton published
  · intro version hversion
    obtain rfl := List.mem_singleton.mp hversion
    rw [← hpublished] at hdefect
    exact goals_stamped hdefect
  · intro left hleft right hright goal hgoal other hother hsame
    obtain rfl := List.mem_singleton.mp hleft
    obtain rfl := List.mem_singleton.mp hright
    rw [hgoals] at hgoal hother
    obtain ⟨spec, hspec, rfl⟩ := List.mem_map.mp hgoal
    obtain ⟨otherSpec, hotherSpec, rfl⟩ := List.mem_map.mp hother
    have hkey : spec.key = otherSpec.key := congrArg Prod.fst hsame
    rw [List.inj_on_of_nodup_map hnodup hspec hotherSpec hkey]
  · intro loaded hloaded
    cases hloaded
  · intro effect heffect
    cases heffect

/-- Only the record itself has its revision. -/
theorem eq_record_of_revision {world : RecordWorld} (hw : world.Coherent) {base : GoalRecord}
    (hbase : base ∈ world.history) (hrevision : base.revision = world.record.revision) :
    base = world.record :=
  eq_newest_of_revision counts_supersedes hw.chained hbase hrevision

theorem publish_coherent {world : RecordWorld} (hw : world.Coherent) {next : GoalRecord}
    (hnext : Supersedes next world.record) (hdefect : next.defect = none) :
    (world.publish next).Coherent := by
  have hheld : ∀ goal ∈ world.record.goals, goal.specRevision ≤ world.record.revision :=
    hw.stamped world.record (by simp [history])
  constructor
  · exact List.isChain_cons_cons.mpr ⟨hnext, hw.chained⟩
  · intro version hversion
    rcases List.mem_cons.mp hversion with rfl | hearlier
    · exact goals_stamped hdefect
    · exact hw.stamped version hearlier
  · exact identified_cons counts_supersedes hw.chained hw.stamped
      (fun _ _ hsame => congrArg Prod.snd hsame) hw.identified (renews_of_supersedes hnext hheld)
  · intro record hrecord
    exact List.mem_cons_of_mem next (hw.loaded record hrecord)
  · intro effect heffect
    obtain ⟨before, after, proposal, source, hmem, hrest⟩ := hw.prepared effect heffect
    exact ⟨before, after, proposal, source, List.mem_cons_of_mem next hmem, hrest⟩

theorem load_coherent {world : RecordWorld} (hw : world.Coherent) {record : GoalRecord}
    (hrecord : record ∈ world.history) :
    ({ world with loaded := world.loaded ++ [record] } : RecordWorld).Coherent := by
  refine ⟨hw.chained, hw.stamped, hw.identified, ?_, hw.prepared⟩
  intro copy hcopy
  rcases List.mem_append.mp hcopy with hheld | hnew
  · exact hw.loaded copy hheld
  · rw [List.mem_singleton.mp hnew]
    exact hrecord

theorem saveCopy_coherent {presentation : GoalSpec → String} {world : RecordWorld}
    (hw : world.Coherent) {base : GoalRecord} (hbase : base ∈ world.history)
    (update : GoalRecord.Update) : (saveCopy presentation world base update).Coherent := by
  unfold saveCopy
  cases hsave : GoalRecord.save presentation world.record (base.updated update) with
  | error refusal => exact hw
  | ok saved =>
    obtain ⟨-, hrevision, -, -, -, hdefect⟩ := GoalRecord.save_eq_ok hsave
    rw [GoalRecord.updated_revision] at hrevision
    -- The compare-and-swap: a copy at the record's revision is the record.
    obtain rfl := eq_record_of_revision hw hbase hrevision.symm
    have hpublished := publish_coherent hw (supersedes_of_save hsave) hdefect
    exact load_coherent hpublished (List.mem_cons_self)

theorem prepareEffect_coherent {recordFile : String} {world : RecordWorld}
    (hw : world.Coherent) (proposal : Proposal) (source : FreezeSource) :
    (prepareEffect recordFile world proposal source).Coherent := by
  unfold prepareEffect
  split_ifs with hrefused
  · exact hw
  · cases heffect : recordEffect recordFile world.record proposal source with
    | error refusal => exact hw
    | ok effect =>
      obtain ⟨next, hnext, heq⟩ := recordEffect_eq_ok heffect
      refine ⟨hw.chained, hw.stamped, hw.identified, hw.loaded, ?_⟩
      intro other hother
      rcases List.mem_append.mp hother with hheld | hnew
      · exact hw.prepared other hheld
      · obtain rfl := List.mem_singleton.mp hnew
        exact ⟨world.record, next, proposal, source, List.mem_cons_self, by rw [heq], by rw [heq],
          hnext⟩

theorem driveEffect_coherent {world : RecordWorld} (hw : world.Coherent) {effect : FileEffect}
    (heffect : effect ∈ world.prepared) (symlinked : Bool) :
    (driveEffect world effect symlinked).Coherent := by
  obtain ⟨before, after, proposal, source, -, hbefore, hafter, happroved⟩ :=
    hw.prepared effect heffect
  unfold driveEffect
  cases happly : effect.apply symlinked (some (.record world.record)) with
  | error refusal => exact hw
  | ok last =>
    obtain ⟨hheld, rfl⟩ := FileEffect.apply_eq_ok happly
    simp only [hafter]
    split_ifs with hdone
    · exact hw
    · -- The file does not hold the outcome, so it still holds the captured record.
      have hcaptured : before = world.record := by
        rw [hbefore, hafter] at hheld
        rcases hheld with hheld | hheld
        · exact (FileContent.record.inj (Option.some.inj hheld)).symm
        · exact absurd (FileContent.record.inj (Option.some.inj hheld)).symm hdone
      subst hcaptured
      exact publish_coherent hw (supersedes_of_approved happroved)
        (approvedRecord_spec happroved).2.1

theorem step_coherent {presentation : GoalSpec → String} {recordFile : String}
    {world : RecordWorld} (hw : world.Coherent) (event : RecordEvent) :
    (step presentation recordFile world event).Coherent := by
  cases event with
  | load => exact load_coherent hw List.mem_cons_self
  | save copy update =>
    simp only [step]
    cases hcopy : world.loaded[copy]? with
    | none => exact hw
    | some base =>
      exact saveCopy_coherent hw (hw.loaded base (List.mem_of_getElem? hcopy)) update
  | prepare proposal source => exact prepareEffect_coherent hw proposal source
  | drive effect symlinked =>
    simp only [step]
    cases heffect : world.prepared[effect]? with
    | none => exact hw
    | some effect => exact driveEffect_coherent hw (List.mem_of_getElem? heffect) symlinked

theorem run_coherent {presentation : GoalSpec → String} {recordFile : String}
    (events : List RecordEvent) {world : RecordWorld} (hw : world.Coherent) :
    (run presentation recordFile world events).Coherent := by
  induction events generalizing world with
  | nil => exact hw
  | cons event rest ih => exact ih (step_coherent hw event)

/-- A step leaves the record file alone or publishes one record over the one it holds. -/
theorem step_history (presentation : GoalSpec → String) (recordFile : String)
    (world : RecordWorld) (event : RecordEvent) :
    (step presentation recordFile world event).history = world.history ∨
      ∃ next, (step presentation recordFile world event).history = next :: world.history := by
  cases event with
  | load => exact .inl rfl
  | save copy update =>
    simp only [step]
    cases world.loaded[copy]? with
    | none => exact .inl rfl
    | some base =>
      simp only [saveCopy]
      cases GoalRecord.save presentation world.record (base.updated update) with
      | error refusal => exact .inl rfl
      | ok saved => exact .inr ⟨saved, rfl⟩
  | prepare proposal source =>
    simp only [step, prepareEffect]
    split_ifs with hrefused
    · exact .inl rfl
    · cases recordEffect recordFile world.record proposal source with
      | error refusal => exact .inl rfl
      | ok effect => exact .inl rfl
  | drive effect symlinked =>
    simp only [step]
    cases world.prepared[effect]? with
    | none => exact .inl rfl
    | some effect =>
      simp only [driveEffect]
      split
      · split_ifs with hdone
        · exact .inl rfl
        · exact .inr ⟨_, rfl⟩
      · exact .inl rfl

/-- What a step publishes in a coherent world was computed from the record it replaces. -/
theorem step_supersedes {presentation : GoalSpec → String} {recordFile : String}
    {world : RecordWorld} (hw : world.Coherent) (event : RecordEvent) :
    (step presentation recordFile world event).history = world.history ∨
      ∃ next, Supersedes next world.record ∧
        (step presentation recordFile world event).history = next :: world.history := by
  rcases step_history presentation recordFile world event with hsame | ⟨next, hnext⟩
  · exact .inl hsame
  · have hstep : (step presentation recordFile world event).Coherent := step_coherent hw event
    have hchained : (next :: world.history).IsChain Supersedes := hnext ▸ hstep.chained
    exact .inr ⟨next, (List.isChain_cons_cons.mp hchained).1, hnext⟩

end RecordWorld

/-- However the callers of one record interleave, each write is computed from the record it
replaces, and a Goal key with its revision names one specification for good. -/
theorem record_history {entered record published : GoalRecord} {goals : List GoalSpec}
    (hentered : GoalRecord.enter entered goals = .ok record)
    (hcreated : GoalRecord.create record = .ok published)
    (presentation : GoalSpec → String) (recordFile : String) (events : List RecordEvent) :
    let world := RecordWorld.run presentation recordFile (.created published) events
    world.history.IsChain Supersedes ∧
      (∀ event, (world.step presentation recordFile event).history = world.history ∨
        ∃ next, Supersedes next world.record ∧
          (world.step presentation recordFile event).history = next :: world.history) ∧
      ∀ left ∈ world.history, ∀ right ∈ world.history,
        ∀ goal ∈ left.goals, ∀ other ∈ right.goals,
          goal.spec.key = other.spec.key → goal.specRevision = other.specRevision →
          goal.spec = other.spec := by
  intro world
  have hw : world.Coherent :=
    RecordWorld.run_coherent events (RecordWorld.created_coherent hentered hcreated)
  refine ⟨hw.chained, RecordWorld.step_supersedes hw, ?_⟩
  intro left hleft right hright goal hgoal other hother hkey hrevision
  have hsame : goalIdentity goal = goalIdentity other := Prod.ext hkey hrevision
  exact congrArg RecordedGoal.spec
    (hw.identified left hleft right hright goal hgoal other hother hsame)

/-! ## One Goal relaxed while another caller saves -/

section Relaxed

def lintGoal (limit : Rat) : GoalSpec :=
  ⟨"lint_top", .lint, some "top", [("max", .number limit)], []⟩

def lintEntry : GoalRecord := .entering "goal-1" "main" ⟨"repository", "checkout"⟩ []

def lintCreated : GoalRecord :=
  { lintEntry with revision := 1, goals := [⟨lintGoal 0, 1⟩] }

def lintRelaxed : Proposal where
  id := "proposal-1"
  recordId := "goal-1"
  worktree := ⟨"repository", "checkout"⟩
  kind := .relax
  goalKey := "lint_top"
  before := some (lintGoal 0)
  after := lintGoal 2
  afterArg := none
  runtimeParams := ""
  rationale := "two known warnings"
  recordRevision := 2
  sessionKey := none
  createdAt := "2026-01-01T00:00:00Z"
  waiver := none

/-- A source that freezes no Test Runs. -/
def noTestRuns : FreezeSource where
  plans := ⟨fun target => .ok target, fun _ => .ok none⟩
  request := ⟨.change, "2026-01-01T00:00:00Z", fun _ _ _ => .ok [], ∅⟩
  presentation goal := goal.key

/-- The relaxed Goal is applied twice, and an update computed before it is refused. -/
def relaxedEvents : List RecordEvent :=
  [.load, .save 0 .activated, .load, .prepare lintRelaxed noTestRuns, .drive 0 false,
    .drive 0 false, .save 2 (.abandoned "2026-01-02T00:00:00Z" none "abandon-1")]

theorem relaxed_record_history :
    let world := RecordWorld.run GoalSpec.key "record.json" (.created lintCreated) relaxedEvents
    world.history.map (fun record => (record.revision, record.goals)) =
        [(3, [⟨lintGoal 2, 3⟩]), (2, [⟨lintGoal 0, 1⟩]), (1, [⟨lintGoal 0, 1⟩])] ∧
      world.history.IsChain Supersedes :=
  have hentered : GoalRecord.enter lintEntry [lintGoal 0] =
      .ok { lintEntry with goals := [⟨lintGoal 0, 1⟩] } := by decide
  have hcreated : GoalRecord.create { lintEntry with goals := [⟨lintGoal 0, 1⟩] } =
      .ok lintCreated := by decide
  ⟨by decide, (record_history hentered hcreated GoalSpec.key "record.json" relaxedEvents).1⟩

end Relaxed

end Booley.Goals
