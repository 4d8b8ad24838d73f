import Booley.JobSlots.LeaseSteps

/-!
# The lease over whole runs

A claim on an entry stands, and an entry is removed for a reason, in whatever order the processes
take their steps.
-/
namespace Booley.JobSlots

open Booley.Lib

variable {owner : Nat} {world : LeaseWorld} {store : LeaseStore} {a b : Nat} {yes : Bool}
variable {work : LeaseWork} {token : LeaseToken} {name : EntryState}

/-! ## The invariant of a run -/

variable (owner) in
/-- The entry is whole, every process is where it may rely on what it needs, and those about to
replace the file mean one name of it. -/
structure LeaseInv (world : LeaseWorld) : Prop where
  whole : world.store.Whole
  fits : ∀ a, (world.work a).Fits owner world.store a
  together : ∀ a b rewrite other token copy, world.work a = .replacing rewrite token →
    world.work b = .replacing other copy → token.name = copy.name

theorem EntryState.eq_or_other (name asked : EntryState) : asked = name ∨ asked = name.other := by
  cases name <;> cases asked <;> decide

theorem put_other (name : EntryState) (file : Option LeasePayload) :
    (store.put name file).files name.other = store.files name.other := by
  simp [LeaseStore.put, (EntryState.ne_other name).symm]

theorem put_none_of_none {asked : EntryState} (h : store.files asked = none) :
    (store.put name none).files asked = none := by
  simp only [LeaseStore.put]
  split
  · rfl
  · exact h

section Replace
variable {rewrite : Rewrite}

/-- The replaced file is cancelling exactly when a claim was written. -/
theorem replaced_state (hfits : (LeaseWork.replacing rewrite token).Fits owner store a)
    (hcalm : rewrite = .promote → store.claimed = false) :
    token.leaseState = .cancelling ↔ (store.claimed || rewrite.claims) = true := by
  cases rewrite with
  | renew => simp [hfits.1.2.1, hfits.1.2.2.2, Rewrite.claims]
  | claim claimant => simp [hfits.1.2.1, Rewrite.claims]
  | promote => simp [hfits.1.2.2, hcalm rfl, Rewrite.claims]

theorem replaced_other (hfits : (LeaseWork.replacing rewrite token).Fits owner store a) :
    store.files token.name.other = none := by
  cases rewrite with
  | renew => exact hfits.2
  | claim claimant => exact hfits.2
  | promote => exact hfits.2

theorem whole_replaced (hfits : (LeaseWork.replacing rewrite token).Fits owner store a)
    (hcalm : rewrite = .promote → store.claimed = false) :
    LeaseStore.Whole { store.put token.name (some token.toLeasePayload) with
      claimed := store.claimed || rewrite.claims } := by
  have hother := replaced_other hfits
  have hfile : ∀ name payload, (store.put token.name (some token.toLeasePayload)).files name =
      some payload → name = token.name ∧ payload = token.toLeasePayload := by
    intro name payload hfile
    rcases EntryState.eq_or_other token.name name with rfl | rfl
    · simp only [LeaseStore.put, if_true, Option.some.injEq] at hfile
      exact ⟨rfl, hfile.symm⟩
    · rw [put_other, hother] at hfile
      cases hfile
  constructor
  · intro name payload hname
    obtain ⟨rfl, -⟩ := hfile name payload hname
    exact (put_other _ _).trans hother
  · intro name payload hname
    obtain ⟨-, rfl⟩ := hfile name payload hname
    exact replaced_state hfits hcalm

end Replace

theorem LeaseStore.Whole.congr {after : LeaseStore} (h : store.Whole)
    (hfiles : after.files = store.files) (hclaimed : after.claimed = store.claimed) :
    after.Whole := by
  constructor
  · rw [hfiles]
    exact h.one
  · rw [hfiles, hclaimed]
    exact h.state

theorem LeaseStore.Whole.put_none (h : store.Whole) (name : EntryState) :
    (store.put name none).Whole := by
  have hkept : ∀ asked payload, (store.put name none).files asked = some payload →
      store.files asked = some payload := by
    intro asked payload hfile
    simp only [LeaseStore.put] at hfile
    split at hfile
    · cases hfile
    · exact hfile
  constructor
  · intro asked payload hfile
    exact put_none_of_none (h.one asked payload (hkept asked payload hfile))
  · intro asked payload hfile
    exact h.state asked payload (hkept asked payload hfile)

theorem rename_waiter : store.rename.files .waiter = none := by
  simp [LeaseStore.rename, LeaseStore.put]

theorem rename_holder : store.rename.files .holder = store.files .waiter := by
  simp [LeaseStore.rename, LeaseStore.put]

theorem LeaseStore.Whole.rename (h : store.Whole) : store.rename.Whole := by
  constructor
  · intro name payload hfile
    cases name with
    | holder => exact rename_waiter
    | waiter =>
      rw [rename_waiter] at hfile
      cases hfile
  · intro name payload hfile
    cases name with
    | holder =>
      rw [rename_holder] at hfile
      exact h.state .waiter payload hfile
    | waiter =>
      rw [rename_waiter] at hfile
      cases hfile

/-- The step of one process takes from another one nothing that it relies on. -/
theorem leavesAlone {after : LeaseStore} (hinv : LeaseInv owner world) (hne : b ≠ a)
    (hcalm : (world.work a).promoting = true →
      world.store.claimed = false ∧ ∀ c, (world.work c).claimWriting = false)
    (heffect : LeaseEffect world.store a (world.work a) after) :
    LeavesAlone (world.work b) b world.store after := by
  have hfits := hinv.fits a
  generalize hwork : world.work a = work at hfits hcalm heffect
  cases heffect with
  | quiet hfiles hgate hclaimed hterminal hrecovered =>
    exact {
      gate := fun h => hgate.trans h
      claimed := fun h => hclaimed.trans h
      unclaimed := fun _ h => hclaimed.trans h
      terminal := hterminal
      recovered := hrecovered
      missing := fun _ _ name h => by rw [hfiles, h]
      other := fun _ _ _ h => by rw [hfiles, h] }
  | enter hfree =>
    have hnot : ¬ world.store.gate = some b := by simp [hfree]
    exact {
      gate := fun h => absurd h hnot
      claimed := id
      unclaimed := fun _ h => h
      terminal := id
      recovered := id
      missing := fun _ _ _ h => h
      other := fun _ _ _ h => h }
  | leave next =>
    have hgate : world.store.gate = some a := by
      cases next with
      | done => exact hfits
      | remove name => exact hfits.1
      | recover token => exact hfits.1
    have hnot : ¬ world.store.gate = some b := fun h =>
      hne (Option.some.inj (h.symm.trans hgate))
    exact {
      gate := fun h => absurd h hnot
      claimed := id
      unclaimed := fun _ h => h
      terminal := id
      recovered := id
      missing := fun _ _ _ h => h
      other := fun _ _ _ h => h }
  | replace rewrite token =>
    -- A process in the gate sees at most a promotion, which claims nothing.
    have hpromote : world.store.gate = some b → rewrite = .promote := by
      intro hgate
      cases rewrite with
      | renew => exact absurd (Option.some.inj (hgate.symm.trans hfits.1.1)) hne
      | claim claimant => exact absurd (Option.some.inj (hgate.symm.trans hfits.1.1)) hne
      | promote => rfl
    refine {
      gate := id
      claimed := fun h => by simp [h]
      unclaimed := fun hgate h => by simp [h, hpromote hgate, Rewrite.claims]
      terminal := id
      recovered := id
      missing := fun hgate hclaimed name _ => ?_
      other := fun other copy hcopy hnone => ?_ }
    · obtain rfl := hpromote hgate
      simp [(hcalm rfl).1, Rewrite.claims] at hclaimed
    · rw [← hinv.together a b rewrite other token copy hwork hcopy] at hnone ⊢
      exact (put_other _ _).trans hnone
  | rename hwaiter =>
    obtain ⟨hunclaimed, hnone⟩ := hcalm rfl
    refine {
      gate := id
      claimed := id
      unclaimed := fun _ h => h
      terminal := id
      recovered := id
      missing := fun _ hclaimed _ _ => ?_
      other := fun other copy hcopy hfree => ?_ }
    · exact absurd (hunclaimed.symm.trans hclaimed) (by decide)
    · have hcopyFits := hinv.fits b
      rw [hcopy] at hcopyFits
      have hholder : copy.name = .holder := by
        cases other with
        | renew => exact hcopyFits.1.2.2.1
        | claim claimant =>
          have hwriting := hnone b
          rw [hcopy] at hwriting
          cases hwriting
        | promote => exact absurd (hcopyFits.1.1.trans hfits.symm) hne
      rw [hholder]
      exact rename_waiter
  | unlink hremoves =>
    exact {
      gate := id
      claimed := id
      unclaimed := fun _ h => h
      terminal := id
      recovered := id
      missing := fun _ _ _ h => put_none_of_none h
      other := fun _ _ _ h => put_none_of_none h }

theorem whole_step {after : LeaseStore} (hinv : LeaseInv owner world)
    (hcalm : (world.work a).promoting = true →
      world.store.claimed = false ∧ ∀ c, (world.work c).claimWriting = false)
    (heffect : LeaseEffect world.store a (world.work a) after) : after.Whole := by
  have hfits := hinv.fits a
  generalize hwork : world.work a = work at hfits hcalm heffect
  cases heffect with
  | quiet hfiles hgate hclaimed hterminal hrecovered => exact hinv.whole.congr hfiles hclaimed
  | enter hfree => exact hinv.whole.congr rfl rfl
  | leave next => exact hinv.whole.congr rfl rfl
  | replace rewrite token =>
    refine whole_replaced hfits ?_
    rintro rfl
    exact (hcalm rfl).1
  | rename hwaiter => exact hinv.whole.rename
  | unlink hremoves => exact hinv.whole.put_none _

theorem setWork_same (world : LeaseWorld) (a : Nat) (work : LeaseWork) :
    (world.setWork a work).work a = work := if_pos rfl

theorem setWork_other {world : LeaseWorld} (h : b ≠ a) (work : LeaseWork) :
    (world.setWork a work).work b = world.work b := if_neg h

/-- A process that starts something else is not about to replace the file. -/
theorem inv_setWork {world : LeaseWorld} (hinv : LeaseInv owner world)
    (hfits : work.Fits owner world.store a)
    (hnot : ∀ rewrite token, work ≠ .replacing rewrite token) :
    LeaseInv owner (world.setWork a work) := by
  refine ⟨hinv.whole, fun b => ?_, fun b c rewrite other token copy hb hc => ?_⟩
  · by_cases hne : b = a
    · subst hne
      rw [setWork_same]
      exact hfits
    · rw [setWork_other hne]
      exact hinv.fits b
  · by_cases hb' : b = a
    · subst hb'
      rw [setWork_same] at hb
      exact absurd hb (hnot rewrite token)
    · by_cases hc' : c = a
      · subst hc'
        rw [setWork_same] at hc
        exact absurd hc (hnot other copy)
      · rw [setWork_other hb'] at hb
        rw [setWork_other hc'] at hc
        exact hinv.together b c rewrite other token copy hb hc

theorem begin_fits (call : LeaseCall) : (call.begin owner a).Fits owner store a := by
  cases call with
  | renew token => trivial
  | promote leaseId generation =>
    simp only [LeaseCall.begin]
    split
    · rename_i howner
      exact ⟨howner, rfl, rfl⟩
    · trivial
  | release token => trivial
  | claim token =>
    exact beginRecovery_fits (fun _ => .inl rfl) fun h => by cases h
  | reap name => trivial

theorem begin_ne_replacing (call : LeaseCall) (rewrite : Rewrite) (token : LeaseToken) :
    call.begin owner a ≠ .replacing rewrite token := by
  intro h
  cases call with
  | promote leaseId generation =>
    simp only [LeaseCall.begin] at h
    split at h <;> cases h
  | claim copy =>
    simp only [LeaseCall.begin, beginRecovery] at h
    (repeat' split at h) <;> cases h
  | renew copy => cases h
  | release copy => cases h
  | reap name => cases h

/-- A process that sees the entry under a name is with those that are about to replace it. -/
theorem eq_name_of_seen {other : Rewrite} {copy : LeaseToken} {payload : LeasePayload}
    (hinv : LeaseInv owner world) (hseen : world.store.files name = some payload)
    (hwork : world.work b = .replacing other copy) : name = copy.name := by
  rcases EntryState.eq_or_other copy.name name with heq | heq
  · exact heq
  · have hfits := hinv.fits b
    rw [hwork] at hfits
    rw [heq, replaced_other hfits] at hseen
    cases hseen

theorem together_run (hinv : LeaseInv owner world) {b c : Nat} {rewrite other : Rewrite}
    {token copy : LeaseToken}
    (hb : (leaseStep owner world (.run a yes)).work b = .replacing rewrite token)
    (hc : (leaseStep owner world (.run a yes)).work c = .replacing other copy) :
    token.name = copy.name := by
  simp only [leaseStep] at hb hc
  by_cases hb' : b = a
  · subst hb'
    rw [setWork_same] at hb
    by_cases hc' : c = b
    · subst hc'
      rw [setWork_same, hb] at hc
      cases hc
      rfl
    · rw [setWork_other hc'] at hc
      obtain ⟨-, payload, hseen⟩ := advanceLease_replacing hb
      exact eq_name_of_seen hinv hseen hc
  · rw [setWork_other hb'] at hb
    by_cases hc' : c = a
    · subst hc'
      rw [setWork_same] at hc
      obtain ⟨-, payload, hseen⟩ := advanceLease_replacing hc
      exact (eq_name_of_seen hinv hseen hb).symm
    · rw [setWork_other hc'] at hc
      exact hinv.together b c rewrite other token copy hb hc

theorem inv_step {event : LeaseEvent} (hinv : LeaseInv owner world)
    (hcalm : Undisturbed world event) : LeaseInv owner (leaseStep owner world event) := by
  cases event with
  | call a call =>
    simp only [leaseStep]
    split
    · exact inv_setWork hinv (begin_fits call) (begin_ne_replacing call)
    · exact hinv
  | crash a => exact inv_setWork hinv trivial fun _ _ h => by cases h
  | takeOver =>
    have hfree : ∀ b, world.store.gate = some b → world.work b = .stopped := hcalm
    refine ⟨hinv.whole.congr rfl rfl, fun b => ?_, hinv.together⟩
    by_cases hgate : world.store.gate = some b
    · have hstopped : world.work b = .stopped := hfree b hgate
      show (world.work b).Fits owner _ b
      rw [hstopped]
      trivial
    · refine LeavesAlone.fits ?_ (hinv.fits b)
      exact {
        gate := fun h => absurd h hgate
        claimed := id
        unclaimed := fun _ h => h
        terminal := id
        recovered := id
        missing := fun _ _ _ h => h
        other := fun _ _ _ h => h }
  | run a yes =>
    have heffect := advanceLease_effect world.store a yes (world.work a)
    have hown := advanceLease_fits yes hinv.whole (hinv.fits a)
    have hwhole := whole_step hinv hcalm heffect
    refine ⟨hwhole, fun b => ?_, fun b c rewrite other token copy hb hc => together_run hinv hb hc⟩
    by_cases hne : b = a
    · subst hne
      simp only [leaseStep, setWork_same]
      exact hown
    · simp only [leaseStep, setWork_other hne]
      exact (leavesAlone hinv hne hcalm heffect).fits (hinv.fits b)

theorem inv_submitted (owner : Nat) (leaseId : String) : LeaseInv owner (submitted leaseId) := by
  refine ⟨⟨?_, ?_⟩, fun a => trivial, fun a b rewrite other token copy h => by cases h⟩
  · intro name payload hfile
    cases name with
    | waiter => rfl
    | holder => cases hfile
  · intro name payload hfile
    cases name with
    | waiter =>
      cases hfile
      simp [submitted]
    | holder => cases hfile

theorem LeaseInv.keeps {later : LeaseWorld} (hinv : LeaseInv owner world)
    (h : LeaseReaches owner world later) : LeaseInv owner later := by
  refine Reaches.keeps h hinv fun state event next hstate hmeets hstep => ?_
  subst hstep
  exact inv_step hstate hmeets

/-! ## A claim stands -/

theorem claimed_effect {after : LeaseStore} (heffect : LeaseEffect store a work after)
    (h : store.claimed = true) : after.claimed = true := by
  cases heffect with
  | quiet hfiles hgate hclaimed hterminal hrecovered => exact hclaimed.trans h
  | replace rewrite token => simp [h]
  | enter hfree => exact h
  | leave next => exact h
  | rename hwaiter => exact h
  | unlink hremoves => exact h

theorem claimed_step {event : LeaseEvent} (h : world.store.claimed = true) :
    (leaseStep owner world event).store.claimed = true := by
  cases event with
  | call a call =>
    simp only [leaseStep]
    split <;> exact h
  | run a yes => exact claimed_effect (advanceLease_effect world.store a yes _) h
  | crash a => exact h
  | takeOver => exact h

theorem claimed_reaches {later : LeaseWorld} (h : LeaseReaches owner world later)
    (hclaimed : world.store.claimed = true) : later.store.claimed = true := by
  refine @Reaches.keeps _ _ _ _ _ _ (fun state : LeaseWorld => state.store.claimed = true) h
    hclaimed fun state event next hstate _ hstep => ?_
  subst hstep
  exact claimed_step hstate

/-! ## What a removal goes by -/

/-- The removing process could not read the entry. -/
def LeaseWork.unread : LeaseWork → Bool
  | .reaping _ .unread | .withdrawing _ .unread => true
  | _ => false

/-- The removing process is a release. -/
def LeaseWork.releases : LeaseWork → Bool
  | .withdrawing _ _ => true
  | _ => false

/-- Only an unlinked entry is under neither name. -/
theorem removes_of_gone {after : LeaseStore} {payload : LeasePayload}
    (heffect : LeaseEffect store a work after) (hfile : store.files name = some payload)
    (hgone : ∀ asked, after.files asked = none) : ∃ removed, work.removes = some removed := by
  cases heffect with
  | quiet hfiles hgate hclaimed hterminal hrecovered =>
    have hnone := hgone name
    rw [hfiles, hfile] at hnone
    cases hnone
  | enter hfree => exact absurd ((hgone name).symm.trans hfile) (by simp)
  | leave next => exact absurd ((hgone name).symm.trans hfile) (by simp)
  | replace rewrite token =>
    have hnone := hgone token.name
    simp [LeaseStore.put] at hnone
  | rename hwaiter =>
    have hnone := hgone .holder
    rw [rename_holder] at hnone
    rw [hnone] at hwaiter
    cases hwaiter
  | unlink hremoves => exact ⟨_, hremoves⟩

/-- A process that is about to unlink the entry could not read it, or found it claimed and its
execution over, or releases it and found it active. -/
theorem removal_of_fits {removed : EntryState} {payload : LeasePayload} (hwhole : store.Whole)
    (hfits : work.Fits owner store a) (hremoves : work.removes = some removed)
    (hfile : store.files name = some payload) (hname : name = removed) :
    work.unread = true ∨
      payload.leaseState = .cancelling ∧ (store.foundTerminal = true ∨ store.recovered = true) ∨
      payload.leaseState = .active ∧ work.releases = true := by
  subst hname
  have hstate := hwhole.state name payload hfile
  have hactive : store.claimed = false → payload.leaseState = .active := by
    intro hclaimed
    cases hpayload : payload.leaseState with
    | active => rfl
    | cancelling =>
      have hnow := hstate.mp hpayload
      rw [hclaimed] at hnow
      cases hnow
  cases work with
  | reaping asked removal =>
    cases removal with
    | executionOver => exact .inr (.inl ⟨hstate.mpr hfits.1, hfits.2⟩)
    | unread => exact .inl rfl
    | active => exact hfits.elim
    | missing => exact hfits.elim
  | withdrawing asked removal =>
    obtain rfl := Option.some.inj hremoves
    cases removal with
    | unread => exact .inl rfl
    | active => exact .inr (.inr ⟨hactive hfits.2, rfl⟩)
    | executionOver =>
      cases hpayload : payload.leaseState with
      | active => exact .inr (.inr ⟨rfl, rfl⟩)
      | cancelling => exact .inr (.inl ⟨rfl, .inl hfits.2⟩)
    | missing =>
      cases hclaimed : store.claimed with
      | false => exact .inr (.inr ⟨hactive hclaimed, rfl⟩)
      | true =>
        rw [hfits.2 hclaimed] at hfile
        cases hfile
  | _ => cases hremoves

/-- The removed name is the one that the entry has. -/
theorem eq_removed {after : LeaseStore} {removed : EntryState} {payload : LeasePayload}
    (heffect : LeaseEffect store a work after) (hremoves : work.removes = some removed)
    (hfile : store.files name = some payload) (hgone : ∀ asked, after.files asked = none) :
    name = removed := by
  have hnone := hgone name
  cases heffect with
  | unlink hother =>
    obtain rfl := Option.some.inj (hremoves.symm.trans hother)
    by_contra hne
    simp [LeaseStore.put, hne, hfile] at hnone
  | quiet hfiles hgate hclaimed hterminal hrecovered =>
    rw [hfiles, hfile] at hnone
    cases hnone
  | enter hfree => exact absurd (hnone.symm.trans hfile) (by simp)
  | leave next => cases hremoves
  | replace rewrite token => cases hremoves
  | rename hwaiter => cases hremoves

/-- On every run from the submission of an entry that is linked to an execution, in which no gate
is robbed and no promotion meets a claim: once the file says that the entry is claimed no step
makes it active again, and the step that removes the entry removes a claimed one whose execution
was found over or recovered, or is an owner's release of an active one, or could not read it. -/
theorem lease_state_and_removal_kept {leaseId : String} {later : LeaseWorld}
    (hreached : LeaseReaches owner (submitted leaseId) world)
    (hlater : LeaseReaches owner world later) :
    (∀ claimed payload asked now, world.store.files claimed = some payload →
      payload.leaseState = .cancelling → later.store.files asked = some now →
      now.leaseState = .cancelling) ∧
    ∀ event held payload, Undisturbed later event → later.store.files held = some payload →
      (∀ asked, (leaseStep owner later event).store.files asked = none) →
      ∃ a, event = .run a true ∧
        ((later.work a).unread = true ∨
          payload.leaseState = .cancelling ∧
            (later.store.foundTerminal = true ∨ later.store.recovered = true) ∨
          payload.leaseState = .active ∧ (later.work a).releases = true) := by
  have hinv := (inv_submitted owner leaseId).keeps hreached
  have hinvLater := hinv.keeps hlater
  constructor
  · intro claimed payload asked now hfile hstate hnow
    have hclaimed := (hinv.whole.state claimed payload hfile).mp hstate
    exact (hinvLater.whole.state asked now hnow).mpr (claimed_reaches hlater hclaimed)
  · intro event held payload hcalm hfile hgone
    cases event with
    | run a yes =>
      have heffect := advanceLease_effect later.store a yes (later.work a)
      obtain ⟨removed, hremoves⟩ := removes_of_gone heffect hfile hgone
      have hname := eq_removed heffect hremoves hfile hgone
      refine ⟨a, ?_, removal_of_fits hinvLater.whole (hinvLater.fits a) hremoves hfile hname⟩
      cases yes with
      | true => rfl
      | false =>
        have hkept : (advanceLease a false later.store (later.work a)).1 = later.store := by
          cases hwork : later.work a with
          | reaping asked removal => rfl
          | withdrawing asked removal => rfl
          | _ =>
            rw [hwork] at hremoves
            cases hremoves
        have hnone := hgone held
        simp only [leaseStep, hkept, hfile] at hnone
        cases hnone
    | call a call =>
      have hnone := hgone held
      simp only [leaseStep] at hnone
      split at hnone
      · exact absurd (hnone.symm.trans hfile) (by simp)
      · exact absurd (hnone.symm.trans hfile) (by simp)
    | crash a => exact absurd ((hgone held).symm.trans hfile) (by simp)
    | takeOver => exact absurd ((hgone held).symm.trans hfile) (by simp)

/-! ## Runs on one entry -/

/-- The state that the entry's file says under its two names. -/
def leaseStates (world : LeaseWorld) : Option LeaseState × Option LeaseState :=
  ((world.store.files .waiter).map LeasePayload.leaseState,
    (world.store.files .holder).map LeasePayload.leaseState)

def leaseRun (events : List LeaseEvent) : LeaseWorld :=
  events.foldl (leaseStep 0) (submitted "a")

/-- A step that may be taken in any world: no gate is taken over and nothing is promoted. -/
def unpromoted (world : LeaseWorld) : LeaseEvent → Bool
  | .takeOver => false
  | .run a _ => !(world.work a).promoting
  | _ => true

theorem undisturbed_of_unpromoted (world : LeaseWorld) (event : LeaseEvent)
    (h : unpromoted world event = true) : Undisturbed world event := by
  cases event with
  | call a call => trivial
  | crash a => trivial
  | takeOver => cases h
  | run a yes =>
    intro hpromoting
    simp [unpromoted, hpromoting] at h

/-- A reap that finds the owner gone claims the entry and recovers its execution. -/
def reapOfStale : List LeaseEvent :=
  [.call 1 (.reap .waiter), .run 1 true, .run 1 false, .run 1 true, .run 1 true, .run 1 true,
    .run 1 true, .run 1 true, .run 1 true, .run 1 true]

theorem reaches_reapOfStale : LeaseReaches 0 (submitted "a") (leaseRun reapOfStale) :=
  Reaches.foldl unpromoted undisturbed_of_unpromoted .start (by decide)

theorem lease_kept_by_reapOfStale :
    (∀ claimed payload asked now, (leaseRun reapOfStale).store.files claimed = some payload →
      payload.leaseState = .cancelling → (leaseRun reapOfStale).store.files asked = some now →
      now.leaseState = .cancelling) ∧
    ∀ event held payload, Undisturbed (leaseRun reapOfStale) event →
      (leaseRun reapOfStale).store.files held = some payload →
      (∀ asked, (leaseStep 0 (leaseRun reapOfStale) event).store.files asked = none) →
      ∃ a, event = .run a true ∧
        (((leaseRun reapOfStale).work a).unread = true ∨
          payload.leaseState = .cancelling ∧
            ((leaseRun reapOfStale).store.foundTerminal = true ∨
              (leaseRun reapOfStale).store.recovered = true) ∨
          payload.leaseState = .active ∧ ((leaseRun reapOfStale).work a).releases = true) :=
  lease_state_and_removal_kept reaches_reapOfStale .start

/-- The owner's copy. -/
def ownCopy (name : EntryState) : LeaseToken := ⟨⟨"a", .active, 0⟩, name⟩

/-- The owner has seen its entry and is about to stamp it; a reap finds the execution terminal and
claims the entry. -/
def claimBeforeStamp : List LeaseEvent :=
  [.call 0 (.promote "a" 0), .run 0 true, .call 1 (.reap .waiter), .run 1 true, .run 1 true,
    .run 1 true, .run 1 true, .run 1 true, .run 1 true]

/-- The owner is about to write the renewal of its promoted entry when its gate is taken over, and
another process claims the entry. -/
def claimBeforeRenewal : List LeaseEvent :=
  [.call 0 (.promote "a" 0), .run 0 true, .run 0 true, .run 0 true,
    .call 0 (.renew (ownCopy .holder)), .run 0 true, .run 0 true, .run 0 true, .takeOver,
    .call 1 (.claim (ownCopy .holder)), .run 1 true, .run 1 true, .run 1 true, .run 1 true]

/-- An entry that another process has claimed, and that its owner cannot read when it releases. -/
def claimBeforeRelease : List LeaseEvent :=
  [.call 1 (.claim (ownCopy .waiter)), .run 1 true, .run 1 true, .run 1 true, .run 1 true,
    .run 1 true, .call 0 (.release (ownCopy .waiter)), .run 0 true, .run 0 false]

/-- A promotion and a renewal whose gate was robbed make a claimed entry active again; a release
removes an active entry, and one that it cannot read, of an execution that no process has found
over or recovered. -/
theorem lease_promise_broken :
    (leaseStates (leaseRun claimBeforeStamp) = (some .cancelling, none) ∧
      leaseStates (leaseRun (claimBeforeStamp ++ [.run 0 true])) = (some .active, none)) ∧
    (leaseStates (leaseRun claimBeforeRenewal) = (none, some .cancelling) ∧
      leaseStates (leaseRun (claimBeforeRenewal ++ [.run 0 true])) = (none, some .active)) ∧
    (leaseStates (leaseRun claimBeforeRelease) = (some .cancelling, none) ∧
      leaseStates (leaseRun (claimBeforeRelease ++ [.run 0 true])) = (none, none) ∧
      (leaseRun (claimBeforeRelease ++ [.run 0 true])).store.foundTerminal = false ∧
      (leaseRun (claimBeforeRelease ++ [.run 0 true])).store.recovered = false) ∧
    leaseStates (leaseRun [.call 0 (.release (ownCopy .waiter)), .run 0 true, .run 0 true,
      .run 0 true]) = (none, none) ∧
    (leaseRun [.call 0 (.release (ownCopy .waiter)), .run 0 true, .run 0 true,
      .run 0 true]).store.foundTerminal = false := by
  decide

end Booley.JobSlots
