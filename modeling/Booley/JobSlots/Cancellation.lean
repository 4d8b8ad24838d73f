import Booley.JobSlots.Presence

/-!
# Cancelled waiters

A cancel call that returned True has taken the only entry of its submission. While no replace
brings a file back, the submission never holds a slot and its acquire finds the claim lost.
-/
namespace Booley.JobSlots

open Booley.Lib

variable {c : JobClass} {world : World} {event : Event} {n : Nat}
variable {entry x : Entry}

/-- The submission has been told that it holds its slot, or is about to be. -/
def Phase.holds : Phase → Bool
  | .leaving _ .holding | .holding _ => true
  | _ => false

/-- Only a successful rename makes a holder. -/
theorem step_holds (h : ((step c world event).phase n).holds = true) :
    (world.phase n).holds = true ∨
      ∃ choice entry, event = .run n choice ∧ world.phase n = .stamped entry ∧
        entry ∈ world.dir ∧
          (step c world event).dir = world.dir.rename entry entry.promoted := by
  rcases step_phase (c := c) world event n with hsame | ⟨choice, hevent, hrun⟩ | ⟨-, hdead⟩
  · left
    rwa [hsame] at h
  · rw [hrun] at h
    subst hevent
    cases hphase : world.phase n with
    | stamped entry =>
      right
      simp only [advance, hphase] at h
      split at h
      · next hmem =>
        split at h
        · simp [Phase.holds] at h
        · next hchoice =>
          refine ⟨choice, entry, rfl, rfl, Directory.has_iff.mp hmem, ?_⟩
          simp [step, advance, hphase, hmem, hchoice]
      · simp [Phase.holds] at h
    | leaving claim state =>
      cases state with
      | holding => exact .inl rfl
      | queued | lost => simp [advance, hphase, World.setPhase, Phase.holds] at h
    | holding claim => exact .inl rfl
    | _ =>
      simp only [advance, hphase] at h
      repeat' split at h
      all_goals simp_all [World.setPhase, Phase.holds]
  · rw [hdead] at h
    cases h

theorem step_cancelled (c : JobClass) (world : World) (event : Event) :
    (step c world event).cancelled = world.cancelled ∨
      ∃ entry, event = .cancel entry ∧ entry.state = .waiter ∧ entry ∈ world.dir ∧
        (step c world event).dir = world.dir.unlink entry ∧
          (step c world event).cancelled = entry :: world.cancelled := by
  cases event with
  | run n choice =>
    left
    cases hphase : world.phase n <;> simp only [step, advance, hphase] <;>
      (repeat' split) <;> simp [World.setPhase]
  | cancel entry =>
    simp only [step, cancelWaiter]
    split
    · next h => exact .inr ⟨entry, rfl, h.1, Directory.has_iff.mp h.2, rfl, rfl⟩
    · exact .inl rfl
  | inspect entry | rewrite entry =>
    left
    simp only [step]
    split <;> rfl
  | _ => exact .inl rfl

/-- A cancelled submission has no entry and no slot. -/
structure Gone (world : World) (n : Nat) : Prop where
  past : (world.phase n).unlinked = false
  idle : (world.phase n).holds = false
  absent : ∀ x ∈ world.dir, x.n ≠ n

structure CancelsKept (c : JobClass) (world : World) : Prop where
  entries : EntriesKept c world
  held : ∀ n, (world.phase n).holds = true → ∀ x ∈ world.dir, x.n = n → x.state = .holder
  gone : ∀ entry ∈ world.cancelled, Gone world entry.n

theorem CancelsKept.start (c : JobClass) : CancelsKept c (start .empty) where
  entries := .start c
  held _ h := by cases h
  gone _ h := by cases h

theorem CancelsKept.held_step (h : CancelsKept c world) (hreplaces : ReplacesPresent world event)
    (hholds : ((step c world event).phase n).holds = true) (hx : x ∈ (step c world event).dir)
    (hnumber : x.n = n) : x.state = .holder := by
  rcases step_holds hholds with hold | ⟨choice, entry, hevent, hphase, hmem, hdir⟩
  · cases step_appears hreplaces hx with
    | kept hmem => exact h.held n hold x hmem hnumber
    | @linked m _ _ _ _ hphase heq =>
      have hm : m = n := by
        rw [← hnumber, heq]
        rfl
      subst hm
      rw [hphase] at hold
      cases hold
    | promoted _ _ _ heq =>
      rw [heq]
      rfl
  · rw [hdir] at hx
    rcases Directory.mem_rename.mp hx with rfl | ⟨hx, hne⟩
    · rfl
    · have hown := (stamped_claims hphase (h.entries.fits n)).number
      exact absurd (h.entries.single x hx entry hmem (hnumber.trans hown.symm)) hne

theorem Gone.step (hgone : Gone world n) (hfits : ∀ m, (world.phase m).Fits c m)
    (hreplaces : ReplacesPresent world event) : Gone (step c world event) n := by
  refine ⟨step_unlinked hgone.past, ?_, ?_⟩
  · by_contra hholds
    rcases step_holds (by simpa using hholds) with hold | ⟨choice, entry, -, hphase, hmem, -⟩
    · rw [hgone.idle] at hold
      cases hold
    · exact hgone.absent entry hmem (stamped_claims hphase (hfits n)).number
  · intro x hx hnumber
    cases step_appears hreplaces hx with
    | kept hmem => exact hgone.absent x hmem hnumber
    | @linked m _ _ _ _ hphase heq =>
      have hm : m = n := by
        rw [← hnumber, heq]
        rfl
      have hpast := hgone.past
      rw [← hm, hphase] at hpast
      cases hpast
    | promoted _ _ hmem heq =>
      rw [heq] at hnumber
      exact hgone.absent _ hmem hnumber

/-- The unlink of a cancel call takes the only entry of its submission. -/
theorem CancelsKept.gone_of_cancel (h : CancelsKept c world) (hwaiter : entry.state = .waiter)
    (hmem : entry ∈ world.dir) :
    Gone { world with dir := world.dir.unlink entry } entry.n where
  past := h.entries.linked entry hmem
  idle := by
    by_contra hholds
    have hstate := h.held entry.n (by simpa using hholds) entry hmem rfl
    rw [hwaiter] at hstate
    cases hstate
  absent x hx hnumber := by
    obtain ⟨hx, hne⟩ := Directory.mem_unlink.mp hx
    exact hne (h.entries.single x hx entry hmem hnumber)

theorem CancelsKept.step (h : CancelsKept c world) (hreplaces : ReplacesPresent world event) :
    CancelsKept c (step c world event) := by
  refine ⟨h.entries.step hreplaces, fun n hholds x hx hnumber =>
    h.held_step hreplaces hholds hx hnumber, ?_⟩
  intro entry hentry
  have hkept : entry ∈ world.cancelled → Gone (JobSlots.step c world event) entry.n :=
    fun hold => (h.gone entry hold).step h.entries.fits hreplaces
  rcases step_cancelled c world event with hsame | ⟨cancelled, hevent, hwaiter, hmem, -, hlist⟩
  · rw [hsame] at hentry
    exact hkept hentry
  · rw [hlist] at hentry
    rcases List.mem_cons.mp hentry with rfl | hold
    · have hgone := h.gone_of_cancel hwaiter hmem
      subst hevent
      have hstep : JobSlots.step c world (.cancel entry) =
          { world with dir := world.dir.unlink entry, cancelled := entry :: world.cancelled } := by
        simp [JobSlots.step, cancelWaiter, hwaiter, Directory.has_iff.mpr hmem]
      rw [hstep]
      exact ⟨hgone.past, hgone.idle, hgone.absent⟩
    · exact hkept hold

/-! ## The owner of a cancelled entry -/

/-- The owner's steps, one for each choice. -/
def ownSteps (n : Nat) (choices : List Choice) : List Event := choices.map (.run n)

/-- From wherever it waits, its own steps lead the owner of a vanished entry to the claim-lost
error. -/
theorem lost_of_gone (c : JobClass) (habsent : world.dir.has entry = false)
    (h : (world.phase n).waitsFor = some entry) :
    ∃ choices, (runs c world (ownSteps n choices)).phase n = .lost entry := by
  cases hphase : world.phase n with
  | admitted claim scan seen =>
    simp only [hphase, Phase.waitsFor, Option.some.injEq] at h
    subst h
    refine ⟨[.proceed, .proceed], ?_⟩
    simp [ownSteps, runs, step, advance, hphase, habsent]
  | queued claim =>
    simp only [hphase, Phase.waitsFor, Option.some.injEq] at h
    subst h
    refine ⟨[.proceed], ?_⟩
    simp [ownSteps, runs, step, advance, hphase, habsent]
  | looking claim =>
    simp only [hphase, Phase.waitsFor, Option.some.injEq] at h
    subst h
    by_cases hrank : c.cap ≤ world.dir.rank claim
    · refine ⟨[.proceed, .proceed], ?_⟩
      simp [ownSteps, runs, step, advance, hphase, habsent, hrank]
    · refine ⟨[.proceed, .fail, .proceed], ?_⟩
      simp [ownSteps, runs, step, advance, hphase, habsent, hrank]
  | ranked claim | opened claim =>
    simp only [hphase, Phase.waitsFor, Option.some.injEq] at h
    subst h
    refine ⟨[.fail, .proceed], ?_⟩
    simp [ownSteps, runs, step, advance, hphase, habsent, World.setPhase]
  | judged claim =>
    simp only [hphase, Phase.waitsFor, Option.some.injEq] at h
    subst h
    refine ⟨[.proceed, .fail, .proceed], ?_⟩
    simp [ownSteps, runs, step, advance, hphase, habsent, World.setPhase]
  | gated claim | stamped claim =>
    simp only [hphase, Phase.waitsFor, Option.some.injEq] at h
    subst h
    refine ⟨[.proceed, .proceed], ?_⟩
    simp [ownSteps, runs, step, advance, hphase, habsent, World.setPhase]
  | rechecked claim =>
    simp only [hphase, Phase.waitsFor, Option.some.injEq] at h
    subst h
    by_cases hrank : c.cap ≤ world.dir.rank claim
    · refine ⟨[.proceed, .proceed, .proceed], ?_⟩
      simp [ownSteps, runs, step, advance, hphase, habsent, hrank, World.setPhase]
    · refine ⟨[.proceed, .proceed, .proceed, .proceed], ?_⟩
      simp [ownSteps, runs, step, advance, hphase, habsent, hrank, World.setPhase]
  | eligible claim =>
    simp only [hphase, Phase.waitsFor, Option.some.injEq] at h
    subst h
    refine ⟨[.proceed, .proceed, .proceed], ?_⟩
    simp [ownSteps, runs, step, advance, hphase, habsent, World.setPhase]
  | stamping claim =>
    -- a replace would bring the file back
    simp only [hphase, Phase.waitsFor, Option.some.injEq] at h
    subst h
    refine ⟨[.fail, .proceed, .proceed], ?_⟩
    simp [ownSteps, runs, step, advance, hphase, habsent, World.setPhase]
  | leaving claim state =>
    cases state with
    | queued =>
      simp only [hphase, Phase.waitsFor, Option.some.injEq] at h
      subst h
      refine ⟨[.proceed, .proceed], ?_⟩
      simp [ownSteps, runs, step, advance, hphase, habsent, World.setPhase]
    | lost =>
      simp only [hphase, Phase.waitsFor, Option.some.injEq] at h
      subst h
      refine ⟨[.proceed], ?_⟩
      simp [ownSteps, runs, step, advance, hphase, World.setPhase]
    | holding => simp [hphase, Phase.waitsFor] at h
  | lost claim =>
    simp only [hphase, Phase.waitsFor, Option.some.injEq] at h
    subst h
    exact ⟨[], hphase⟩
  | _ => simp [hphase, Phase.waitsFor] at h

/-- A cancelled waiter never becomes a holder. In every run in which each replaced file is still
there: once a cancel call has returned True for an entry, its submission has no entry in the store,
it holds no slot, its next poll raises the claim-lost error, and from wherever it waits its steps
lead there. -/
theorem cancelled_never_holds (c : JobClass) (world : World)
    (h : Reaches (Step c) ReplacesPresent (start .empty) world) (entry : Entry)
    (hcancelled : entry ∈ world.cancelled) :
    (∀ x ∈ world.dir, x.n ≠ entry.n) ∧ (world.phase entry.n).holds = false ∧
      (∀ claim choice, world.phase entry.n = .queued claim → choice ≠ .fail →
        (step c world (.run entry.n choice)).phase entry.n = .lost claim) ∧
      ∀ claim, (world.phase entry.n).waitsFor = some claim →
        ∃ choices, (runs c world (ownSteps entry.n choices)).phase entry.n = .lost claim := by
  have hkept : CancelsKept c world := by
    refine h.keeps (CancelsKept.start c) ?_
    intro state event next hold hmeets hstep
    rw [← hstep]
    exact hold.step hmeets
  have hgone := hkept.gone entry hcancelled
  have habsent : ∀ claim, (world.phase entry.n).waitsFor = some claim →
      world.dir.has claim = false := by
    intro claim hwaits
    by_contra hhas
    have hmem := Directory.has_iff.mp (by simpa using hhas)
    exact hgone.absent claim hmem (waitsFor_claims hwaits (hkept.entries.fits entry.n)).number
  refine ⟨hgone.absent, hgone.idle, ?_, fun claim hwaits =>
    lost_of_gone c (habsent claim hwaits) hwaits⟩
  intro claim choice hphase hchoice
  have hmissing := habsent claim (by rw [hphase]; rfl)
  simp [step, advance, hphase, hchoice, hmissing]

/-! ## A cancel between the exists-check and the replace -/

/-- One slot, interactive submissions. -/
def oneSlot : JobClass where
  cap := 1
  queueMax := 4
  role _ := .interactive
  pid n := n + 100

/-- The waiter is cancelled after its promotion stamp has seen its file. -/
def cancelledInStamp : List Event :=
  List.replicate 12 (.run 0 .proceed) ++ [.cancel (oneSlot.waiter 0 1)] ++
    List.replicate 3 (.run 0 .proceed)

/-- The stamp's replace brings the cancelled entry back, and the rename makes it a holder. -/
theorem cancelled_waiter_holds :
    ¬∀ (c : JobClass) (world : World),
      Reaches (Step c) (fun _ _ => True) (start .empty) world → ∀ entry ∈ world.cancelled,
        entry ∉ world.dir ∧ entry.promoted ∉ world.dir := by
  intro hnever
  have hreached : Reaches (Step oneSlot) (fun _ _ => True) (start .empty)
      (runs oneSlot (start .empty) cancelledInStamp) :=
    Reaches.foldl (fun _ _ => true) (fun _ _ _ => trivial) .start (by decide +kernel)
  have hgone := hnever oneSlot _ hreached (oneSlot.waiter 0 1) (by decide +kernel)
  have hholder : (runs oneSlot (start .empty) cancelledInStamp).dir.has
      (oneSlot.waiter 0 1).promoted = true := by decide +kernel
  exact hgone.2 (Directory.has_iff.mp hholder)

/-- Cancelled while it waits, the submission finds its claim lost. -/
theorem cancelled_never_holds_queued :
    (step oneSlot (runs oneSlot (start .empty)
        (List.replicate 5 (.run 0 .proceed) ++ [.cancel (oneSlot.waiter 0 1)]))
      (.run 0 .proceed)).phase 0 = .lost (oneSlot.waiter 0 1) := by
  have hreached : Reaches (Step oneSlot) ReplacesPresent (start .empty)
      (runs oneSlot (start .empty)
        (List.replicate 5 (.run 0 .proceed) ++ [.cancel (oneSlot.waiter 0 1)])) :=
    Reaches.foldl replacesPresent (fun _ _ => replacesPresent_sound) .start (by decide +kernel)
  exact (cancelled_never_holds oneSlot _ hreached (oneSlot.waiter 0 1) (by decide +kernel)).2.2.1
    (oneSlot.waiter 0 1) .proceed rfl (by decide)

end Booley.JobSlots
