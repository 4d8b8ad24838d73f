import Booley.JobSlots.Steps

/-!
# Concurrent submits

The rank check after a link bounds what was ahead of an admitted entry when it was checked. An
entry linked later goes ahead of it only with a higher priority, or when its own submit was
already past its sequence scan.
-/
namespace Booley.JobSlots

open Booley.Lib

variable {c : JobClass} {dir : Directory} {world : World} {event : Event} {n : Nat}
variable {entry : Entry} {scan seen : Directory}

/-- The step belongs to a `submit` call. -/
def Phase.submitting : Phase → Bool
  | .idle | .counted | .numbered _ _ | .linked _ _ | .withdrawing _ _ => true
  | _ => false

/-- Submits only: no promotion, no release of a returned token, no reaping. -/
def Submitting (world : World) (event : Event) : Prop :=
  ∃ n choice, event = .run n choice ∧ (world.phase n).submitting = true

/-- Whether a step belongs to a `submit` call. -/
def submits (world : World) : Event → Bool
  | .run n _ => (world.phase n).submitting
  | _ => false

/-- The entries counted against one: those ranked at or before it. -/
def countsAgainst (entry x : Entry) : Bool := x == entry || before x entry

theorem count_countsAgainst_le (dir : Directory) (entry : Entry) :
    dir.count (countsAgainst entry) ≤ dir.rank entry + 1 := by
  have hrest : (dir.unlink entry).count (countsAgainst entry) ≤ dir.rank entry := by
    refine Directory.count_le fun x hmem htest => ?_
    obtain ⟨hmem, hne⟩ := Directory.mem_unlink.mp hmem
    exact ⟨hmem, by simpa [countsAgainst, hne] using htest⟩
  have hself : dir.count (countsAgainst entry) ≤ (dir.put entry).count (countsAgainst entry) :=
    Directory.count_le fun x hmem htest => ⟨Directory.mem_put.mpr (.inr hmem), htest⟩
  have hput : (dir.put entry).count (countsAgainst entry) ≤
      (dir.unlink entry).count (countsAgainst entry) + 1 := by
    simp only [Directory.count, Directory.put, List.countP_cons]
    split <;> omega
  omega

/-! ## The invariant of a run of submits -/

/-- Published entries are there, and what an admitted entry did not see has been published since
by a submission that still knows its sequence scan. -/
structure SubmitsKept (c : JobClass) (world : World) : Prop where
  fits : ∀ n, (world.phase n).Fits c n
  published : ∀ n entry scan, (world.phase n).submitted = some (entry, scan) → entry ∈ world.dir
  checked : ∀ n entry scan seen, world.phase n = .admitted entry scan seen →
    entry ∈ seen ∧ seen.rank entry < c.cap + c.queueMax
  later : ∀ n entry scan seen, world.phase n = .admitted entry scan seen → ∀ x ∈ world.dir,
    x ∉ seen → ∃ scan', (world.phase x.n).submitted = some (x, scan')

theorem submitted_fits (hfits : (world.phase n).Fits c n)
    (h : (world.phase n).submitted = some (entry, scan)) :
    c.Claims n entry ∧ PastAll entry.seq scan := by
  cases hphase : world.phase n <;> simp_all [Phase.submitted, Phase.Fits]

theorem SubmitsKept.start (c : JobClass) (dir : Directory) : SubmitsKept c (start dir) where
  fits _ := trivial
  published n entry scan h := by cases h
  checked n entry scan seen h := by cases h
  later n entry scan seen h := by cases h

/-- A step of the submission that leaves the directory alone and what it has published. -/
theorem SubmitsKept.quiet (h : SubmitsKept c world) {phase : Phase}
    (hfits : phase.Fits c n) (hsame : phase.submitted = (world.phase n).submitted)
    (hadmitted : ∀ entry scan seen, phase = .admitted entry scan seen →
      seen = world.dir ∧ world.dir.rank entry < c.cap + c.queueMax) :
    SubmitsKept c (world.setPhase n phase) := by
  have hsubmitted : ∀ m, ((world.setPhase n phase).phase m).submitted =
      (world.phase m).submitted := by
    intro m
    by_cases heq : m = n
    · subst heq
      rw [World.setPhase_same, hsame]
    · rw [World.setPhase_other heq]
  constructor
  · intro m
    by_cases heq : m = n
    · subst heq
      rwa [World.setPhase_same]
    · rw [World.setPhase_other heq]
      exact h.fits m
  · intro m entry scan hm
    rw [hsubmitted] at hm
    exact h.published m entry scan hm
  · intro m entry scan seen hm
    by_cases heq : m = n
    · subst heq
      rw [World.setPhase_same] at hm
      obtain ⟨rfl, hrank⟩ := hadmitted _ _ _ hm
      refine ⟨h.published m entry scan ?_, hrank⟩
      rw [← hsame, hm]
      rfl
    · rw [World.setPhase_other heq] at hm
      exact h.checked m entry scan seen hm
  · intro m entry scan seen hm x hx hnew
    rw [hsubmitted]
    by_cases heq : m = n
    · subst heq
      rw [World.setPhase_same] at hm
      obtain ⟨rfl, -⟩ := hadmitted _ _ _ hm
      exact absurd hx hnew
    · rw [World.setPhase_other heq] at hm
      exact h.later m entry scan seen hm x hx hnew

theorem SubmitsKept.link (h : SubmitsKept c world) {seq : Nat}
    (hphase : world.phase n = .numbered seq scan) :
    SubmitsKept c { world.setPhase n (.linked (c.waiter n seq) scan) with
      dir := world.dir.put (c.waiter n seq) } := by
  have hpast : PastAll seq scan := by simpa [hphase, Phase.Fits] using h.fits n
  constructor
  · intro m
    by_cases heq : m = n
    · subst heq
      have hfits : (Phase.linked (c.waiter m seq) scan).Fits c m := ⟨c.claims_waiter m seq, hpast⟩
      simpa [World.setPhase] using hfits
    · simpa [World.setPhase, heq] using h.fits m
  · intro m entry scan' hm
    by_cases heq : m = n
    · subst heq
      simp [World.setPhase, Phase.submitted] at hm
      simp [hm.1]
    · have hold := h.published m entry scan' (by simpa [World.setPhase, heq] using hm)
      simp [hold]
  · intro m entry scan' seen hm
    by_cases heq : m = n
    · subst heq
      simp [World.setPhase] at hm
    · exact h.checked m entry scan' seen (by simpa [World.setPhase, heq] using hm)
  · intro m entry scan' seen hm x hx hnew
    by_cases heq : m = n
    · subst heq
      simp [World.setPhase] at hm
    · rcases Directory.mem_put.mp hx with rfl | hx
      · exact ⟨scan, by simp [World.setPhase, JobClass.waiter, Phase.submitted]⟩
      · obtain ⟨scan'', hold⟩ :=
          h.later m entry scan' seen (by simpa [World.setPhase, heq] using hm) x hx hnew
        have hne : x.n ≠ n := by
          intro hxn
          rw [hxn, hphase] at hold
          cases hold
        exact ⟨scan'', by simpa [World.setPhase, hne] using hold⟩

theorem SubmitsKept.withdraw (h : SubmitsKept c world)
    (hphase : world.phase n = .withdrawing entry scan) :
    SubmitsKept c { world.setPhase n .refused with dir := world.dir.unlink entry } := by
  have hclaim : c.Claims n entry :=
    (submitted_fits (h.fits n) (by rw [hphase]; rfl)).1
  constructor
  · intro m
    by_cases heq : m = n
    · subst heq
      simp [World.setPhase, Phase.Fits]
    · simpa [World.setPhase, heq] using h.fits m
  · intro m other scan' hm
    by_cases heq : m = n
    · subst heq
      simp [World.setPhase, Phase.submitted] at hm
    · have hother : (world.phase m).submitted = some (other, scan') := by
        simpa [World.setPhase, heq] using hm
      refine Directory.mem_unlink.mpr ⟨h.published m other scan' hother, ?_⟩
      rintro rfl
      exact heq ((submitted_fits (h.fits m) hother).1.number.symm.trans hclaim.number)
  · intro m other scan' seen hm
    by_cases heq : m = n
    · subst heq
      simp [World.setPhase] at hm
    · exact h.checked m other scan' seen (by simpa [World.setPhase, heq] using hm)
  · intro m other scan' seen hm x hx hnew
    obtain ⟨hx, hne⟩ := Directory.mem_unlink.mp hx
    by_cases heq : m = n
    · subst heq
      simp [World.setPhase] at hm
    · obtain ⟨scan'', hold⟩ :=
        h.later m other scan' seen (by simpa [World.setPhase, heq] using hm) x hx hnew
      have hxn : x.n ≠ n := by
        intro hxn
        rw [hxn, hphase] at hold
        simp only [Phase.submitted, Option.some.injEq, Prod.mk.injEq] at hold
        exact hne hold.1.symm
      exact ⟨scan'', by simpa [World.setPhase, hxn] using hold⟩

theorem SubmitsKept.step (h : SubmitsKept c world) (hsubmit : Submitting world event) :
    SubmitsKept c (step c world event) := by
  obtain ⟨n, choice, rfl, hsubmitting⟩ := hsubmit
  have hfits : ((advance c world n choice).phase n).Fits c n := advance_fits (h.fits n)
  cases hphase : world.phase n with
  | idle =>
    simp only [JobSlots.step, advance, hphase]
    split <;> exact h.quiet trivial (by rw [hphase]; rfl) (by intro _ _ _ heq; cases heq)
  | counted =>
    simp only [advance, hphase, World.setPhase_same] at hfits
    simp only [JobSlots.step, advance, hphase]
    exact h.quiet hfits (by rw [hphase]; rfl) (by intro _ _ _ heq; cases heq)
  | numbered seq scan =>
    simp only [JobSlots.step, advance, hphase]
    split
    · split <;> exact h.quiet trivial (by rw [hphase]; rfl) (by intro _ _ _ heq; cases heq)
    · exact h.link hphase
  | linked entry scan =>
    have hold : c.Claims n entry ∧ PastAll entry.seq scan :=
      submitted_fits (h.fits n) (by rw [hphase]; rfl)
    simp only [JobSlots.step, advance, hphase]
    split
    · exact h.quiet hold (by rw [hphase]; rfl) (by intro _ _ _ heq; cases heq)
    · next hrank =>
      refine h.quiet hold (by rw [hphase]; rfl) ?_
      intro entry' scan' seen' heq
      cases heq
      exact ⟨rfl, by omega⟩
  | withdrawing entry scan =>
    simp only [JobSlots.step, advance, hphase]
    exact h.withdraw hphase
  | _ => simp [hphase, Phase.submitting] at hsubmitting

theorem SubmitsKept.reached (h : Reaches (Step c) Submitting (JobSlots.start dir) world) :
    SubmitsKept c world := by
  refine h.keeps (SubmitsKept.start c dir) ?_
  intro state event next hkept hmeets hstep
  rw [← hstep]
  exact hkept.step hmeets

/-! ## The bound -/

/-- An entry of another submission that ranks ahead of a claim is of a higher priority, or it has
taken its sequence number before the claim was linked, or the number overflows its field. -/
theorem ahead_of_claim {x : Entry} {other : Nat} {scan' : Directory} (hclaim : c.Claims n entry)
    (hx : c.Claims other x) (hpast : PastAll x.seq scan') (hahead : before x entry = true) :
    x.priority < entry.priority ∨ x.priority = entry.priority ∧ entry ∉ scan' ∨
      seqLimit ≤ x.seq := by
  have hstate : entry.state = x.state := hclaim.state.trans hx.state.symm
  have hten : x.priority < 10 := by
    rw [hx.priority]
    exact Role.priority_lt_ten _
  by_cases hlt : x.priority < entry.priority
  · exact .inl hlt
  by_cases hfield : seqLimit ≤ x.seq
  · exact .inr (.inr hfield)
  have heq : entry.priority = x.priority := by
    by_contra hne
    have hafter := before_of_priority_lt hstate (by omega) hten
    rw [before_asymm hafter] at hahead
    cases hahead
  refine .inr (.inl ⟨heq.symm, ?_⟩)
  intro hscanned
  have hafter := before_of_seq_lt hstate heq (hpast entry hscanned) (by omega)
  rw [before_asymm hafter] at hahead
  cases hahead

/-- The bounded queue. In every interleaving of submits, what an admitted entry's rank check could
see keeps within the bound, and an entry linked after the check goes ahead of it only with a
higher priority, unless its submit was past its sequence scan when the entry was linked or its
sequence number overflows. -/
theorem admitted_entries_bounded (c : JobClass) (dir : Directory) (world : World)
    (h : Reaches (Step c) Submitting (JobSlots.start dir) world) (n : Nat) (entry : Entry)
    (scan seen : Directory) (hadmitted : world.phase n = .admitted entry scan seen) :
    world.dir.count (fun x => seen.has x && countsAgainst entry x) ≤ c.cap + c.queueMax ∧
      ∀ x ∈ world.dir, seen.has x = false → countsAgainst entry x = true →
        x.priority < entry.priority ∨
          (x.priority = entry.priority ∧ ∃ scan', (world.phase x.n).submitted = some (x, scan') ∧
            scan'.has entry = false) ∨
          seqLimit ≤ x.seq := by
  have hkept := SubmitsKept.reached h
  obtain ⟨hself, hrank⟩ := hkept.checked n entry scan seen hadmitted
  have hclaim := (submitted_fits (hkept.fits n) (by rw [hadmitted]; rfl)).1
  constructor
  · have hseen : world.dir.count (fun x => seen.has x && countsAgainst entry x) ≤
        seen.count (countsAgainst entry) := by
      refine Directory.count_le fun x _ htest => ?_
      obtain ⟨hhas, hcounts⟩ := Bool.and_eq_true_iff.mp htest
      exact ⟨Directory.has_iff.mp hhas, hcounts⟩
    have hbound := count_countsAgainst_le seen entry
    omega
  · intro x hx hnew hcounts
    have hunseen : x ∉ seen := by
      intro hmem
      rw [Directory.has_iff.mpr hmem] at hnew
      cases hnew
    have hahead : before x entry = true := by
      have hne : x ≠ entry := by
        rintro rfl
        exact hunseen hself
      simpa [countsAgainst, hne] using hcounts
    obtain ⟨scan', hpublished⟩ := hkept.later n entry scan seen hadmitted x hx hunseen
    obtain ⟨hclaimx, hpast⟩ := submitted_fits (hkept.fits x.n) hpublished
    rcases ahead_of_claim hclaim hclaimx hpast hahead with hlt | ⟨heq, hscan⟩ | hfield
    · exact .inl hlt
    · refine .inr (.inl ⟨heq, scan', hpublished, ?_⟩)
      by_contra hhas
      exact hscan (Directory.has_iff.mp (by simpa using hhas))
    · exact .inr (.inr hfield)

/-! ## A background claim and an interactive one -/

/-- One slot and no queue; the first submission is a background one. -/
def singleSlot : JobClass where
  cap := 1
  queueMax := 0
  role n := if n = 0 then .background else .interactive
  pid n := n + 100

/-- Two submits, one after the other. -/
def overtaken : World :=
  runs singleSlot (start .empty) (List.replicate 4 (.run 0 .proceed) ++
    List.replicate 4 (.run 1 .proceed))

theorem overtaken_reached : Reaches (Step singleSlot) Submitting (start .empty) overtaken := by
  refine Reaches.foldl submits ?_ .start (by decide +kernel)
  intro world event hevent
  cases event with
  | run n choice => exact ⟨n, choice, rfl, hevent⟩
  | _ => cases hevent

theorem overtaken_returned (n : Nat) :
    overtaken.phase n = .idle ∨
      ∃ entry scan seen, overtaken.phase n = .admitted entry scan seen := by
  match n with
  | 0 => exact .inr ⟨_, _, _, rfl⟩
  | 1 => exact .inr ⟨_, _, _, rfl⟩
  | n + 2 => exact .inl rfl

/-- The background claim's check sees itself alone. -/
theorem admitted_entries_bounded_overtaken :
    overtaken.dir.count (fun x => ((Directory.empty.put (singleSlot.waiter 0 1)).has x &&
      countsAgainst (singleSlot.waiter 0 1) x)) ≤ 1 :=
  (admitted_entries_bounded singleSlot .empty overtaken overtaken_reached 0
    (singleSlot.waiter 0 1) .empty _ rfl).1

/-- An admitted background claim has an interactive one admitted ahead of it, past the bound. -/
theorem interactive_claim_exceeds_bound :
    ¬∀ (c : JobClass) (world : World), Reaches (Step c) Submitting (start .empty) world →
      (∀ n, world.phase n = .idle ∨
        ∃ entry scan seen, world.phase n = .admitted entry scan seen) →
      ∀ n entry scan seen, world.phase n = .admitted entry scan seen →
        world.dir.count (countsAgainst entry) ≤ c.cap + c.queueMax := by
  intro hbound
  have hle := hbound singleSlot overtaken overtaken_reached overtaken_returned 0 _ _ _ rfl
  revert hle
  decide +kernel

end Booley.JobSlots
