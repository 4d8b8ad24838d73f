import Booley.JobSlots.Presence
import Booley.JobSlots.Promotion

/-!
# The order of promotions

A claim is renamed while it ranks below the cap, and same-priority claims keep the order of their
submits. Submits do not take the promotion gate: one that links an earlier-ranking entry after the
last rank check of a claim is overtaken by it.
-/
namespace Booley.JobSlots

open Booley.Lib

variable {c : JobClass} {world later : World} {event : Event} {n m : Nat}
variable {entry x : Entry}

/-! ## Conditions on the steps -/

/-- No link fills the ranks ahead of a claim between its last rank check and its rename. -/
def LinksKeepRanks (c : JobClass) (world : World) (event : Event) : Prop :=
  ∀ m choice seq scan, event = .run m choice → world.phase m = .numbered seq scan →
    ∀ n entry, (world.phase n).promoting = some entry →
      (world.dir.put (c.waiter m seq)).rank entry < c.cap

/-- Sequence numbers fit their field. -/
def NumbersFit (world : World) (event : Event) : Prop :=
  ∀ n choice, event = .run n choice → world.phase n = .counted → world.dir.nextSeq < seqLimit

/-- The steps of a run in which no claim is overtaken. -/
structure Orderly (c : JobClass) (world : World) (event : Event) : Prop where
  clears : ClearsDeadGate world event
  replaces : ReplacesPresent world event
  links : LinksKeepRanks c world event
  numbers : NumbersFit world event

/-! ## Ranks at the rename -/

/-- A claim being promoted still ranks below the cap. -/
structure RanksKept (c : JobClass) (world : World) : Prop where
  fits : ∀ n, (world.phase n).Fits c n
  gate : GateHeld world
  below : ∀ n entry, (world.phase n).promoting = some entry → world.dir.rank entry < c.cap

/-- A step that leaves a claim being promoted leaves its rank below the cap. -/
theorem RanksKept.rank_step (h : RanksKept c world) (horderly : Orderly c world event)
    (hold : (world.phase n).promoting = some entry)
    (hkeeps : ((step c world event).phase n).promoting = some entry) :
    (step c world event).dir.rank entry < c.cap := by
  have hbelow := h.below n entry hold
  have hin := Phase.inGate_of_promoting hold
  have hchange := step_dir c world event
  generalize hafter : (step c world event).dir = after at hchange ⊢
  cases hchange with
  | same => exact hbelow
  | linked hevent hphase _ => exact horderly.links _ _ _ _ hevent hphase n entry hold
  | removed x => exact Nat.lt_of_le_of_lt (Directory.rank_unlink_le x) hbelow
  | @stamped m _ claim hevent hchoice hphase =>
    have hpresent := horderly.replaces.2 _ _ _ hevent hchoice hphase
    exact Nat.lt_of_le_of_lt (Directory.count_put_of fun _ => hpresent) hbelow
  | @promoted m _ claim hevent hphase _ =>
    -- only the claim in the gate is renamed, and it leaves
    have heq : n = m := h.gate.alone hin (by rw [hphase]; rfl)
    subst heq hevent
    rw [step, stamped_leaves hphase] at hkeeps
    cases hkeeps
  | @rewritten claim hevent hpending =>
    have hpresent := horderly.replaces.1 _ hevent hpending
    exact Nat.lt_of_le_of_lt (Directory.count_put_of fun _ => hpresent) hbelow

theorem RanksKept.step (h : RanksKept c world) (horderly : Orderly c world event) :
    RanksKept c (step c world event) := by
  refine ⟨step_fits h.fits event, h.gate.step horderly.clears, ?_⟩
  intro n entry hn
  rcases step_phase (c := c) world event n with hsame | ⟨choice, rfl, hrun⟩ | ⟨-, hdead⟩
  · rw [hsame] at hn
    exact h.rank_step horderly hn (by rwa [hsame])
  · rw [hrun] at hn
    rcases advance_promoting hn with hold | ⟨-, hrank, hdir⟩
    · exact h.rank_step horderly hold (by rwa [hrun])
    · rw [JobSlots.step, hdir]
      exact hrank
  · rw [hdead] at hn
    cases hn

/-! ## Sequence numbers in the order of submits -/

/-- The submission of `entry` has returned, and one started since takes larger numbers while the
entry is there. -/
structure OrderKept (c : JobClass) (entry : Entry) (n m : Nat) (world : World) : Prop where
  entries : EntriesKept c world
  past : (world.phase n).unlinked = false
  numbered : entry ∈ world.dir → ∀ seq scan, world.phase m = .numbered seq scan →
    entry.seq < seq ∧ seq < seqLimit
  linked : entry ∈ world.dir → ∀ x ∈ world.dir, x.n = m → x.state = .waiter →
    entry.seq < x.seq ∧ x.seq < seqLimit

/-- Only the listing of `_next_seq` numbers a submission. -/
theorem advance_numbered {choice : Choice} {seq : Nat} {scan : Directory}
    (h : (advance c world n choice).phase n = .numbered seq scan) :
    world.phase n = .counted ∧ seq = world.dir.nextSeq ∧
      (advance c world n choice).dir = world.dir := by
  cases hphase : world.phase n with
  | counted =>
    simp only [advance, hphase, World.setPhase_same, Phase.numbered.injEq] at h ⊢
    exact ⟨trivial, h.1.symm, rfl⟩
  | leaving claim state => cases state <;> simp [advance, hphase, World.setPhase] at h
  | _ =>
    simp only [advance, hphase] at h
    repeat' split at h
    all_goals simp_all [World.setPhase]

theorem OrderKept.step (h : OrderKept c entry n m world) (hclaim : c.Claims n entry)
    (horderly : Orderly c world event) : OrderKept c entry n m (step c world event) := by
  have hkept : entry ∈ (JobSlots.step c world event).dir → entry ∈ world.dir := by
    intro hmem
    cases step_appears horderly.replaces hmem with
    | kept hmem => exact hmem
    | @linked k _ _ _ _ hphase heq =>
      have hk : k = n := by
        rw [← hclaim.number, heq]
        rfl
      have hpast := h.past
      rw [← hk, hphase] at hpast
      cases hpast
    | promoted _ _ _ heq =>
      have hstate := hclaim.state
      rw [heq] at hstate
      cases hstate
  refine ⟨h.entries.step horderly.replaces, step_unlinked h.past, ?_, ?_⟩
  · intro hmem seq scan hm
    rcases step_phase (c := c) world event m with hsame | ⟨choice, rfl, hrun⟩ | ⟨-, hdead⟩
    · rw [hsame] at hm
      exact h.numbered (hkept hmem) seq scan hm
    · rw [hrun] at hm
      obtain ⟨hphase, rfl, -⟩ := advance_numbered hm
      exact ⟨Directory.seq_lt_nextSeq (hkept hmem), horderly.numbers m choice rfl hphase⟩
    · rw [hdead] at hm
      cases hm
  · intro hmem x hx hnumber hstate
    cases step_appears horderly.replaces hx with
    | kept hold => exact h.linked (hkept hmem) x hold hnumber hstate
    | @linked k _ seq scan _ hphase heq =>
      subst heq
      have hk : k = m := hnumber
      subst hk
      exact h.numbered (hkept hmem) seq scan hphase
    | promoted _ _ _ heq =>
      rw [heq] at hstate
      cases hstate

/-- What is ahead of a waiter, holders included, is what ranks before it. -/
theorem count_ahead_le (dir : Directory) (hwaiter : entry.state = .waiter) :
    dir.count (fun x => Directory.isHolder x || before x entry) ≤ dir.rank entry := by
  refine Directory.count_le fun x hmem htest => ⟨hmem, ?_⟩
  rcases Bool.or_eq_true_iff.mp htest with hholder | hbefore
  · exact before_of_holder (by simpa [Directory.isHolder] using hholder) hwaiter
  · exact hbefore

/-- No overtaking. In every orderly run, a claim is renamed while fewer entries than the cap hold
slots or rank before it; and an entry whose submit starts after another's has returned never ranks
before it, at the same priority, while both are queued. -/
theorem no_overtaking (c : JobClass) (world : World)
    (h : Reaches (Step c) (Orderly c) (start .empty) world) :
    (∀ n entry, world.phase n = .stamped entry → entry ∈ world.dir →
      world.dir.count (fun x => Directory.isHolder x || before x entry) < c.cap) ∧
    ∀ n m entry later, (world.phase n).waitsFor = some entry → world.phase m = .idle →
      Reaches (Step c) (Orderly c) world later → entry ∈ later.dir →
        ∀ x ∈ later.dir, x.n = m → x.state = .waiter → x.priority = entry.priority →
          before x entry = false := by
  constructor
  · intro n entry hphase _
    have hkept : RanksKept c world := by
      refine h.keeps ⟨fun _ => trivial, ?_, ?_⟩ ?_
      · intro n hn
        cases hn
      · intro n entry hn
        cases hn
      · intro state event next hold hmeets hstep
        rw [← hstep]
        exact hold.step hmeets
    have hbelow := hkept.below n entry (by rw [hphase]; rfl)
    have hclaim := stamped_claims hphase (hkept.fits n)
    exact Nat.lt_of_le_of_lt (count_ahead_le world.dir hclaim.state) hbelow
  · intro n m entry later hwaits hidle hlater hmem x hx hnumber hstate hpriority
    have hentries : EntriesKept c world := by
      refine h.keeps (EntriesKept.start c) ?_
      intro state event next hold hmeets hstep
      rw [← hstep]
      exact hold.step hmeets.replaces
    have hclaim := waitsFor_claims hwaits (hentries.fits n)
    have hkept : OrderKept c entry n m later := by
      refine hlater.keeps ⟨hentries, ?_, ?_, ?_⟩ ?_
      · revert hwaits
        cases world.phase n <;> simp [Phase.waitsFor, Phase.unlinked]
      · intro _ seq scan hm
        rw [hidle] at hm
        cases hm
      · intro _ y hy hm
        exact absurd hm (hentries.number_ne (by rw [hidle]; rfl) hy)
      · intro state event next hold hmeets hstep
        rw [← hstep]
        exact hold.step hclaim hmeets
    obtain ⟨hlt, hfield⟩ := hkept.linked hmem x hx hnumber hstate
    exact before_asymm
      (before_of_seq_lt (hclaim.state.trans hstate.symm) hpriority.symm hlt hfield)

/-! ## An interactive claim between the rank check and the rename -/

/-- One slot; only the second submission is interactive. -/
def oneSlotMixed : JobClass where
  cap := 1
  queueMax := 4
  role n := if n = 1 then .interactive else .background
  pid n := n + 100

/-- The background claim is about to be renamed; the interactive one is submitted since its last
rank check. -/
def submittedInGate : List Event := proceeds 0 11 ++ proceeds 1 4 ++ proceeds 0 2

/-- The background claim overtakes the interactive one. -/
theorem background_claim_overtakes :
    ¬∀ (c : JobClass) (world : World),
      Reaches (Step c) (fun _ _ => True) (start .empty) world → ∀ n entry,
        world.phase n = .stamped entry → entry ∈ world.dir →
          world.dir.count (fun x => Directory.isHolder x || before x entry) < c.cap := by
  intro hbelow
  have hreached : Reaches (Step oneSlotMixed) (fun _ _ => True) (start .empty)
      (runs oneSlotMixed (start .empty) submittedInGate) :=
    Reaches.foldl (fun _ _ => true) (fun _ _ _ => trivial) .start (by decide +kernel)
  have hpresent : (runs oneSlotMixed (start .empty) submittedInGate).dir.has
      (oneSlotMixed.waiter 0 1) = true := by decide +kernel
  have hlt := hbelow oneSlotMixed _ hreached 0 (oneSlotMixed.waiter 0 1) rfl
    (Directory.has_iff.mp hpresent)
  revert hlt
  decide +kernel

/-- Three slots, interactive submissions. -/
def threeSlots : JobClass where
  cap := 3
  queueMax := 4
  role _ := .interactive
  pid n := n + 100

/-- A test of the conditions: gates are not cleared, and fewer entries than slots are linked. -/
def orderly (c : JobClass) (world : World) (event : Event) : Bool :=
  replacesPresent world event && match event with
    | .run n _ => match world.phase n with
      | .judged _ => false
      | .counted => decide (world.dir.nextSeq < seqLimit)
      | .numbered seq _ => decide ((world.dir.put (c.waiter n seq)).entries.length < c.cap)
      | _ => true
    | _ => true

theorem orderly_sound (h : orderly c world event = true) : Orderly c world event := by
  simp only [orderly, Bool.and_eq_true] at h
  obtain ⟨hreplaces, hphase⟩ := h
  constructor
  · rintro n choice entry gate rfl hjudged _
    simp [hjudged] at hphase
  · exact replacesPresent_sound hreplaces
  · rintro m choice seq scan rfl hnumbered n entry _
    simp only [hnumbered, decide_eq_true_eq] at hphase
    exact Nat.lt_of_le_of_lt List.countP_le_length hphase
  · rintro n choice rfl hcounted
    simpa [hcounted] using hphase

/-- A claim about to be renamed, and a later one behind it. -/
theorem no_overtaking_two :
    (runs threeSlots (start .empty) (proceeds 0 13)).dir.count
        (fun x => Directory.isHolder x || before x (threeSlots.waiter 0 1)) < 3 ∧
      before (threeSlots.waiter 1 2) (threeSlots.waiter 0 1) = false := by
  have hreached : Reaches (Step threeSlots) (Orderly threeSlots) (start .empty)
      (runs threeSlots (start .empty) (proceeds 0 13)) :=
    Reaches.foldl (orderly threeSlots) (fun _ _ => orderly_sound) .start (by decide +kernel)
  have hlater : Reaches (Step threeSlots) (Orderly threeSlots)
      (runs threeSlots (start .empty) (proceeds 0 13))
      (runs threeSlots (runs threeSlots (start .empty) (proceeds 0 13)) (proceeds 1 5)) :=
    Reaches.foldl (orderly threeSlots) (fun _ _ => orderly_sound) .start (by decide +kernel)
  have hpresent : (runs threeSlots (start .empty) (proceeds 0 13)).dir.has
      (threeSlots.waiter 0 1) = true := by decide +kernel
  have hfirst : (runs threeSlots (runs threeSlots (start .empty) (proceeds 0 13))
      (proceeds 1 5)).dir.has (threeSlots.waiter 0 1) = true := by decide +kernel
  have hsecond : (runs threeSlots (runs threeSlots (start .empty) (proceeds 0 13))
      (proceeds 1 5)).dir.has (threeSlots.waiter 1 2) = true := by decide +kernel
  obtain ⟨hrank, horder⟩ := no_overtaking threeSlots _ hreached
  exact ⟨hrank 0 _ rfl (Directory.has_iff.mp hpresent),
    horder 0 1 _ _ rfl rfl hlater (Directory.has_iff.mp hfirst) _ (Directory.has_iff.mp hsecond)
      rfl rfl rfl⟩

end Booley.JobSlots
