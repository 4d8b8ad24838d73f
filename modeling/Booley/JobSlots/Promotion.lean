import Booley.JobSlots.Steps

/-!
# Promotions

While a stale gate is unlinked only after its owner's death, the gate excludes a second promotion,
and holders stay within the cap. A second process that has judged the same stale gate unlinks the
gate of a live owner instead, and the cap is exceeded.
-/
namespace Booley.JobSlots

open Booley.Lib

variable {c : JobClass} {dir : Directory} {world next : World} {event : Event} {n m : Nat}
variable {entry : Entry}

/-! ## Conditions on the steps -/

/-- The gate a stale judgement unlinks belongs to a dead owner. -/
def ClearsDeadGate (world : World) (event : Event) : Prop :=
  ∀ n choice entry gate, event = .run n choice → world.phase n = .judged entry →
    world.gate = some gate → world.phase gate.owner = .dead

/-- A holder's file rewritten by another process is still there. -/
def HolderRewritesPresent (world : World) (event : Event) : Prop :=
  ∀ entry, event = .rewrite entry → entry.state = .holder → entry ∈ world.rewrites →
    entry ∈ world.dir

/-! ## Mutual exclusion -/

/-- Whoever is in the gate is the owner of the gate's file. -/
def GateHeld (world : World) : Prop :=
  ∀ n, (world.phase n).inGate = true → ∃ gate, world.gate = some gate ∧ gate.owner = n

theorem GateHeld.alone (h : GateHeld world) (hn : (world.phase n).inGate = true)
    (hm : (world.phase m).inGate = true) : n = m := by
  obtain ⟨gate, hgate, rfl⟩ := h n hn
  obtain ⟨gate', hgate', rfl⟩ := h m hm
  rw [hgate] at hgate'
  cases hgate'
  rfl

/-- A submission other than the one in the gate is outside. -/
theorem GateHeld.outside (h : GateHeld world) (hn : (world.phase n).inGate = true) (hne : m ≠ n) :
    (world.phase m).inGate = false := by
  by_contra hin
  exact hne (h.alone (by simpa using hin) hn)

theorem GateHeld.advance (h : GateHeld world) (choice : Choice)
    (hclears : ClearsDeadGate world (.run n choice)) : GateHeld (advance c world n choice) := by
  have hchange : GateChange world n (JobSlots.advance c world n choice).gate
      ((JobSlots.advance c world n choice).phase n).inGate := advance_gate
  generalize hafter : ((JobSlots.advance c world n choice).phase n).inGate = after at hchange
  generalize hgate : (JobSlots.advance c world n choice).gate = gate at hchange
  intro m hm
  rw [hgate]
  by_cases heq : m = n
  · subst heq
    rw [hafter] at hm
    subst hm
    cases hchange with
    | inside hin => exact h m hin
    | opened hnone => exact ⟨_, rfl, rfl⟩
    | written hin =>
      obtain ⟨gate, hold, howner⟩ := h m hin
      exact ⟨⟨m, true⟩, by simp [hold, howner], rfl⟩
  · rw [advance_phase_other heq] at hm
    cases hchange with
    | outside _ => exact h m hm
    | inside hin => exact h m hm
    | opened hnone =>
      obtain ⟨gate, hold, -⟩ := h m hm
      rw [hnone] at hold
      cases hold
    | written hin => exact absurd (h.alone hm hin) heq
    | left hin => exact absurd (h.alone hm hin) heq
    | cleared hjudged =>
      obtain ⟨gate, hold, rfl⟩ := h m hm
      rw [hclears n choice _ gate rfl hjudged hold] at hm
      cases hm

theorem GateHeld.step (h : GateHeld world) (hclears : ClearsDeadGate world event) :
    GateHeld (step c world event) := by
  by_cases hrun : ∃ n choice, event = .run n choice
  · obtain ⟨n, choice, rfl⟩ := hrun
    exact h.advance choice hclears
  · intro m hm
    rw [step_gate fun n choice heq => hrun ⟨n, choice, heq⟩]
    rcases step_phase (c := c) world event m with hsame | ⟨choice, heq, -⟩ | ⟨-, hdead⟩
    · rw [hsame] at hm
      exact h m hm
    · exact absurd ⟨m, choice, heq⟩ hrun
    · rw [hdead] at hm
      cases hm

theorem Phase.inGate_of_promoting {phase : Phase} (h : phase.promoting = some entry) :
    phase.inGate = true := by
  cases phase <;> simp_all [Phase.promoting, Phase.inGate]

/-! ## Holders stay within the cap -/

/-- A claim being promoted leaves room for itself. -/
structure HoldersKept (c : JobClass) (world : World) : Prop where
  fits : ∀ n, (world.phase n).Fits c n
  gate : GateHeld world
  capped : world.dir.count Directory.isHolder ≤ c.cap
  room : ∀ n entry, (world.phase n).promoting = some entry →
    world.dir.count Directory.isHolder < c.cap

theorem isHolder_eq_false (h : entry.state = .waiter) : Directory.isHolder entry = false := by
  simp [Directory.isHolder, h]

/-- Only a rename adds a holder. -/
theorem count_holders_step (hfits : ∀ n, (world.phase n).Fits c n)
    (hrewrites : HolderRewritesPresent world event) :
    (step c world event).dir.count Directory.isHolder ≤ world.dir.count Directory.isHolder ∨
      ∃ n choice entry, event = .run n choice ∧ world.phase n = .stamped entry ∧
        (step c world event).dir.count Directory.isHolder ≤
          world.dir.count Directory.isHolder + 1 := by
  have hchange := step_dir c world event
  generalize (step c world event).dir = after at hchange ⊢
  cases hchange with
  | same => exact .inl (Nat.le_refl _)
  | linked _ _ _ =>
    exact .inl (Directory.count_put_of fun hholder => by
      rw [isHolder_eq_false rfl] at hholder
      cases hholder)
  | removed entry => exact .inl (Directory.count_unlink_le _)
  | @stamped n _ entry _ _ hphase =>
    have hclaim : c.Claims n entry := by simpa [hphase, Phase.Fits] using hfits n
    exact .inl (Directory.count_put_of fun hholder => by
      rw [isHolder_eq_false hclaim.state] at hholder
      cases hholder)
  | @promoted n choice entry hevent hphase _ =>
    right
    refine ⟨n, choice, entry, hevent, hphase, ?_⟩
    have hunlink : (world.dir.unlink entry).count Directory.isHolder ≤
        world.dir.count Directory.isHolder := Directory.count_unlink_le _
    have hput : ((world.dir.unlink entry).put entry.promoted).count Directory.isHolder ≤
        (world.dir.unlink entry).count Directory.isHolder + 1 := Directory.count_put_le _
    rw [Directory.rename]
    omega
  | @rewritten entry hevent hpending =>
    refine .inl (Directory.count_put_of fun hholder => ?_)
    exact hrewrites entry hevent (by simpa [Directory.isHolder] using hholder) hpending

theorem stamped_leaves {choice : Choice} (h : world.phase n = .stamped entry) :
    ((advance c world n choice).phase n).promoting = none := by
  simp only [advance, h]
  (repeat' split) <;> simp [World.setPhase, Phase.promoting]

theorem HoldersKept.step (h : HoldersKept c world) (hclears : ClearsDeadGate world event)
    (hrewrites : HolderRewritesPresent world event) : HoldersKept c (step c world event) := by
  have hcount := count_holders_step h.fits hrewrites
  refine ⟨step_fits h.fits event, h.gate.step hclears, ?_, ?_⟩
  · rcases hcount with hle | ⟨n, choice, entry, -, hphase, hle⟩
    · exact Nat.le_trans hle h.capped
    · have hroom := h.room n entry (by rw [hphase]; rfl)
      omega
  · intro m claim hm
    rcases hcount with hle | ⟨n, choice, entry, rfl, hphase, hle⟩
    · rcases step_phase (c := c) world event m with hsame | ⟨choice, rfl, hrun⟩ | ⟨-, hdead⟩
      · rw [hsame] at hm
        exact Nat.lt_of_le_of_lt hle (h.room m claim hm)
      · rw [hrun] at hm
        rcases advance_promoting hm with hold | ⟨hphase, hrank, -⟩
        · exact Nat.lt_of_le_of_lt hle (h.room m claim hold)
        · have hclaim : c.Claims m claim := by simpa [hphase, Phase.Fits] using h.fits m
          have hholders : world.dir.count Directory.isHolder ≤ world.dir.rank claim :=
            Directory.holders_le_rank hclaim.state
          omega
      · rw [hdead] at hm
        cases hm
    · -- the renaming claim is alone in the gate, and leaves it
      by_cases heq : m = n
      · subst heq
        rw [JobSlots.step, stamped_leaves hphase] at hm
        cases hm
      · have hold : (world.phase m).promoting = some claim := by
          rwa [JobSlots.step, advance_phase_other heq] at hm
        have hout := h.gate.outside (n := n) (by rw [hphase]; rfl) heq
        rw [Phase.inGate_of_promoting hold] at hout
        cases hout

/-- Cap safety. In every run in which a gate found stale is unlinked only after its owner's death,
and other processes rewrite only holder files that are still there, holders stay within the cap. -/
theorem holders_within_cap (c : JobClass) (dir : Directory)
    (hstart : dir.count Directory.isHolder ≤ c.cap) (world : World)
    (h : Reaches (Step c)
      (fun world event => ClearsDeadGate world event ∧ HolderRewritesPresent world event)
      (start dir) world) :
    world.dir.count Directory.isHolder ≤ c.cap := by
  have hkept : HoldersKept c world := by
    refine h.keeps ⟨fun _ => trivial, ?_, hstart, ?_⟩ ?_
    · intro n hn
      cases hn
    · intro n entry hn
      cases hn
    · intro state event after hkept hmeets hstep
      rw [← hstep]
      exact hkept.step hmeets.1 hmeets.2
  exact hkept.capped

/-! ## Two processes clear one stale gate -/

/-- Two slots; only the last submission is interactive. -/
def twoSlots : JobClass where
  cap := 2
  queueMax := 4
  role n := if n = 3 then .interactive else .background
  pid n := n + 100

/-- A submission's next steps, each taking its ordinary course. -/
def proceeds (n steps : Nat) : List Event := List.replicate steps (.run n .proceed)

/-- The first submission dies in the gate. The next two find the gate stale; the second unlinks
the gate the first has created since, and promotes its claim, and a third follows it. -/
def clearedTwice : List Event :=
  proceeds 0 9 ++ [.crash 0, .reap (twoSlots.waiter 0 1)] ++
    proceeds 1 7 ++ [.run 1 .aged] ++ proceeds 2 7 ++ [.run 2 .aged] ++
    proceeds 1 5 ++ proceeds 2 9 ++ proceeds 3 15 ++ proceeds 1 3

/-- Two judgements of one gate let three claims hold two slots. -/
theorem cleared_gate_exceeds_cap :
    ¬∀ (c : JobClass) (world : World),
      Reaches (Step c) (fun _ _ => True) (start .empty) world →
        world.dir.count Directory.isHolder ≤ c.cap := by
  intro hcap
  have hreached : Reaches (Step twoSlots) (fun _ _ => True) (start .empty)
      (runs twoSlots (start .empty) clearedTwice) :=
    Reaches.foldl (fun _ _ => true) (fun _ _ _ => trivial) .start (by decide +kernel)
  have hle := hcap twoSlots _ hreached
  revert hle
  decide +kernel

/-- A claim promoted alone. -/
theorem holders_within_cap_single :
    (runs twoSlots (start .empty) (proceeds 0 15)).dir.count Directory.isHolder ≤ 2 := by
  have hreached : Reaches (Step twoSlots)
      (fun world event => ClearsDeadGate world event ∧ HolderRewritesPresent world event)
      (start .empty) (runs twoSlots (start .empty) (proceeds 0 15)) := by
    refine Reaches.foldl (fun world event => event == .run 0 .proceed &&
      match world.phase 0 with
      | .judged _ => false
      | _ => true) ?_ .start (by decide +kernel)
    intro world event hevent
    simp only [Bool.and_eq_true, beq_iff_eq] at hevent
    obtain ⟨rfl, hphase⟩ := hevent
    constructor
    · intro n choice entry gate heq hjudged hgate
      cases heq
      rw [hjudged] at hphase
      cases hphase
    · intro entry heq
      cases heq
  exact holders_within_cap twoSlots .empty (by decide) _ hreached

end Booley.JobSlots
