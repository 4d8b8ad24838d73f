import Booley.JobSlots.Store

/-!
# What the steps can change

One lemma for each part of the world: the directory, the gate, the phase of a submission. The
invariants are derived from these and never from the code of a step.
-/
namespace Booley.JobSlots

variable {c : JobClass} {world : World} {n m : Nat} {choice : Choice} {event : Event}
variable {entry : Entry}

/-! ## Phases -/

/-- The submission has created the promotion gate and not yet unlinked it. -/
def Phase.inGate : Phase → Bool
  | .opened _ | .gated _ | .rechecked _ | .eligible _ | .stamping _ | .stamped _ | .leaving _ _ =>
    true
  | _ => false

/-- The claim between its last rank check and its rename. -/
def Phase.promoting : Phase → Option Entry
  | .eligible entry | .stamping entry | .stamped entry => some entry
  | _ => none

/-- The entry of a submission whose `submit` has linked it, with the listing its sequence number
was taken from. -/
def Phase.submitted : Phase → Option (Entry × Directory)
  | .linked entry scan | .withdrawing entry scan | .admitted entry scan _ => some (entry, scan)
  | _ => none

/-- The entry of a submission that waits for its promotion. -/
def Phase.waitsFor : Phase → Option Entry
  | .admitted entry _ _ | .queued entry | .looking entry | .ranked entry | .judged entry
  | .opened entry | .gated entry | .rechecked entry | .eligible entry | .stamping entry
  | .stamped entry | .leaving entry .queued | .leaving entry .lost | .lost entry => some entry
  | _ => none

/-- No entry is linked yet. -/
def Phase.unlinked : Phase → Bool
  | .idle | .counted | .numbered _ _ => true
  | _ => false

/-- The entry is the waiter of this submission. -/
def JobClass.Claims (c : JobClass) (n : Nat) (entry : Entry) : Prop :=
  entry = c.waiter n entry.seq

theorem JobClass.claims_waiter (c : JobClass) (n seq : Nat) : c.Claims n (c.waiter n seq) := rfl

theorem JobClass.Claims.state (h : c.Claims n entry) : entry.state = .waiter := by rw [h]; rfl

theorem JobClass.Claims.number (h : c.Claims n entry) : entry.n = n := by rw [h]; rfl

theorem JobClass.Claims.priority (h : c.Claims n entry) :
    entry.priority = (c.role n).priority := by rw [h]; rfl

/-- A sequence number past those of a listing. -/
def PastAll (seq : Nat) (scan : Directory) : Prop := ∀ x ∈ scan, x.seq < seq

/-- The tokens and numbers a submission holds are its own. -/
def Phase.Fits (c : JobClass) (n : Nat) : Phase → Prop
  | .numbered seq scan => PastAll seq scan
  | .linked entry scan | .withdrawing entry scan | .admitted entry scan _ =>
    c.Claims n entry ∧ PastAll entry.seq scan
  | .queued entry | .looking entry | .ranked entry | .judged entry | .opened entry | .gated entry
  | .rechecked entry | .eligible entry | .stamping entry | .stamped entry | .lost entry =>
    c.Claims n entry
  | .leaving entry .holding | .holding entry =>
    ∃ claim, c.Claims n claim ∧ entry = claim.promoted
  | .leaving entry .queued | .leaving entry .lost => c.Claims n entry
  | .idle | .counted | .refused | .ended | .dead => True

theorem advance_phase_other (h : m ≠ n) : (advance c world n choice).phase m = world.phase m := by
  cases hphase : world.phase n <;> simp only [advance, hphase] <;>
    (repeat' split) <;> simp [World.setPhase, h]

theorem advance_fits (h : (world.phase n).Fits c n) :
    ((advance c world n choice).phase n).Fits c n := by
  cases hphase : world.phase n with
  | counted =>
    simp only [advance, hphase, World.setPhase_same]
    intro x hx
    exact Directory.seq_lt_nextSeq hx
  | numbered seq scan =>
    rw [hphase] at h
    simp only [advance, hphase]
    split
    · split <;> simp [Phase.Fits]
    · have hfits : (Phase.linked (c.waiter n seq) scan).Fits c n := ⟨c.claims_waiter n seq, h⟩
      simpa [World.setPhase] using hfits
  | stamped entry =>
    rw [hphase] at h
    simp only [advance, hphase]
    split
    · split
      · simpa [Phase.Fits] using h
      · simpa [Phase.Fits, World.setPhase] using ⟨entry, h, rfl⟩
    · simpa [Phase.Fits] using h
  | leaving entry state =>
    rw [hphase] at h
    cases state <;> simpa [advance, hphase, Phase.Fits, World.setPhase] using h
  | _ =>
    simp only [hphase, Phase.Fits] at h
    simp only [advance, hphase]
    (repeat' split) <;> simp_all [Phase.Fits, World.setPhase]

theorem waitsFor_claims (h : (world.phase n).waitsFor = some entry)
    (hfits : (world.phase n).Fits c n) : c.Claims n entry := by
  cases hphase : world.phase n with
  | leaving claim state => cases state <;> simp_all [Phase.waitsFor, Phase.Fits]
  | _ => simp_all [Phase.waitsFor, Phase.Fits]

theorem step_phase (world : World) (event : Event) (m : Nat) :
    (step c world event).phase m = world.phase m ∨
      (∃ choice, event = .run m choice ∧
        (step c world event).phase m = (advance c world m choice).phase m) ∨
      event = .crash m ∧ (step c world event).phase m = .dead := by
  cases event with
  | run n choice =>
    by_cases heq : m = n
    · subst heq
      exact .inr (.inl ⟨choice, rfl, rfl⟩)
    · exact .inl (advance_phase_other heq)
  | crash n =>
    by_cases heq : m = n
    · subst heq
      exact .inr (.inr ⟨rfl, by simp [step]⟩)
    · exact .inl (by simp [step, heq])
  | reap entry => exact .inl rfl
  | cancel entry =>
    left
    simp only [step, cancelWaiter]
    split <;> rfl
  | inspect entry =>
    left
    simp only [step]
    split <;> rfl
  | rewrite entry =>
    left
    simp only [step]
    split <;> rfl

/-- In every reached world the submissions hold tokens of their own. -/
theorem step_fits (h : ∀ n, (world.phase n).Fits c n) (event : Event) (m : Nat) :
    ((step c world event).phase m).Fits c m := by
  rcases step_phase (c := c) world event m with hsame | ⟨choice, -, hrun⟩ | ⟨-, hdead⟩
  · rw [hsame]
    exact h m
  · rw [hrun]
    exact advance_fits (h m)
  · rw [hdead]
    trivial

/-! ## The directory -/

/-- What one step leaves of the directory. -/
inductive DirChange (c : JobClass) (world : World) (event : Event) : Directory → Prop
  | same : DirChange c world event world.dir
  | linked {n : Nat} {choice : Choice} {seq : Nat} {scan : Directory}
      (hevent : event = .run n choice) (hphase : world.phase n = .numbered seq scan)
      (hnew : c.waiter n seq ∉ world.dir) :
      DirChange c world event (world.dir.put (c.waiter n seq))
  | removed (entry : Entry) : DirChange c world event (world.dir.unlink entry)
  | stamped {n : Nat} {choice : Choice} {entry : Entry} (hevent : event = .run n choice)
      (hchoice : choice ≠ .fail) (hphase : world.phase n = .stamping entry) :
      DirChange c world event (world.dir.put entry)
  | promoted {n : Nat} {choice : Choice} {entry : Entry} (hevent : event = .run n choice)
      (hphase : world.phase n = .stamped entry) (hmem : entry ∈ world.dir) :
      DirChange c world event (world.dir.rename entry entry.promoted)
  | rewritten {entry : Entry} (hevent : event = .rewrite entry)
      (hpending : entry ∈ world.rewrites) : DirChange c world event (world.dir.put entry)

theorem advance_dir : DirChange c world (.run n choice) (advance c world n choice).dir := by
  cases hphase : world.phase n with
  | numbered seq scan =>
    simp only [advance, hphase]
    split
    · exact .same
    · next hnew => exact .linked rfl hphase (fun hmem => hnew (Directory.has_iff.mpr hmem))
  | stamping entry =>
    simp only [advance, hphase]
    split
    · exact .same
    · next hchoice => exact .stamped rfl hchoice hphase
  | stamped entry =>
    simp only [advance, hphase]
    split
    · next hmem =>
      split
      · exact .same
      · exact .promoted rfl hphase (Directory.has_iff.mp hmem)
    · exact .same
  | _ =>
    simp only [advance, hphase]
    repeat' split
    all_goals first | exact .same | exact .removed _

theorem step_dir (c : JobClass) (world : World) (event : Event) :
    DirChange c world event (step c world event).dir := by
  cases event with
  | run n choice => exact advance_dir
  | crash n => exact .same
  | reap entry => exact .removed entry
  | cancel entry =>
    simp only [step, cancelWaiter]
    split
    · exact .removed entry
    · exact .same
  | inspect entry =>
    simp only [step]
    split <;> exact .same
  | rewrite entry =>
    simp only [step]
    split
    · next hpending => exact .rewritten rfl (by simpa using hpending)
    · exact .same

/-! ## The gate -/

/-- What one step of a submission leaves of the gate, and whether it is in it. -/
inductive GateChange (world : World) (n : Nat) : Option PromotionGate → Bool → Prop
  | outside (h : (world.phase n).inGate = false) : GateChange world n world.gate false
  | inside (h : (world.phase n).inGate = true) : GateChange world n world.gate true
  | opened (h : world.gate = none) : GateChange world n (some ⟨n, false⟩) true
  | written (h : (world.phase n).inGate = true) :
      GateChange world n
        (world.gate.map fun gate => if gate.owner = n then ⟨n, true⟩ else gate) true
  | left (h : (world.phase n).inGate = true) : GateChange world n none false
  /-- the unlink of a gate found stale takes whatever file is there by then -/
  | cleared {entry : Entry} (h : world.phase n = .judged entry) : GateChange world n none false

theorem advance_gate :
    GateChange world n (advance c world n choice).gate
      ((advance c world n choice).phase n).inGate := by
  cases hphase : world.phase n with
  | ranked entry =>
    have hout : GateChange world n world.gate false := .outside (by rw [hphase]; rfl)
    simp only [advance, hphase]
    split
    · simpa [Phase.inGate] using hout
    · split
      · next hgate => simpa [World.setPhase, Phase.inGate] using GateChange.opened hgate
      · split
        · simpa [Phase.inGate] using hout
        · rw [hphase]
          exact hout
  | judged entry =>
    simpa [advance, hphase, World.setPhase, Phase.inGate] using GateChange.cleared hphase
  | opened entry =>
    have hin : (world.phase n).inGate = true := by rw [hphase]; rfl
    simp only [advance, hphase]
    split
    · simpa [World.setPhase, Phase.inGate] using GateChange.left hin
    · simpa [World.setPhase, Phase.inGate] using GateChange.written hin
  | leaving entry state =>
    have hin : (world.phase n).inGate = true := by rw [hphase]; rfl
    cases state <;> simpa [advance, hphase, World.setPhase, Phase.inGate] using GateChange.left hin
  | gated entry | rechecked entry | eligible entry | stamping entry | stamped entry =>
    have hin : (world.phase n).inGate = true := by rw [hphase]; rfl
    simp only [advance, hphase]
    (repeat' split) <;> simpa [World.setPhase, Phase.inGate] using GateChange.inside hin
  | _ =>
    have hout : (world.phase n).inGate = false := by rw [hphase]; rfl
    simp only [advance, hphase]
    (repeat' split) <;> simpa [World.setPhase, Phase.inGate, hphase] using GateChange.outside hout

/-- Only a submission's own step moves the gate. -/
theorem step_gate (h : ∀ n choice, event ≠ .run n choice) :
    (step c world event).gate = world.gate := by
  cases event with
  | run n choice => exact absurd rfl (h n choice)
  | cancel entry =>
    simp only [step, cancelWaiter]
    split <;> rfl
  | inspect entry | rewrite entry =>
    simp only [step]
    split <;> rfl
  | _ => rfl

/-! ## Promotions -/

theorem promoting_claims {phase : Phase} (h : phase.promoting = some entry)
    (hfits : phase.Fits c n) : c.Claims n entry := by
  cases phase <;> simp_all [Phase.promoting, Phase.Fits]

theorem stamped_claims (hphase : world.phase n = .stamped entry)
    (hfits : (world.phase n).Fits c n) : c.Claims n entry :=
  promoting_claims (by rw [hphase]; rfl) hfits

/-- A submission comes to promote its claim by a rank check in the gate that passes. -/
theorem advance_promoting (h : ((advance c world n choice).phase n).promoting = some entry) :
    (world.phase n).promoting = some entry ∨
      world.phase n = .rechecked entry ∧ world.dir.rank entry < c.cap ∧
        (advance c world n choice).dir = world.dir := by
  cases hphase : world.phase n with
  | rechecked claim =>
    simp only [advance, hphase] at h ⊢
    split at h
    · simp [Phase.promoting] at h
    · next hrank =>
      simp only [World.setPhase_same, Phase.promoting, Option.some.injEq] at h
      subst h
      exact .inr ⟨rfl, by omega, by simp [hrank]⟩
  | eligible claim | stamping claim | stamped claim =>
    left
    simp only [advance, hphase] at h
    repeat' split at h
    all_goals simp_all [World.setPhase, Phase.promoting]
  | leaving claim state =>
    cases state <;> simp [advance, hphase, World.setPhase, Phase.promoting] at h
  | _ =>
    simp only [advance, hphase] at h
    repeat' split at h
    all_goals simp_all [World.setPhase, Phase.promoting]

end Booley.JobSlots
