import Booley.JobSlots.Steps

/-!
# Entries that come and go

While every replaced file is still there, an entry appears by its own link or by its own promotion
only: a submission has at most one entry, and one that has gone stays away.
-/
namespace Booley.JobSlots

open Booley.Lib

variable {c : JobClass} {world : World} {event : Event} {n m : Nat} {choice : Choice}
variable {entry x : Entry}

/-- Every replaced file is still there. -/
def ReplacesPresent (world : World) (event : Event) : Prop :=
  (∀ entry, event = .rewrite entry → entry ∈ world.rewrites → entry ∈ world.dir) ∧
    ∀ n choice entry, event = .run n choice → choice ≠ .fail →
      world.phase n = .stamping entry → entry ∈ world.dir

/-- A test of the condition: no pending rewrite or stamp of a missing file. -/
def replacesPresent (world : World) : Event → Bool
  | .rewrite entry => world.dir.has entry
  | .run n _ => match world.phase n with
    | .stamping entry => world.dir.has entry
    | _ => true
  | _ => true

theorem replacesPresent_sound (h : replacesPresent world event = true) :
    ReplacesPresent world event := by
  constructor
  · rintro entry rfl _
    exact Directory.has_iff.mp h
  · rintro n choice entry rfl _ hphase
    simp only [replacesPresent, hphase] at h
    exact Directory.has_iff.mp h

/-- Where an entry of the next directory comes from. -/
inductive Appears (c : JobClass) (world : World) (event : Event) (x : Entry) : Prop
  | kept (h : x ∈ world.dir)
  | linked {n : Nat} {choice : Choice} {seq : Nat} {scan : Directory}
      (hevent : event = .run n choice) (hphase : world.phase n = .numbered seq scan)
      (hx : x = c.waiter n seq)
  | promoted {n : Nat} {choice : Choice} {entry : Entry} (hevent : event = .run n choice)
      (hphase : world.phase n = .stamped entry) (hmem : entry ∈ world.dir)
      (hx : x = entry.promoted)

theorem step_appears (hreplaces : ReplacesPresent world event)
    (hx : x ∈ (step c world event).dir) : Appears c world event x := by
  have hchange := step_dir c world event
  generalize (step c world event).dir = after at hchange hx
  cases hchange with
  | same => exact .kept hx
  | linked hevent hphase _ =>
    rcases Directory.mem_put.mp hx with heq | hmem
    · exact .linked hevent hphase heq
    · exact .kept hmem
  | removed _ => exact .kept (Directory.mem_unlink.mp hx).1
  | stamped hevent hchoice hphase =>
    rcases Directory.mem_put.mp hx with rfl | hmem
    · exact .kept (hreplaces.2 _ _ _ hevent hchoice hphase)
    · exact .kept hmem
  | promoted hevent hphase hpresent =>
    rcases Directory.mem_rename.mp hx with heq | ⟨hmem, -⟩
    · exact .promoted hevent hphase hpresent heq
    · exact .kept hmem
  | rewritten hevent hpending =>
    rcases Directory.mem_put.mp hx with rfl | hmem
    · exact .kept (hreplaces.1 _ hevent hpending)
    · exact .kept hmem

/-- Once past its link a submission never links again. -/
theorem step_unlinked (h : (world.phase n).unlinked = false) :
    ((step c world event).phase n).unlinked = false := by
  rcases step_phase (c := c) world event n with hsame | ⟨choice, -, hrun⟩ | ⟨-, hdead⟩
  · rwa [hsame]
  · rw [hrun]
    cases hphase : world.phase n with
    | idle | counted | numbered seq scan =>
      rw [hphase] at h
      cases h
    | leaving claim state => cases state <;> simp [advance, hphase, World.setPhase, Phase.unlinked]
    | _ =>
      simp only [advance, hphase]
      repeat' split
      all_goals simp [World.setPhase, Phase.unlinked, hphase]
  · rw [hdead]
    rfl

/-- A submission whose waiter a link has added is past its link. -/
theorem linked_unlinked {seq : Nat} {scan : Directory} (hphase : world.phase n = .numbered seq scan)
    (hnew : c.waiter n seq ∉ world.dir) :
    ((step c world (.run n choice)).phase n).unlinked = false := by
  have habsent : world.dir.has (c.waiter n seq) = false := by
    by_contra hhas
    exact hnew (Directory.has_iff.mp (by simpa using hhas))
  simp [step, advance, hphase, habsent, World.setPhase, Phase.unlinked]

/-! ## One entry a submission -/

/-- Entries belong to submissions past their link, one each. -/
structure EntriesKept (c : JobClass) (world : World) : Prop where
  fits : ∀ n, (world.phase n).Fits c n
  linked : ∀ x ∈ world.dir, (world.phase x.n).unlinked = false
  single : ∀ x ∈ world.dir, ∀ y ∈ world.dir, x.n = y.n → x = y

theorem EntriesKept.start (c : JobClass) : EntriesKept c (start .empty) where
  fits _ := trivial
  linked _ hx := absurd hx Directory.not_mem_empty
  single _ hx := absurd hx Directory.not_mem_empty

/-- No entry bears the number of a submission before its link. -/
theorem EntriesKept.number_ne (h : EntriesKept c world) (hn : (world.phase n).unlinked = true)
    (hx : x ∈ world.dir) : x.n ≠ n := by
  rintro rfl
  rw [h.linked x hx] at hn
  cases hn

theorem EntriesKept.linked_step (h : EntriesKept c world)
    (hreplaces : ReplacesPresent world event) (hx : x ∈ (step c world event).dir) :
    ((step c world event).phase x.n).unlinked = false := by
  cases step_appears hreplaces hx with
  | kept hmem => exact step_unlinked (h.linked x hmem)
  | @linked n _ _ _ hevent hphase heq =>
    subst hevent heq
    have hbefore : (world.phase n).unlinked = true := by rw [hphase]; rfl
    exact linked_unlinked hphase fun hmem => h.number_ne hbefore hmem rfl
  | @promoted _ _ entry _ _ hmem heq =>
    subst heq
    have hpast : (world.phase entry.promoted.n).unlinked = false := h.linked entry hmem
    exact step_unlinked hpast

theorem EntriesKept.single_step (h : EntriesKept c world)
    (hreplaces : ReplacesPresent world event) :
    ∀ x ∈ (step c world event).dir, ∀ y ∈ (step c world event).dir, x.n = y.n → x = y := by
  have hchange := step_dir c world event
  generalize (step c world event).dir = after at hchange
  cases hchange with
  | same => exact h.single
  | @linked n _ seq _ _ hphase _ =>
    have hfree : ∀ z ∈ world.dir, z.n ≠ n := fun z hz => h.number_ne (by rw [hphase]; rfl) hz
    intro x hx y hy hnumber
    rcases Directory.mem_put.mp hx with rfl | hx <;> rcases Directory.mem_put.mp hy with rfl | hy
    · rfl
    · exact absurd hnumber.symm (hfree y hy)
    · exact absurd hnumber (hfree x hx)
    · exact h.single x hx y hy hnumber
  | removed entry =>
    intro x hx y hy hnumber
    exact h.single x (Directory.mem_unlink.mp hx).1 y (Directory.mem_unlink.mp hy).1 hnumber
  | @stamped _ _ entry hevent hchoice hphase =>
    have hmem : ∀ z ∈ world.dir.put entry, z ∈ world.dir := by
      intro z hz
      rcases Directory.mem_put.mp hz with rfl | hz
      · exact hreplaces.2 _ _ _ hevent hchoice hphase
      · exact hz
    intro x hx y hy hnumber
    exact h.single x (hmem x hx) y (hmem y hy) hnumber
  | @promoted _ _ entry _ _ hpresent =>
    intro x hx y hy hnumber
    rcases Directory.mem_rename.mp hx with rfl | ⟨hx, hxne⟩ <;>
      rcases Directory.mem_rename.mp hy with rfl | ⟨hy, hyne⟩
    · rfl
    · exact absurd (h.single y hy entry hpresent hnumber.symm) hyne
    · exact absurd (h.single x hx entry hpresent hnumber) hxne
    · exact h.single x hx y hy hnumber
  | @rewritten entry hevent hpending =>
    have hmem : ∀ z ∈ world.dir.put entry, z ∈ world.dir := by
      intro z hz
      rcases Directory.mem_put.mp hz with rfl | hz
      · exact hreplaces.1 _ hevent hpending
      · exact hz
    intro x hx y hy hnumber
    exact h.single x (hmem x hx) y (hmem y hy) hnumber

theorem EntriesKept.step (h : EntriesKept c world) (hreplaces : ReplacesPresent world event) :
    EntriesKept c (step c world event) where
  fits := step_fits h.fits event
  linked _ hx := h.linked_step hreplaces hx
  single := h.single_step hreplaces

end Booley.JobSlots
