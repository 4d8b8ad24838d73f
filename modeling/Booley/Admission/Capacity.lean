import Booley.Admission.Occupancy

/-!
# Host-wide capacity

Running Sandboxes and unconsumed claims stay within `max_sessions` over every order of admission
calls and Docker's steps in which no call comes between the creation of a claimed container and
its first start. A call in between drops the claim, and the start that follows exceeds the limit.
-/
namespace Booley.Admission

open Booley.Lib

section

variable [ProjectLabels] {maxSessions : Nat} {world next : World} {host after : Host}
variable {claim : PendingStartClaim} {item : Sandbox} {event : Event}

/-! ## What the calls leave -/

/-- A host whose claims were reconciled with its Sandboxes. -/
def reconciledHost (host : Host) : Host := { host with claims := unconsumedClaims host }

/-- A start is admitted while a slot is free, unless it is already made. -/
theorem Consistent.admitStart_spec (h : Consistent host) {root targetName : String}
    {outcome : Except AdmissionError Unit}
    (hadmitted : admitStart maxSessions host root targetName = (after, outcome)) :
    (after = host ∨ after = reconciledHost host) ∧
      (outcome = .ok () → after = reconciledHost host ∧
        ((∃ live ∈ host.inventory, live.name = targetName) ∨
          host.inventory.length + (unconsumedClaims host).length < maxSessions)) := by
  unfold admitStart at hadmitted
  cases hfound : admissionSnapshot host root [] with
  | error refusal =>
    rw [hfound] at hadmitted
    obtain ⟨rfl, rfl⟩ := Prod.mk.inj hadmitted
    refine ⟨.inl rfl, ?_⟩
    intro hok
    cases hok
  | ok found =>
    rw [hfound] at hadmitted
    obtain ⟨hlive, hclaims, -⟩ := h.snapshot_spec hfound
    obtain ⟨hafter, houtcome⟩ := Prod.mk.inj hadmitted
    obtain rfl : reconciledHost host = after := by
      rw [← hafter, hclaims]
      rfl
    refine ⟨.inr rfl, fun hok => ⟨rfl, ?_⟩⟩
    rw [hok] at houtcome
    rw [← hlive, ← hclaims]
    by_cases hrunning : found.live.any (·.name == targetName) = true
    · left
      simpa using hrunning
    · right
      by_contra hfull
      rw [if_neg hrunning, if_pos (by omega)] at houtcome
      cases houtcome

/-- A claim is made while a slot is free and no editor Sandbox of its Project runs. -/
theorem Consistent.claimVscodeStart_spec (h : Consistent host) {root : String}
    {outcome : Except AdmissionError Bool}
    (hclaim : claimVscodeStart maxSessions host root = (after, outcome)) :
    after = host ∧ (∃ refusal, outcome = .error refusal) ∨ after = reconciledHost host ∨
      ∃ made : PendingStartClaim, made.projectRoot = root ∧ made.claimedAt = host.clock ∧
        (∀ id token, made.baseline.lookup id = some token → ∃ item ∈ host.sandboxes,
          item.containerId = id ∧ item.startedAt = token) ∧
        (∀ item ∈ host.sandboxes, item.vscode = true → item.projectRoot = root →
          item.running = false ∧
            made.baseline.lookup item.containerId = some item.startedAt) ∧
        (∀ other ∈ unconsumedClaims host, other.projectRoot ≠ root) ∧
        host.inventory.length + (unconsumedClaims host).length < maxSessions ∧
        after = { host with claims := unconsumedClaims host ++ [made] } := by
  unfold claimVscodeStart at hclaim
  cases hfound : admissionSnapshot host root [root] with
  | error refusal =>
    rw [hfound] at hclaim
    obtain ⟨rfl, rfl⟩ := Prod.mk.inj hclaim
    exact .inl ⟨rfl, _, rfl⟩
  | ok found =>
    rw [hfound] at hclaim
    obtain ⟨hlive, hclaims, hcandidates⟩ := h.snapshot_spec hfound
    right
    have hreconciled : { host with claims := found.claims } = reconciledHost host := by
      rw [hclaims]
      rfl
    dsimp only at hclaim
    rw [hreconciled] at hclaim
    cases hproject : projectVscodeSandboxes root found.candidates with
    | error refusal =>
      rw [hproject] at hclaim
      exact .inl (Prod.mk.inj hclaim).1.symm
    | ok sandboxes =>
      rw [hproject] at hclaim
      dsimp only at hclaim
      split at hclaim
      · exact .inl (Prod.mk.inj hclaim).1.symm
      split at hclaim
      · exact .inl (Prod.mk.inj hclaim).1.symm
      split at hclaim
      · exact .inl (Prod.mk.inj hclaim).1.symm
      rename_i hidle hunclaimed hfree
      right
      -- The editor Sandboxes of the Project, as the candidates hold them.
      have hsandboxes : ∀ item, item ∈ sandboxes ↔
          item ∈ host.sandboxes ∧ item.vscode = true ∧ item.projectRoot = root := by
        intro item
        unfold projectVscodeSandboxes at hproject
        split at hproject
        · cases hproject
        · cases hproject
          rw [hcandidates, h.mem_applicable_candidatesOf (by simp), mem_applicable]
      have hlookup : ∀ id, (baselineOf sandboxes).lookup id =
          (sandboxes.reverse.find? (·.containerId = id)).map startedToken := by
        intro id
        rw [baselineOf, Dict.lookup_foldl_insert, AList.lookup_empty, Option.or_none]
      refine ⟨⟨root, host.clock, baselineOf sandboxes⟩, rfl, rfl, ?_, ?_, ?_, ?_, ?_⟩
      · intro id token htoken
        rw [hlookup] at htoken
        obtain ⟨item, hitem, rfl⟩ := Option.map_eq_some_iff.mp htoken
        have hmem := (hsandboxes item).mp (by simpa using List.mem_of_find?_eq_some hitem)
        exact ⟨item, hmem.1, by simpa using List.find?_some hitem, rfl⟩
      · intro item hitem hvscode hroot
        have hmem := (hsandboxes item).mpr ⟨hitem, hvscode, hroot⟩
        constructor
        · cases hrunning : item.running with
          | false => rfl
          | true => exact absurd (List.any_eq_true.mpr ⟨item, hmem, hrunning⟩) hidle
        · rw [hlookup]
          cases hfind : sandboxes.reverse.find? (·.containerId = item.containerId) with
          | none =>
            have hnone := List.find?_eq_none.mp hfind item (by simpa using hmem)
            simp at hnone
          | some held =>
            have hheld := (hsandboxes held).mp (by simpa using List.mem_of_find?_eq_some hfind)
            have hid : held.containerId = item.containerId := by simpa using List.find?_some hfind
            obtain rfl := eq_of_key h.ids hheld.1 hitem hid
            rfl
      · intro other hother heq
        apply hunclaimed
        rw [hclaims]
        exact List.any_eq_true.mpr ⟨other, hother, by simpa using heq⟩
      · rw [← hlive, ← hclaims]
        omega
      · rw [← (Prod.mk.inj hclaim).1, ← hclaims]
        have hkept : removeKey (·.projectRoot) root found.claims = found.claims := by
          apply List.filter_eq_self.mpr
          intro other hother
          by_contra heq
          apply hunclaimed
          exact List.any_eq_true.mpr ⟨other, hother, by simpa using heq⟩
        rw [writeClaim, hkept]

/-! ## Slots after a call -/

/-- Unconsumed claims are among those that hold a slot. -/
theorem Consistent.length_unconsumedClaims_le (h : Consistent host) :
    (unconsumedClaims host).length ≤ openClaims host := by
  rw [unconsumedClaims, ← List.countP_eq_length_filter]
  apply List.countP_mono_left
  intro claim hclaim hunconsumed
  cases hrunning : runningEditor host.sandboxes claim.projectRoot with
  | false => rfl
  | true =>
    obtain ⟨item, hitem, hvscode, hruns, hroot⟩ := runningEditor_iff.mp hrunning
    have hsince := h.startedSince_of_running hclaim hitem hvscode hroot hruns
    rw [h.isConsumed_of_startedSince hclaim hsince] at hunconsumed
    cases hunconsumed

omit [ProjectLabels] in
theorem length_inventory : host.inventory.length = host.sandboxes.countP (·.running) := by
  rw [Host.inventory, List.countP_eq_length_filter]

theorem Consistent.counted_le_heldSlots (h : Consistent host) :
    host.inventory.length + (unconsumedClaims host).length ≤ heldSlots host := by
  have hclaims := h.length_unconsumedClaims_le
  rw [length_inventory, heldSlots]
  omega

/-- Reconciled, a host holds the slots a call counts. -/
theorem heldSlots_reconciledHost_le :
    heldSlots (reconciledHost host) ≤
      host.inventory.length + (unconsumedClaims host).length := by
  have hopen : openClaims (reconciledHost host) ≤ (unconsumedClaims host).length :=
    List.countP_le_length
  rw [length_inventory, heldSlots]
  simp only [reconciledHost] at hopen ⊢
  omega

theorem Consistent.reconciledHost (h : Consistent host) : Consistent (reconciledHost host) :=
  h.withClaims List.filter_sublist

/-! ## The invariant -/

/-- What every step of an undisturbed run keeps. -/
structure WithinCapacity (maxSessions : Nat) (world : World) : Prop where
  consistent : Consistent world.host
  awaited : Awaited world
  held : heldSlots world.host ≤ maxSessions

/-- A claim no start followed stays with its Project. -/
theorem WithinCapacity.awaited_reconciledHost (h : WithinCapacity maxSessions world)
    (hcreations : CreationsStarted world.host) :
    Awaited { world with host := reconciledHost world.host } := by
  intro root hroot
  obtain ⟨claim, hclaim, hproject, hsince⟩ := h.awaited root hroot
  refine ⟨claim, List.mem_filter.mpr ⟨hclaim, ?_⟩, hproject, hsince⟩
  cases hconsumed : isConsumed world.host.sandboxes claim with
  | false => rfl
  | true =>
    exact absurd (h.consistent.startedSince_of_isConsumed hclaim hcreations hconsumed) hsince

theorem WithinCapacity.reconciled (h : WithinCapacity maxSessions world)
    (hcreations : CreationsStarted world.host) :
    WithinCapacity maxSessions { world with host := reconciledHost world.host } where
  consistent := h.consistent.reconciledHost
  awaited := h.awaited_reconciledHost hcreations
  held := by
    have hcounted := h.consistent.counted_le_heldSlots
    have hreconciled := @heldSlots_reconciledHost_le _ world.host
    have hheld := h.held
    simp only
    omega

/-- Admission leaves the host as it was or with its claims reconciled. -/
theorem WithinCapacity.admitted (h : WithinCapacity maxSessions world)
    (hcreations : CreationsStarted world.host)
    (hafter : after = world.host ∨ after = reconciledHost world.host) :
    WithinCapacity maxSessions { world with host := after } := by
  rcases hafter with rfl | rfl
  · exact h
  · exact h.reconciled hcreations

/-- A headless start takes the slot that admission found free. -/
theorem WithinCapacity.startHeadless (h : WithinCapacity maxSessions world)
    (hfree : heldSlots world.host < maxSessions) (hitem : item ∈ world.host.sandboxes)
    (hheadless : item.vscode = false) :
    WithinCapacity maxSessions { world with host := world.host.start item.containerId } where
  consistent := h.consistent.start item.containerId
  awaited := by
    intro root hroot
    obtain ⟨claim, hclaim, hproject, hsince⟩ := h.awaited root hroot
    refine ⟨claim, hclaim, hproject, fun hstarted => ?_⟩
    rcases startedSince_start hstarted with hbefore | ⟨held, hheld, hid, hvscode, -⟩
    · exact hsince hbefore
    · obtain rfl := eq_of_key h.consistent.ids hheld hitem hid
      rw [hheadless] at hvscode
      cases hvscode
  held := by
    have hstart := heldSlots_start h.consistent.ids hitem
    simp only
    omega

theorem WithinCapacity.create (h : WithinCapacity maxSessions world)
    (hfresh : ∀ held ∈ world.host.sandboxes, held.containerId ≠ item.containerId)
    (hidentity : item.vscode = true → validIdentity item item.projectRoot = true) :
    WithinCapacity maxSessions { world with host := world.host.create item } where
  consistent := h.consistent.create hfresh hidentity
  awaited := by
    intro root hroot
    obtain ⟨claim, hclaim, hproject, hsince⟩ := h.awaited root hroot
    exact ⟨claim, hclaim, hproject, fun hstarted => hsince (startedSince_create hstarted)⟩
  held := by
    rw [heldSlots_create]
    exact h.held

/-- The start a claim was made for takes the slot of the claim. -/
theorem WithinCapacity.startClaimed (h : WithinCapacity maxSessions world)
    (hitem : item ∈ world.host.sandboxes) (hvscode : item.vscode = true)
    (hawaits : item.projectRoot ∈ world.awaiting) :
    WithinCapacity maxSessions
      ⟨world.host.start item.containerId, world.awaiting.filter (· != item.projectRoot)⟩ where
  consistent := h.consistent.start item.containerId
  awaited := by
    intro root hroot
    obtain ⟨hmem, hother⟩ := List.mem_filter.mp hroot
    obtain ⟨claim, hclaim, hproject, hsince⟩ := h.awaited root hmem
    refine ⟨claim, hclaim, hproject, fun hstarted => ?_⟩
    rcases startedSince_start hstarted with hbefore | ⟨held, hheld, hid, -, hown⟩
    · exact hsince hbefore
    · obtain rfl := eq_of_key h.consistent.ids hheld hitem hid
      rw [hown, hproject] at hother
      simp at hother
  held := by
    obtain ⟨claim, hclaim, hproject, hsince⟩ := h.awaited item.projectRoot hawaits
    have hidle : runningEditor world.host.sandboxes item.projectRoot = false := by
      cases hrunning : runningEditor world.host.sandboxes item.projectRoot with
      | false => rfl
      | true =>
        obtain ⟨held, hheld, hkind, hruns, hroot⟩ := runningEditor_iff.mp hrunning
        exact absurd (h.consistent.startedSince_of_running hclaim hheld hkind
          (hroot.trans hproject.symm) hruns) hsince
    exact Nat.le_trans
      (heldSlots_start_claimed h.consistent.ids hitem hvscode hclaim hproject hidle) h.held

theorem WithinCapacity.stop (h : WithinCapacity maxSessions world)
    (hitem : item ∈ world.host.sandboxes) :
    WithinCapacity maxSessions { world with host := world.host.stop item.containerId } where
  consistent := h.consistent.stop item.containerId
  awaited := by
    intro root hroot
    obtain ⟨claim, hclaim, hproject, hsince⟩ := h.awaited root hroot
    exact ⟨claim, hclaim, hproject, fun hstarted => hsince (startedSince_stop hstarted)⟩
  held := Nat.le_trans (heldSlots_stop h.consistent.ids h.consistent.roots hitem) h.held

/-- A restart keeps the slot of a running Sandbox, which no awaited claim belongs to. -/
theorem WithinCapacity.restart (h : WithinCapacity maxSessions world)
    (hitem : item ∈ world.host.sandboxes) (hrunning : item.running = true) :
    WithinCapacity maxSessions { world with host := world.host.start item.containerId } where
  consistent := h.consistent.start item.containerId
  awaited := by
    intro root hroot
    obtain ⟨claim, hclaim, hproject, hsince⟩ := h.awaited root hroot
    refine ⟨claim, hclaim, hproject, fun hstarted => ?_⟩
    rcases startedSince_start hstarted with hbefore | ⟨held, hheld, hid, hvscode, hown⟩
    · exact hsince hbefore
    · obtain rfl := eq_of_key h.consistent.ids hheld hitem hid
      exact hsince (h.consistent.startedSince_of_running hclaim hheld hvscode hown hrunning)
  held := by
    have hstart := heldSlots_start h.consistent.ids hitem
    have hheld := h.held
    rw [hrunning, Bool.toNat_true] at hstart
    simp only
    omega

theorem WithinCapacity.remove (h : WithinCapacity maxSessions world)
    (hitem : item ∈ world.host.sandboxes) :
    WithinCapacity maxSessions { world with host := world.host.remove item.containerId } where
  consistent := h.consistent.remove item.containerId
  awaited := by
    intro root hroot
    obtain ⟨claim, hclaim, hproject, hsince⟩ := h.awaited root hroot
    exact ⟨claim, hclaim, hproject, fun hstarted => hsince (startedSince_remove hstarted)⟩
  held := Nat.le_trans (heldSlots_remove h.consistent.ids h.consistent.roots hitem) h.held

theorem WithinCapacity.clear (h : WithinCapacity maxSessions world) (root : String) :
    WithinCapacity maxSessions
      ⟨(clearVscodeClaim world.host root).1, world.awaiting.filter (· != root)⟩ where
  consistent := h.consistent.withClaims List.filter_sublist
  awaited := by
    intro other hother
    obtain ⟨hmem, hne⟩ := List.mem_filter.mp hother
    obtain ⟨claim, hclaim, hproject, hsince⟩ := h.awaited other hmem
    refine ⟨claim, mem_removeKey.mpr ⟨hclaim, ?_⟩, hproject, hsince⟩
    rw [hproject]
    simpa using hne
  held := by
    have hopen : openClaims (clearVscodeClaim world.host root).1 ≤ openClaims world.host :=
      List.Sublist.countP_le List.filter_sublist
    have hheld := h.held
    simp only [heldSlots] at hheld ⊢
    simp only [clearVscodeClaim] at hopen ⊢
    omega

theorem Consistent.addClaim (h : Consistent host) {made : PendingStartClaim}
    (hclock : made.claimedAt = host.clock)
    (hseen : ∀ id token, made.baseline.lookup id = some token → ∃ item ∈ host.sandboxes,
      item.containerId = id ∧ item.startedAt = token)
    (hbaseline : ∀ item ∈ host.sandboxes, item.vscode = true →
      item.projectRoot = made.projectRoot → item.running = false ∧
        made.baseline.lookup item.containerId = some item.startedAt)
    (hnew : ∀ other ∈ host.claims, other.projectRoot ≠ made.projectRoot) :
    Consistent { host with claims := host.claims ++ [made] } :=
  { h with
    roots := by
      simp only [List.map_append, List.map_cons, List.map_nil]
      refine List.nodup_append.mpr ⟨h.roots, List.nodup_singleton _, ?_⟩
      intro root hroot other hother
      obtain ⟨claim, hclaim, rfl⟩ := List.mem_map.mp hroot
      rw [List.mem_singleton.mp hother]
      exact hnew claim hclaim
    made := by
      intro claim hclaim
      rcases List.mem_append.mp hclaim with hheld | hlast
      · exact h.made claim hheld
      · obtain rfl := List.mem_singleton.mp hlast
        exact Nat.le_of_eq hclock
    seen := by
      intro claim hclaim id time hlookup
      rcases List.mem_append.mp hclaim with hheld | hlast
      · exact h.seen claim hheld id time hlookup
      · obtain rfl := List.mem_singleton.mp hlast
        obtain ⟨item, hitem, -, hstarted⟩ := hseen id (some time) hlookup
        have hlt := h.past item hitem time hstarted
        omega
    before := by
      intro claim hclaim item hitem hvscode hroot time htime hlt
      rcases List.mem_append.mp hclaim with hheld | hlast
      · exact h.before claim hheld item hitem hvscode hroot time htime hlt
      · obtain rfl := List.mem_singleton.mp hlast
        obtain ⟨hidle, hlookup⟩ := hbaseline item hitem hvscode hroot
        exact ⟨hidle, by rw [hlookup, htime]⟩ }

omit [ProjectLabels] in
theorem mem_awaitingAfter {awaiting : List String} {root other : String}
    {outcome : Except AdmissionError Bool} (h : other ∈ awaitingAfter awaiting root host outcome) :
    other ∈ awaiting ∨ other = root ∧ ∃ claim ∈ host.claims, claim.projectRoot = root := by
  unfold awaitingAfter at h
  cases outcome with
  | error refusal => exact .inl h
  | ok made =>
    by_cases hclaimed : host.claims.any (·.projectRoot == root) = true
    · simp only [hclaimed, if_true] at h
      rcases List.mem_cons.mp h with rfl | hmem
      · exact .inr ⟨rfl, by simpa using hclaimed⟩
      · exact .inl hmem
    · simp only [hclaimed] at h
      exact .inl h

/-- A claim takes the slot that the call found free. -/
theorem WithinCapacity.claimed (h : WithinCapacity maxSessions world)
    (hcreations : CreationsStarted world.host) {root : String}
    {outcome : Except AdmissionError Bool}
    (hclaim : claimVscodeStart maxSessions world.host root = (after, outcome)) :
    WithinCapacity maxSessions ⟨after, awaitingAfter world.awaiting root after outcome⟩ := by
  have hreconciled := h.reconciled hcreations
  -- A claim that reconciliation leaves was not followed by a start.
  have hunfollowed : ∀ claim ∈ unconsumedClaims world.host, ¬ StartedSince world.host claim := by
    intro claim hclaim hsince
    obtain ⟨hmem, hunconsumed⟩ := List.mem_filter.mp hclaim
    rw [h.consistent.isConsumed_of_startedSince hmem hsince] at hunconsumed
    cases hunconsumed
  rcases h.consistent.claimVscodeStart_spec hclaim with
    ⟨rfl, refusal, rfl⟩ | rfl | ⟨made, rfl, hclock, hseen, hbaseline, hnew, hfree, rfl⟩
  · exact h
  · refine ⟨hreconciled.consistent, ?_, hreconciled.held⟩
    intro other hother
    rcases mem_awaitingAfter hother with hmem | ⟨rfl, claim, hmem, hproject⟩
    · exact hreconciled.awaited other hmem
    · exact ⟨claim, hmem, hproject, hunfollowed claim hmem⟩
  · refine ⟨?_, ?_, ?_⟩
    · have hadded := hreconciled.consistent.addClaim hclock hseen hbaseline hnew
      exact hadded
    · intro other hother
      rcases mem_awaitingAfter hother with hmem | ⟨rfl, -⟩
      · obtain ⟨claim, hclaim, hproject, hsince⟩ := hreconciled.awaited other hmem
        exact ⟨claim, List.mem_append_left _ hclaim, hproject, hsince⟩
      · refine ⟨made, by simp, rfl, ?_⟩
        rintro ⟨item, hitem, -, -, time, htime, hle⟩
        have hlt := h.consistent.past item hitem time htime
        omega
    · have hopen : openClaims
          { world.host with claims := unconsumedClaims world.host ++ [made] } ≤
            (unconsumedClaims world.host ++ [made]).length := List.countP_le_length
      rw [List.length_append, List.length_singleton] at hopen
      rw [length_inventory] at hfree
      dsimp only at hopen
      simp only [heldSlots]
      omega

/-- One step: a slot is taken only when an admission call found it free or a claim held it. -/
theorem WithinCapacity.step (h : WithinCapacity maxSessions world)
    (hundisturbed : Undisturbed world event) (hstep : Step maxSessions world event next) :
    WithinCapacity maxSessions next := by
  cases hstep with
  | admission hadmitted =>
    exact h.admitted (hundisturbed rfl) (h.consistent.admitStart_spec hadmitted).1
  | @resume root host item hadmitted hlive hitem hheadless =>
    obtain ⟨rfl, hfree⟩ := (h.consistent.admitStart_spec hadmitted).2 rfl
    have hreconciled := h.reconciled (hundisturbed rfl)
    rcases hfree with ⟨live, hmem, hname⟩ | hfree
    · exact absurd hname (hlive live hmem)
    · have hcounted := @heldSlots_reconciledHost_le _ world.host
      exact hreconciled.startHeadless (by simp only; omega) hitem hheadless
  | @launch root host item hadmitted hlive hfresh hheadless =>
    obtain ⟨rfl, hfree⟩ := (h.consistent.admitStart_spec hadmitted).2 rfl
    have hreconciled := h.reconciled (hundisturbed rfl)
    rcases hfree with ⟨live, hmem, hname⟩ | hfree
    · exact absurd hname (hlive live hmem)
    · have hcounted := @heldSlots_reconciledHost_le _ world.host
      have hcreated := hreconciled.create hfresh fun hvscode => by
        rw [hheadless] at hvscode
        cases hvscode
      have hslots := @heldSlots_create (reconciledHost world.host) item
      have hmem : { item with running := false, startedAt := none } ∈
          ((reconciledHost world.host).create item).sandboxes := mem_create.mpr (.inr rfl)
      have hstarted := hcreated.startHeadless (by simp only; omega) hmem hheadless
      exact hstarted
  | claim hclaim => exact h.claimed (hundisturbed rfl) hclaim
  | clear => exact h.clear _
  | create hawaits hfresh hidentity hvscode => exact h.create hfresh fun _ => hidentity
  | start hitem hstopped hvscode hawaits => exact h.startClaimed hitem hvscode hawaits
  | stop hitem => exact h.stop hitem
  | restart hitem hrunning => exact h.restart hitem hrunning
  | remove hitem => exact h.remove hitem

/-! ## Runs -/

/-- Where a run may begin: claims made of what Docker held, each unconsumed or with an editor
Sandbox of its Project running, and no more Sandboxes and unconsumed claims than slots. -/
structure Start (maxSessions : Nat) (world : World) : Prop where
  consistent : Consistent world.host
  awaited : Awaited world
  reconciled : ∀ claim ∈ world.host.claims, isConsumed world.host.sandboxes claim = true →
    runningEditor world.host.sandboxes claim.projectRoot = true
  within : world.host.inventory.length + (unconsumedClaims world.host).length ≤ maxSessions

theorem Start.withinCapacity (h : Start maxSessions world) :
    WithinCapacity maxSessions world := by
  refine ⟨h.consistent, h.awaited, ?_⟩
  have hopen : openClaims world.host ≤ (unconsumedClaims world.host).length := by
    rw [openClaims, unconsumedClaims, ← List.countP_eq_length_filter]
    apply List.countP_mono_left
    intro claim hclaim hidle
    cases hconsumed : isConsumed world.host.sandboxes claim with
    | false => rfl
    | true =>
      rw [h.reconciled claim hclaim hconsumed] at hidle
      cases hidle
  have hwithin := h.within
  rw [length_inventory] at hwithin
  rw [heldSlots]
  omega

/-- A snapshot of a consistent host is never refused. -/
theorem Consistent.exists_snapshot (h : Consistent host) (root : String) (extra : List String) :
    ∃ found, admissionSnapshot host root extra = .ok found := by
  have hnone : ∀ root, mismatches
      (candidatesOf host (host.claims.map (·.projectRoot) ++ extra)) root = [] :=
    h.mismatches_eq_nil fun item hitem => (h.mem_candidatesOf.mp hitem).1
  have hreconcile : ∀ claims, ∃ reconciled, reconcileClaims
      (candidatesOf host (host.claims.map (·.projectRoot) ++ extra)) root claims =
        .ok reconciled := by
    intro claims
    induction claims with
    | nil => exact ⟨_, rfl⟩
    | cons claim rest ih =>
      obtain ⟨later, hlater⟩ := ih
      simp only [reconcileClaims, hnone, List.head?_nil, hlater, except_ok_bind]
      split
      · contradiction
      · split
        · exact ⟨_, rfl⟩
        · exact ⟨_, rfl⟩
  obtain ⟨reconciled, hreconciled⟩ := hreconcile host.claims
  have hproject : projectVscodeSandboxes root
      (candidatesOf host (host.claims.map (·.projectRoot) ++ extra)) =
        .ok (applicable (candidatesOf host (host.claims.map (·.projectRoot) ++ extra)) root) := by
    simp only [projectVscodeSandboxes, hnone, List.head?_nil]
  unfold candidatesOf at hreconciled hproject
  simp only [admissionSnapshot, hproject, hreconciled, except_ok_bind]
  exact ⟨_, rfl⟩

/-- What an admission call drops was followed by a start. -/
theorem Consistent.startedSince_of_dropped (h : Consistent host)
    (hcreations : CreationsStarted host) (hclaim : claim ∈ host.claims)
    (hdropped : claim ∉ unconsumedClaims host) : StartedSince host claim := by
  apply h.startedSince_of_isConsumed hclaim hcreations
  by_contra hunconsumed
  exact hdropped (List.mem_filter.mpr ⟨hclaim, by simpa using hunconsumed⟩)

theorem Consistent.startedSince_of_step (h : Consistent world.host)
    (hundisturbed : Undisturbed world event) (hstep : Step maxSessions world event next)
    (hcall : event.reconciles = true) (hclaim : claim ∈ world.host.claims)
    (hdropped : claim ∉ next.host.claims) : StartedSince world.host claim := by
  have hcreations := hundisturbed hcall
  cases hstep with
  | admission hadmitted =>
    rcases (h.admitStart_spec hadmitted).1 with rfl | rfl
    · exact absurd hclaim hdropped
    · exact h.startedSince_of_dropped hcreations hclaim hdropped
  | resume hadmitted hlive hitem hheadless =>
    obtain ⟨rfl, -⟩ := (h.admitStart_spec hadmitted).2 rfl
    exact h.startedSince_of_dropped hcreations hclaim hdropped
  | launch hadmitted hlive hfresh hheadless =>
    obtain ⟨rfl, -⟩ := (h.admitStart_spec hadmitted).2 rfl
    exact h.startedSince_of_dropped hcreations hclaim hdropped
  | claim hmade =>
    rcases h.claimVscodeStart_spec hmade with
      ⟨rfl, -⟩ | rfl | ⟨made, -, -, -, -, -, -, rfl⟩
    · exact absurd hclaim hdropped
    · exact h.startedSince_of_dropped hcreations hclaim hdropped
    · exact h.startedSince_of_dropped hcreations hclaim
        fun hmem => hdropped (List.mem_append_left _ hmem)
  | clear => cases hcall
  | create => cases hcall
  | start => cases hcall
  | stop => cases hcall
  | restart => cases hcall
  | remove => cases hcall

/-- Wherever an undisturbed run leads, running Sandboxes and unconsumed claims are within the
limit, a call that comes undisturbed drops only claims a start followed, and a call counts each
running Sandbox once and no claim that a start followed. -/
theorem capacity_kept {start : World} (hstart : Start maxSessions start)
    (hrun : Reaches (Step maxSessions) Undisturbed start world) :
    world.host.inventory.length + (unconsumedClaims world.host).length ≤ maxSessions ∧
      (∀ event next, Undisturbed world event → Step maxSessions world event next →
        event.reconciles = true → ∀ claim ∈ world.host.claims, claim ∉ next.host.claims →
          StartedSince world.host claim) ∧
      ∀ root extra, ∃ found, admissionSnapshot world.host root extra = .ok found ∧
        found.live = world.host.inventory ∧ found.live.Nodup ∧
        ∀ claim ∈ world.host.claims, StartedSince world.host claim → claim ∉ found.claims := by
  have hworld : WithinCapacity maxSessions world :=
    hrun.keeps hstart.withinCapacity fun _ _ _ h hmeets hstep => h.step hmeets hstep
  have hconsistent := hworld.consistent
  refine ⟨Nat.le_trans hconsistent.counted_le_heldSlots hworld.held, ?_, ?_⟩
  · intro event next hundisturbed hstep hcall claim hclaim hdropped
    exact hconsistent.startedSince_of_step hundisturbed hstep hcall hclaim hdropped
  · intro root extra
    obtain ⟨found, hfound⟩ := hconsistent.exists_snapshot root extra
    obtain ⟨hlive, hclaims, -⟩ := hconsistent.snapshot_spec hfound
    refine ⟨found, hfound, hlive, ?_, ?_⟩
    · rw [hlive]
      exact (List.Nodup.of_map _ hconsistent.ids).filter _
    · intro claim hclaim hsince hmem
      rw [hclaims] at hmem
      have hunconsumed := (List.mem_filter.mp hmem).2
      rw [hconsistent.isConsumed_of_startedSince hclaim hsince] at hunconsumed
      cases hunconsumed

end

/-! ## A claim dropped before its start -/

section Disturbed

/-- A digest for hosts whose labels are the roots themselves. -/
local instance : ProjectLabels := ⟨id⟩

def editor (started : Option Nat) : Sandbox :=
  ⟨"editor-id", "editor", "/a", some "/a", started, started.isSome, true⟩

def headless (started : Option Nat) : Sandbox :=
  ⟨"headless-id", "headless", "/b", some "/b", started, started.isSome, false⟩

def idleWorld : World := ⟨⟨[], [], 0⟩, []⟩

def claimedWorld : World := ⟨⟨[], [⟨"/a", 0, ∅⟩], 0⟩, ["/a"]⟩

/-- VS Code has created the container it claimed, and not started it. -/
def createdWorld : World := ⟨⟨[editor none], [⟨"/a", 0, ∅⟩], 0⟩, ["/a"]⟩

/-- A headless start was admitted in between. -/
def disturbedWorld : World := ⟨⟨[editor none, headless (some 0)], [], 1⟩, ["/a"]⟩

def overfullWorld : World := ⟨⟨[editor (some 1), headless (some 0)], [], 2⟩, []⟩

theorem start_idleWorld (maxSessions : Nat) : Start maxSessions idleWorld where
  consistent :=
    { ids := List.nodup_nil
      past := by simp [idleWorld]
      ran := by simp [idleWorld]
      own := by simp [idleWorld]
      roots := List.nodup_nil
      made := by simp [idleWorld]
      seen := by simp [idleWorld]
      before := by simp [idleWorld] }
  awaited := by
    intro root hroot
    cases hroot
  reconciled := by simp [idleWorld]
  within := Nat.zero_le _

theorem step_claimedWorld : Step 1 idleWorld (.claim "/a") claimedWorld :=
  .claim (by decide +kernel : claimVscodeStart 1 idleWorld.host "/a" =
    (claimedWorld.host, .ok true))

theorem step_createdWorld : Step 1 claimedWorld (.create (editor none)) createdWorld :=
  .create (by decide) (by simp [claimedWorld]) (by decide +kernel) rfl

theorem step_disturbedWorld :
    Step 1 createdWorld (.admission "/b" "headless") disturbedWorld :=
  .launch (by decide +kernel : admitStart 1 createdWorld.host "/b" (headless none).name =
    (⟨[editor none], [], 0⟩, .ok ())) (by decide +kernel) (by decide +kernel) rfl

theorem step_overfullWorld :
    Step 1 disturbedWorld (.start "editor-id") overfullWorld :=
  .start (by decide : editor none ∈ disturbedWorld.host.sandboxes) rfl rfl (by decide)

/-- A call between the creation of a claimed container and its start drops the claim, and the
start then exceeds the limit. -/
theorem created_container_drops_claim :
    Start 1 idleWorld ∧ Reaches (Step 1) (fun _ _ => True) idleWorld overfullWorld ∧
      1 < overfullWorld.host.inventory.length + (unconsumedClaims overfullWorld.host).length ∧
      ∃ claim ∈ createdWorld.host.claims, claim ∉ disturbedWorld.host.claims ∧
        ¬ StartedSince createdWorld.host claim := by
  refine ⟨start_idleWorld 1, ?_, by decide +kernel, ⟨"/a", 0, ∅⟩, ?_, ?_, ?_⟩
  · exact .step (.step (.step (.step .start trivial step_claimedWorld) trivial step_createdWorld)
      trivial step_disturbedWorld) trivial step_overfullWorld
  · simp [createdWorld]
  · simp [disturbedWorld]
  · rintro ⟨item, hitem, -, -, time, htime, -⟩
    obtain rfl : item = editor none := by simpa [createdWorld] using hitem
    cases htime

/-- The container started with no call in between. -/
def startedWorld : World := ⟨⟨[editor (some 0)], [⟨"/a", 0, ∅⟩], 1⟩, []⟩

theorem step_startedWorld : Step 1 createdWorld (.start "editor-id") startedWorld :=
  .start (by decide : editor none ∈ createdWorld.host.sandboxes) rfl rfl (by decide)

theorem capacity_kept_started :
    startedWorld.host.inventory.length + (unconsumedClaims startedWorld.host).length ≤ 1 ∧
      (∀ event next, Undisturbed startedWorld event → Step 1 startedWorld event next →
        event.reconciles = true → ∀ claim ∈ startedWorld.host.claims,
          claim ∉ next.host.claims → StartedSince startedWorld.host claim) ∧
      ∀ root extra, ∃ found, admissionSnapshot startedWorld.host root extra = .ok found ∧
        found.live = startedWorld.host.inventory ∧ found.live.Nodup ∧
        ∀ claim ∈ startedWorld.host.claims, StartedSince startedWorld.host claim →
          claim ∉ found.claims := by
  refine capacity_kept (start_idleWorld 1) (.step (.step (.step .start ?_ step_claimedWorld) ?_
    step_createdWorld) ?_ step_startedWorld)
  · intro _ claim hclaim
    cases hclaim
  · intro hcall
    cases hcall
  · intro hcall
    cases hcall

end Disturbed

end Booley.Admission
