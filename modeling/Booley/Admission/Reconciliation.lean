import Booley.Admission.Starts

/-!
# What admission calls do to claims

The worlds whose claims were made of what Docker held before, and what a reconciliation drops
there: a claim whose Project had a Sandbox started since, or created and not started yet.
-/
namespace Booley.Admission

open Booley.Lib

section

variable [ProjectLabels] {maxSessions : Nat} {world next : World} {host : Host}
variable {claim : PendingStartClaim} {item : Sandbox}

/-! ## Consistent worlds -/

/-- Claims that were made of what Docker held, each before the starts that follow it. -/
structure Consistent (host : Host) : Prop where
  ids : (host.sandboxes.map (·.containerId)).Nodup
  past : ∀ item ∈ host.sandboxes, ∀ time, item.startedAt = some time → time < host.clock
  ran : ∀ item ∈ host.sandboxes, item.running = true → item.startedAt ≠ none
  own : ∀ item ∈ host.sandboxes, item.vscode = true → validIdentity item item.projectRoot = true
  roots : (host.claims.map (·.projectRoot)).Nodup
  made : ∀ claim ∈ host.claims, claim.claimedAt ≤ host.clock
  seen : ∀ claim ∈ host.claims, ∀ id time,
    claim.baseline.lookup id = some (some time) → time < claim.claimedAt
  before : ∀ claim ∈ host.claims, ∀ item ∈ host.sandboxes, item.vscode = true →
    item.projectRoot = claim.projectRoot → ∀ time, item.startedAt = some time →
      time < claim.claimedAt →
        item.running = false ∧ claim.baseline.lookup item.containerId = some (some time)

/-- A Project whose start is awaited has a claim that no start followed. -/
def Awaited (world : World) : Prop :=
  ∀ root ∈ world.awaiting, ∃ claim ∈ world.host.claims, claim.projectRoot = root ∧
    ¬ StartedSince world.host claim

omit [ProjectLabels] in
theorem mem_inventory : item ∈ host.inventory ↔ item ∈ host.sandboxes ∧ item.running = true := by
  simp [Host.inventory]

omit [ProjectLabels] in
theorem mem_applicable {sandboxes : List Sandbox} {root : String} :
    item ∈ applicable sandboxes root ↔
      item ∈ sandboxes ∧ item.vscode = true ∧ item.projectRoot = root := by
  simp [applicable]

theorem mem_mismatches {sandboxes : List Sandbox} {root : String} :
    item ∈ mismatches sandboxes root ↔
      item ∈ applicable sandboxes root ∧ validIdentity item root = false := by
  simp [mismatches]

theorem Consistent.mismatches_eq_nil (h : Consistent host) {sandboxes : List Sandbox}
    (hsub : ∀ item ∈ sandboxes, item ∈ host.sandboxes) (root : String) :
    mismatches sandboxes root = [] := by
  apply List.eq_nil_iff_forall_not_mem.mpr
  intro item hitem
  obtain ⟨hmem, hinvalid⟩ := mem_mismatches.mp hitem
  obtain ⟨hheld, hvscode, rfl⟩ := mem_applicable.mp hmem
  rw [h.own item (hsub item hheld) hvscode] at hinvalid
  cases hinvalid

/-- A running editor Sandbox of a claimed Project was started after the claim. -/
theorem Consistent.startedSince_of_running (h : Consistent host) (hclaim : claim ∈ host.claims)
    (hitem : item ∈ host.sandboxes) (hvscode : item.vscode = true)
    (hroot : item.projectRoot = claim.projectRoot) (hrunning : item.running = true) :
    StartedSince host claim := by
  cases hstarted : item.startedAt with
  | none => exact absurd hstarted (h.ran item hitem hrunning)
  | some time =>
    refine ⟨item, hitem, hvscode, hroot, time, hstarted, ?_⟩
    by_contra hbefore
    have hidle := (h.before claim hclaim item hitem hvscode hroot time hstarted (by omega)).1
    rw [hrunning] at hidle
    cases hidle

/-! ## Merged inventories -/

omit [ProjectLabels] in
theorem mem_setItem_values {merged : List (String × Sandbox)} {other : Sandbox}
    (hkeys : ∀ entry ∈ merged, entry.1 = entry.2.containerId)
    (hids : ∀ entry ∈ merged, entry.1 = item.containerId → entry.2 = item) :
    other ∈ (setItem merged item.containerId item).map (·.2) ↔
      other ∈ merged.map (·.2) ∨ other = item := by
  by_cases hheld : (merged.lookup item.containerId).isSome
  · have hmem : item ∈ merged.map (·.2) := by
      obtain ⟨value, hvalue⟩ := Option.isSome_iff_exists.mp hheld
      obtain ⟨before, after, rfl, -⟩ := List.lookup_eq_some_iff.mp hvalue
      have heq := hids (item.containerId, value) (by simp) rfl
      simp only at heq
      subst heq
      simp
    have hsame : (merged.map fun entry =>
        if entry.1 == item.containerId then (item.containerId, item) else entry) = merged := by
      conv_rhs => rw [← List.map_id merged]
      apply List.map_congr_left
      intro entry hentry
      by_cases hkey : entry.1 = item.containerId
      · simp [hkey, Prod.ext_iff, hids entry hentry hkey]
      · simp [hkey]
    rw [setItem, if_pos hheld, hsame]
    constructor
    · exact .inl
    · rintro (h | rfl)
      · exact h
      · exact hmem
  · rw [setItem, if_neg hheld]
    simp

omit [ProjectLabels] in
/-- Sandboxes of distinct containers are merged without loss. -/
theorem mem_mergeSandboxes {groups : List (List Sandbox)} {other : Sandbox}
    (hids : ∀ left ∈ groups.flatten, ∀ right ∈ groups.flatten,
      left.containerId = right.containerId → left = right) :
    other ∈ mergeSandboxes groups ↔ other ∈ groups.flatten := by
  suffices hfold : ∀ (items : List Sandbox) (merged : List (String × Sandbox)),
      (∀ item ∈ items, item ∈ groups.flatten) →
      (∀ entry ∈ merged, entry.2 ∈ groups.flatten ∧ entry.1 = entry.2.containerId) →
      (other ∈ (items.foldl (fun merged item => setItem merged item.containerId item)
        merged).map (·.2) ↔ other ∈ merged.map (·.2) ∨ other ∈ items) by
    have h := hfold groups.flatten [] (fun _ h => h) (by simp)
    simpa [mergeSandboxes] using h
  intro items
  induction items with
  | nil => simp
  | cons item rest ih =>
    intro merged hitems hmerged
    have hitem := hitems item List.mem_cons_self
    have hnext : ∀ entry ∈ setItem merged item.containerId item,
        entry.2 ∈ groups.flatten ∧ entry.1 = entry.2.containerId := by
      intro entry hentry
      by_cases hheld : (merged.lookup item.containerId).isSome
      · rw [setItem, if_pos hheld] at hentry
        obtain ⟨held, hmem, rfl⟩ := List.mem_map.mp hentry
        by_cases hkey : held.1 = item.containerId
        · simp [hkey, hitem]
        · simpa [hkey] using hmerged held hmem
      · rw [setItem, if_neg hheld] at hentry
        rcases List.mem_append.mp hentry with hmem | hlast
        · exact hmerged entry hmem
        · obtain rfl := List.mem_singleton.mp hlast
          exact ⟨hitem, rfl⟩
    rw [List.foldl_cons, ih _ (fun x hx => hitems x (List.mem_cons_of_mem _ hx)) hnext,
      mem_setItem_values (fun entry h => (hmerged entry h).2)
        (fun entry h hkey => hids entry.2 (hmerged entry h).1 item hitem
          ((hmerged entry h).2.symm.trans hkey)),
      List.mem_cons, or_assoc]

omit [ProjectLabels] in
theorem mem_vscodeInventory {roots : List String} :
    item ∈ host.vscodeInventory roots ↔
      item ∈ host.sandboxes ∧ item.vscode = true ∧ item.projectRoot ∈ roots := by
  simp [Host.vscodeInventory]

/-- The Sandboxes an admission call of a host reads. -/
def candidatesOf (host : Host) (roots : List String) : List Sandbox :=
  mergeSandboxes [host.inventory, host.vscodeInventory roots]

theorem Consistent.mem_candidatesOf (h : Consistent host) {roots : List String} :
    item ∈ candidatesOf host roots ↔ item ∈ host.sandboxes ∧
      (item.running = true ∨ item.vscode = true ∧ item.projectRoot ∈ roots) := by
  rw [candidatesOf, mem_mergeSandboxes]
  · simp only [List.flatten_cons, List.flatten_nil, List.append_nil, List.mem_append,
      mem_inventory, mem_vscodeInventory]
    rw [← and_or_left]
  · have hheld : ∀ item ∈ [host.inventory, host.vscodeInventory roots].flatten,
        item ∈ host.sandboxes := by
      intro item hitem
      simp only [List.flatten_cons, List.flatten_nil, List.append_nil, List.mem_append,
        mem_inventory, mem_vscodeInventory] at hitem
      rcases hitem with hitem | hitem
      · exact hitem.1
      · exact hitem.1
    intro left hleft right hright heq
    exact eq_of_key h.ids (hheld left hleft) (hheld right hright) heq

theorem Consistent.mem_applicable_candidatesOf (h : Consistent host) {roots : List String}
    {root : String} (hroot : root ∈ roots) :
    item ∈ applicable (candidatesOf host roots) root ↔
      item ∈ applicable host.sandboxes root := by
  rw [mem_applicable, mem_applicable, h.mem_candidatesOf]
  constructor
  · rintro ⟨⟨hheld, -⟩, hown⟩
    exact ⟨hheld, hown⟩
  · rintro ⟨hheld, hvscode, rfl⟩
    exact ⟨⟨hheld, .inr ⟨hvscode, hroot⟩⟩, hvscode, rfl⟩

/-! ## Consumed claims -/

theorem Consistent.isConsumed_iff (h : Consistent host) {sandboxes : List Sandbox}
    (hsub : ∀ item ∈ sandboxes, item ∈ host.sandboxes) :
    isConsumed sandboxes claim = true ↔
      ∃ item ∈ applicable sandboxes claim.projectRoot, consumed claim item = true := by
  simp [isConsumed, h.mismatches_eq_nil hsub]

/-- The candidates of a call consume the claims that the Sandboxes of the host consume. -/
theorem Consistent.isConsumed_candidatesOf (h : Consistent host) {roots : List String}
    (hroot : claim.projectRoot ∈ roots) :
    isConsumed (candidatesOf host roots) claim = isConsumed host.sandboxes claim := by
  rw [Bool.eq_iff_iff, h.isConsumed_iff fun item hitem => (h.mem_candidatesOf.mp hitem).1,
    h.isConsumed_iff fun item hitem => hitem]
  constructor
  · rintro ⟨item, hitem, hconsumed⟩
    exact ⟨item, (h.mem_applicable_candidatesOf hroot).mp hitem, hconsumed⟩
  · rintro ⟨item, hitem, hconsumed⟩
    exact ⟨item, (h.mem_applicable_candidatesOf hroot).mpr hitem, hconsumed⟩

omit [ProjectLabels] in
theorem consumed_iff :
    consumed claim item = true ↔
      claim.baseline.lookup item.containerId ≠ some item.startedAt := by
  unfold consumed startedToken
  cases claim.baseline.lookup item.containerId <;> simp

/-- A start after the claim consumes it. -/
theorem Consistent.isConsumed_of_startedSince (h : Consistent host) (hclaim : claim ∈ host.claims)
    (hstarted : StartedSince host claim) : isConsumed host.sandboxes claim = true := by
  obtain ⟨item, hitem, hvscode, hroot, time, htime, hle⟩ := hstarted
  refine (h.isConsumed_iff fun item hitem => hitem).mpr
    ⟨item, mem_applicable.mpr ⟨hitem, hvscode, hroot⟩, consumed_iff.mpr ?_⟩
  intro hlookup
  rw [htime] at hlookup
  have hlt := h.seen claim hclaim item.containerId time hlookup
  omega

/-- A consumed claim was followed by a start, or by a creation that waits for its start. -/
theorem Consistent.startedSince_of_isConsumed (h : Consistent host) (hclaim : claim ∈ host.claims)
    (hcreations : CreationsStarted host) (hconsumed : isConsumed host.sandboxes claim = true) :
    StartedSince host claim := by
  obtain ⟨item, hitem, hchanged⟩ := (h.isConsumed_iff fun item hitem => hitem).mp hconsumed
  obtain ⟨hheld, hvscode, hroot⟩ := mem_applicable.mp hitem
  rw [consumed_iff] at hchanged
  cases hstarted : item.startedAt with
  | none =>
    rw [hstarted] at hchanged
    rcases hcreations claim hclaim item hheld hvscode hroot hstarted with hseen | hsince
    · exact absurd hseen hchanged
    · exact hsince
  | some time =>
    refine ⟨item, hheld, hvscode, hroot, time, hstarted, ?_⟩
    by_contra hbefore
    have hseen := (h.before claim hclaim item hheld hvscode hroot time hstarted (by omega)).2
    rw [hstarted] at hchanged
    exact hchanged hseen

/-- Reconciliation drops only claims that a start followed exactly when no container of a
claimed Project waits for its first start. -/
theorem Consistent.drops_only_started_iff (h : Consistent host) :
    (∀ claim ∈ host.claims, isConsumed host.sandboxes claim = true → StartedSince host claim) ↔
      CreationsStarted host := by
  constructor
  · intro hdrops claim hclaim item hitem hvscode hroot hstarted
    by_cases hseen : claim.baseline.lookup item.containerId = some none
    · exact .inl hseen
    · apply Or.inr
      apply hdrops claim hclaim
      refine (h.isConsumed_iff fun item hitem => hitem).mpr
        ⟨item, mem_applicable.mpr ⟨hitem, hvscode, hroot⟩, consumed_iff.mpr ?_⟩
      rw [hstarted]
      exact hseen
  · intro hcreations claim hclaim
    exact h.startedSince_of_isConsumed hclaim hcreations

/-! ## Snapshots -/

theorem reconcileClaims_spec {sandboxes : List Sandbox} {requestingRoot : String}
    {claims : List PendingStartClaim} {reconciled : Reconciled}
    (h : reconcileClaims sandboxes requestingRoot claims = .ok reconciled) :
    reconciled.remaining = claims.filter fun claim => !isConsumed sandboxes claim := by
  induction claims generalizing reconciled with
  | nil =>
    cases h
    rfl
  | cons claim rest ih =>
    unfold reconcileClaims at h
    split at h
    · cases h
    · obtain ⟨later, hlater, h⟩ := except_bind_eq_ok.mp h
      by_cases hconsumed : isConsumed sandboxes claim = true
      · rw [if_pos hconsumed] at h
        cases h
        simp [ih hlater, hconsumed]
      · rw [if_neg hconsumed] at h
        cases h
        simp [ih hlater, hconsumed]

/-- What a snapshot counts: the running Sandboxes and the unconsumed claims. -/
theorem Consistent.snapshot_spec (h : Consistent host) {root : String} {extra : List String}
    {found : AdmissionSnapshot} (hfound : admissionSnapshot host root extra = .ok found) :
    found.live = host.inventory ∧ found.claims = unconsumedClaims host ∧
      found.candidates = candidatesOf host (host.claims.map (·.projectRoot) ++ extra) := by
  unfold admissionSnapshot at hfound
  obtain ⟨-, -, hfound⟩ := except_bind_eq_ok.mp hfound
  obtain ⟨reconciled, hreconciled, hfound⟩ := except_bind_eq_ok.mp hfound
  cases hfound
  refine ⟨rfl, ?_, rfl⟩
  rw [reconcileClaims_spec hreconciled]
  apply List.filter_congr
  intro claim hclaim
  congr 1
  exact h.isConsumed_candidatesOf (List.mem_append_left _ (List.mem_map_of_mem hclaim))

end

end Booley.Admission
