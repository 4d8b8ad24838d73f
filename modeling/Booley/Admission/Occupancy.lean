import Booley.Admission.Reconciliation

/-!
# Slots held

The slots of a host: its running Sandboxes, and the claims none of whose Project's editor
Sandboxes runs. What Docker does to one container changes them by what the container held.
-/
namespace Booley.Admission

open Booley.Lib

section

variable {host : Host} {claim : PendingStartClaim} {item : Sandbox}

def runningEditor (sandboxes : List Sandbox) (root : String) : Bool :=
  sandboxes.any fun item => item.vscode && item.running && item.projectRoot == root

def openClaims (host : Host) : Nat :=
  host.claims.countP fun claim => !runningEditor host.sandboxes claim.projectRoot

/-- The slots a host holds or has promised. -/
def heldSlots (host : Host) : Nat := host.sandboxes.countP (·.running) + openClaims host

theorem runningEditor_iff {sandboxes : List Sandbox} {root : String} :
    runningEditor sandboxes root = true ↔
      ∃ item ∈ sandboxes, item.vscode = true ∧ item.running = true ∧ item.projectRoot = root := by
  simp [runningEditor, and_assoc]

theorem openClaims_le {other : Host} (hclaims : other.claims = host.claims)
    (h : ∀ root, runningEditor host.sandboxes root = true →
      runningEditor other.sandboxes root = true) : openClaims other ≤ openClaims host := by
  rw [openClaims, openClaims, hclaims]
  apply List.countP_mono_left
  intro claim _ hopen
  have himp := h claim.projectRoot
  cases hrunning : runningEditor host.sandboxes claim.projectRoot with
  | false => rfl
  | true =>
    rw [himp hrunning] at hopen
    cases hopen

/-- Losing the editor Sandboxes of one Project opens at most its claim. -/
theorem openClaims_le_succ {other : Host} (hclaims : other.claims = host.claims)
    (hroots : (host.claims.map (·.projectRoot)).Nodup) (root : String)
    (h : ∀ other_root, other_root ≠ root → runningEditor host.sandboxes other_root = true →
      runningEditor other.sandboxes other_root = true) :
    openClaims other ≤ openClaims host + 1 := by
  rw [openClaims, openClaims, hclaims]
  apply countP_le_succ hroots root
  intro claim _ hroot hopen
  have himp := h claim.projectRoot hroot
  cases hrunning : runningEditor host.sandboxes claim.projectRoot with
  | false => rfl
  | true =>
    rw [himp hrunning] at hopen
    cases hopen

/-! ## Starts and stops of one container -/

/-- A container of the host after a start of one of them. -/
theorem mem_start {id : String} :
    item ∈ (host.start id).sandboxes ↔ (item ∈ host.sandboxes ∧ item.containerId ≠ id) ∨
      ∃ held ∈ host.sandboxes, held.containerId = id ∧
        item = { held with running := true, startedAt := some host.clock } :=
  mem_modifyKey

theorem mem_stop {id : String} :
    item ∈ (host.stop id).sandboxes ↔ (item ∈ host.sandboxes ∧ item.containerId ≠ id) ∨
      ∃ held ∈ host.sandboxes, held.containerId = id ∧ item = { held with running := false } :=
  mem_modifyKey

theorem mem_create {created : Sandbox} :
    item ∈ (host.create created).sandboxes ↔ item ∈ host.sandboxes ∨
      item = { created with running := false, startedAt := none } := by
  simp [Host.create]

theorem mem_remove {id : String} :
    item ∈ (host.remove id).sandboxes ↔ item ∈ host.sandboxes ∧ item.containerId ≠ id :=
  mem_removeKey

theorem runningEditor_start {id root : String}
    (h : runningEditor host.sandboxes root = true) :
    runningEditor (host.start id).sandboxes root = true := by
  obtain ⟨item, hitem, hvscode, hrunning, hroot⟩ := runningEditor_iff.mp h
  by_cases hid : item.containerId = id
  · exact runningEditor_iff.mpr
      ⟨_, mem_start.mpr (.inr ⟨item, hitem, hid, rfl⟩), hvscode, rfl, hroot⟩
  · exact runningEditor_iff.mpr
      ⟨item, mem_start.mpr (.inl ⟨hitem, hid⟩), hvscode, hrunning, hroot⟩

/-- A start takes at most one more slot, and none when the container runs. -/
theorem heldSlots_start (hids : (host.sandboxes.map (·.containerId)).Nodup)
    (hitem : item ∈ host.sandboxes) :
    heldSlots (host.start item.containerId) + item.running.toNat ≤ heldSlots host + 1 := by
  have hcount := countP_modifyKey (p := (·.running)) hids hitem
    fun item => { item with running := true, startedAt := some host.clock }
  have hopen : openClaims (host.start item.containerId) ≤ openClaims host :=
    openClaims_le rfl fun _ => runningEditor_start
  simp only [Bool.toNat_true] at hcount
  simp only [heldSlots]
  change (host.start item.containerId).sandboxes.countP (·.running) + _ = _ at hcount
  omega

/-- The start of a Project's editor Sandbox takes the slot its claim held. -/
theorem heldSlots_start_claimed (hids : (host.sandboxes.map (·.containerId)).Nodup)
    (hitem : item ∈ host.sandboxes) (hvscode : item.vscode = true)
    (hclaim : claim ∈ host.claims) (hroot : claim.projectRoot = item.projectRoot)
    (hidle : runningEditor host.sandboxes item.projectRoot = false) :
    heldSlots (host.start item.containerId) ≤ heldSlots host := by
  have hcount := countP_modifyKey (p := (·.running)) hids hitem
    fun item => { item with running := true, startedAt := some host.clock }
  have hrunning : runningEditor (host.start item.containerId).sandboxes item.projectRoot = true :=
    runningEditor_iff.mpr
      ⟨_, mem_start.mpr (.inr ⟨item, hitem, rfl, rfl⟩), hvscode, rfl, rfl⟩
  have hopen : openClaims (host.start item.containerId) + 1 ≤ openClaims host := by
    apply countP_succ_le hclaim
    · intro other _ hother
      cases h : runningEditor host.sandboxes other.projectRoot with
      | false => rfl
      | true =>
        rw [runningEditor_start h] at hother
        cases hother
    · rw [hroot, hrunning]
      rfl
    · rw [hroot, hidle]
      rfl
  simp only [Bool.toNat_true] at hcount
  change (host.start item.containerId).sandboxes.countP (·.running) + _ = _ at hcount
  simp only [heldSlots]
  omega

/-- Without its one container of a Project that ran, a host holds no more slots than before. -/
theorem heldSlots_le_of_lost {other : Host} (hclaims : other.claims = host.claims)
    (hroots : (host.claims.map (·.projectRoot)).Nodup)
    (hcount : other.sandboxes.countP (·.running) + item.running.toNat =
      host.sandboxes.countP (·.running))
    (hkept : ∀ held ∈ host.sandboxes, held.running = true →
      held.containerId ≠ item.containerId → held ∈ other.sandboxes)
    (hown : ∀ held ∈ host.sandboxes, held.containerId = item.containerId → held = item) :
    heldSlots other ≤ heldSlots host := by
  have hrunning : ∀ root, (item.running = true → root ≠ item.projectRoot) →
      runningEditor host.sandboxes root = true → runningEditor other.sandboxes root = true := by
    intro root hother h
    obtain ⟨held, hheld, hvscode, hruns, hroot⟩ := runningEditor_iff.mp h
    have hid : held.containerId ≠ item.containerId := by
      intro hid
      obtain rfl := hown held hheld hid
      exact hother hruns hroot.symm
    exact runningEditor_iff.mpr ⟨held, hkept held hheld hruns hid, hvscode, hruns, hroot⟩
  simp only [heldSlots]
  cases hitem : item.running with
  | true =>
    rw [hitem] at hcount
    simp only [Bool.toNat_true] at hcount
    have hopen := openClaims_le_succ hclaims hroots item.projectRoot
      fun root hroot => hrunning root fun _ => hroot
    omega
  | false =>
    rw [hitem] at hcount
    simp only [Bool.toNat_false] at hcount
    have hopen := openClaims_le hclaims fun root => hrunning root fun h => by
      rw [hitem] at h
      cases h
    omega

theorem heldSlots_stop (hids : (host.sandboxes.map (·.containerId)).Nodup)
    (hroots : (host.claims.map (·.projectRoot)).Nodup) (hitem : item ∈ host.sandboxes) :
    heldSlots (host.stop item.containerId) ≤ heldSlots host := by
  have hcount := countP_modifyKey (p := (·.running)) hids hitem
    fun item => { item with running := false }
  have hclaims : (host.stop item.containerId).claims = host.claims := rfl
  apply heldSlots_le_of_lost hclaims hroots
  · simpa [Host.stop] using hcount
  · intro held hheld _ hid
    exact mem_stop.mpr (.inl ⟨hheld, hid⟩)
  · intro held hheld hid
    exact eq_of_key hids hheld hitem hid

theorem heldSlots_remove (hids : (host.sandboxes.map (·.containerId)).Nodup)
    (hroots : (host.claims.map (·.projectRoot)).Nodup) (hitem : item ∈ host.sandboxes) :
    heldSlots (host.remove item.containerId) ≤ heldSlots host := by
  have hclaims : (host.remove item.containerId).claims = host.claims := rfl
  apply heldSlots_le_of_lost hclaims hroots (countP_removeKey hids hitem)
  · intro held hheld _ hid
    exact mem_remove.mpr ⟨hheld, hid⟩
  · intro held hheld hid
    exact eq_of_key hids hheld hitem hid

theorem heldSlots_create (created : Sandbox) :
    heldSlots (host.create created) = heldSlots host := by
  simp [heldSlots, openClaims, runningEditor, Host.create]

/-! ## Starts after a claim -/

theorem startedSince_start {id : String} (h : StartedSince (host.start id) claim) :
    StartedSince host claim ∨ ∃ held ∈ host.sandboxes, held.containerId = id ∧
      held.vscode = true ∧ held.projectRoot = claim.projectRoot := by
  obtain ⟨item, hitem, hvscode, hroot, time, htime, hle⟩ := h
  rcases mem_start.mp hitem with ⟨hheld, -⟩ | ⟨held, hheld, hid, rfl⟩
  · exact .inl ⟨item, hheld, hvscode, hroot, time, htime, hle⟩
  · exact .inr ⟨held, hheld, hid, hvscode, hroot⟩

theorem startedSince_stop {id : String} (h : StartedSince (host.stop id) claim) :
    StartedSince host claim := by
  obtain ⟨item, hitem, hvscode, hroot, time, htime, hle⟩ := h
  rcases mem_stop.mp hitem with ⟨hheld, -⟩ | ⟨held, hheld, -, rfl⟩
  · exact ⟨item, hheld, hvscode, hroot, time, htime, hle⟩
  · exact ⟨held, hheld, hvscode, hroot, time, htime, hle⟩

theorem startedSince_create {created : Sandbox} (h : StartedSince (host.create created) claim) :
    StartedSince host claim := by
  obtain ⟨item, hitem, hvscode, hroot, time, htime, hle⟩ := h
  rcases mem_create.mp hitem with hheld | rfl
  · exact ⟨item, hheld, hvscode, hroot, time, htime, hle⟩
  · cases htime

theorem startedSince_remove {id : String} (h : StartedSince (host.remove id) claim) :
    StartedSince host claim := by
  obtain ⟨item, hitem, hvscode, hroot, time, htime, hle⟩ := h
  exact ⟨item, (mem_remove.mp hitem).1, hvscode, hroot, time, htime, hle⟩

/-! ## Consistency -/

variable [ProjectLabels]

theorem Consistent.withClaims (h : Consistent host) {claims : List PendingStartClaim}
    (hsub : claims.Sublist host.claims) : Consistent { host with claims } :=
  { h with
    roots := (hsub.map _).nodup h.roots
    made := fun claim hclaim => h.made claim (hsub.subset hclaim)
    seen := fun claim hclaim => h.seen claim (hsub.subset hclaim)
    before := fun claim hclaim => h.before claim (hsub.subset hclaim) }

theorem Consistent.start (h : Consistent host) (id : String) : Consistent (host.start id) where
  ids := by
    have hkeys : (host.start id).sandboxes.map (·.containerId) = host.sandboxes.map (·.containerId) :=
      map_key_modifyKey fun _ _ => rfl
    rw [hkeys]
    exact h.ids
  past := by
    intro item hitem time htime
    rcases mem_start.mp hitem with ⟨hheld, -⟩ | ⟨held, -, -, rfl⟩
    · have hlt := h.past item hheld time htime
      simp only [Host.start]
      omega
    · obtain rfl : host.clock = time := by simpa using htime
      simp [Host.start]
  ran := by
    intro item hitem hrunning
    rcases mem_start.mp hitem with ⟨hheld, -⟩ | ⟨held, -, -, rfl⟩
    · exact h.ran item hheld hrunning
    · simp
  own := by
    intro item hitem hvscode
    rcases mem_start.mp hitem with ⟨hheld, -⟩ | ⟨held, hheld, -, rfl⟩
    · exact h.own item hheld hvscode
    · exact h.own held hheld hvscode
  roots := h.roots
  made := by
    intro claim hclaim
    have hle := h.made claim hclaim
    simp only [Host.start]
    omega
  seen := h.seen
  before := by
    intro claim hclaim item hitem hvscode hroot time htime hlt
    rcases mem_start.mp hitem with ⟨hheld, -⟩ | ⟨held, -, -, rfl⟩
    · exact h.before claim hclaim item hheld hvscode hroot time htime hlt
    · obtain rfl : host.clock = time := by simpa using htime
      have hle := h.made claim hclaim
      omega

theorem Consistent.stop (h : Consistent host) (id : String) : Consistent (host.stop id) where
  ids := by
    have hkeys : (host.stop id).sandboxes.map (·.containerId) = host.sandboxes.map (·.containerId) :=
      map_key_modifyKey fun _ _ => rfl
    rw [hkeys]
    exact h.ids
  past := by
    intro item hitem time htime
    rcases mem_stop.mp hitem with ⟨hheld, -⟩ | ⟨held, hheld, -, rfl⟩
    · exact h.past item hheld time htime
    · exact h.past held hheld time htime
  ran := by
    intro item hitem hrunning
    rcases mem_stop.mp hitem with ⟨hheld, -⟩ | ⟨held, -, -, rfl⟩
    · exact h.ran item hheld hrunning
    · cases hrunning
  own := by
    intro item hitem hvscode
    rcases mem_stop.mp hitem with ⟨hheld, -⟩ | ⟨held, hheld, -, rfl⟩
    · exact h.own item hheld hvscode
    · exact h.own held hheld hvscode
  roots := h.roots
  made := h.made
  seen := h.seen
  before := by
    intro claim hclaim item hitem hvscode hroot time htime hlt
    rcases mem_stop.mp hitem with ⟨hheld, -⟩ | ⟨held, hheld, -, rfl⟩
    · exact h.before claim hclaim item hheld hvscode hroot time htime hlt
    · exact ⟨rfl, (h.before claim hclaim held hheld hvscode hroot time htime hlt).2⟩

theorem Consistent.create (h : Consistent host) {created : Sandbox}
    (hfresh : ∀ held ∈ host.sandboxes, held.containerId ≠ created.containerId)
    (hidentity : created.vscode = true → validIdentity created created.projectRoot = true) :
    Consistent (host.create created) where
  ids := by
    simp only [Host.create, List.map_append, List.map_cons, List.map_nil]
    refine List.nodup_append.mpr ⟨h.ids, List.nodup_singleton _, ?_⟩
    intro id hid other hother
    obtain ⟨held, hheld, rfl⟩ := List.mem_map.mp hid
    rw [List.mem_singleton.mp hother]
    exact hfresh held hheld
  past := by
    intro item hitem time htime
    rcases mem_create.mp hitem with hheld | rfl
    · exact h.past item hheld time htime
    · cases htime
  ran := by
    intro item hitem hrunning
    rcases mem_create.mp hitem with hheld | rfl
    · exact h.ran item hheld hrunning
    · cases hrunning
  own := by
    intro item hitem hvscode
    rcases mem_create.mp hitem with hheld | rfl
    · exact h.own item hheld hvscode
    · exact hidentity hvscode
  roots := h.roots
  made := h.made
  seen := h.seen
  before := by
    intro claim hclaim item hitem hvscode hroot time htime hlt
    rcases mem_create.mp hitem with hheld | rfl
    · exact h.before claim hclaim item hheld hvscode hroot time htime hlt
    · cases htime

theorem Consistent.remove (h : Consistent host) (id : String) : Consistent (host.remove id) :=
  { h with
    ids := nodup_removeKey h.ids id
    past := fun item hitem => h.past item (mem_remove.mp hitem).1
    ran := fun item hitem => h.ran item (mem_remove.mp hitem).1
    own := fun item hitem => h.own item (mem_remove.mp hitem).1
    before := fun claim hclaim item hitem =>
      h.before claim hclaim item (mem_remove.mp hitem).1 }

end

end Booley.Admission
