import Booley.Lib.Keyed
import Booley.Goals.RecordHistory

/-!
# One occupying record per worktree

The Goal Records of a Project, the creates that hold a worktree lock, and the writes of records
between the loads of a create. A create scans one record directory after the other; what it has
read may be replaced before it publishes.
-/
namespace Booley.Goals

open Booley.Lib Booley.TestRuns

/-- Why a create publishes nothing. -/
inductive CreateError where
  /-- The worktree lock belongs to another worktree. -/
  | foreignWorktree
  | store (refusal : StoreError)
  | occupied (occupant : GoalRecord)
  | severalOccupants (ids : List String)

/-- A record that keeps its worktree from another Goal Mode. -/
def occupies (record : GoalRecord) (identity : WorktreeIdentity) : Bool :=
  occupyingStates.contains record.state && record.worktree = identity

/-- The record among some that occupies a worktree. -/
def occupant (records : List GoalRecord) (identity : WorktreeIdentity) :
    Except CreateError (Option GoalRecord) :=
  let found := records.filter (occupies · identity)
  if 1 < found.length then .error (.severalOccupants (found.map (·.id))) else .ok found.head?

/-- What a create publishes for a record, given the records it has scanned. -/
def createScanned (identity : WorktreeIdentity) (scanned : List GoalRecord)
    (record : GoalRecord) : Except CreateError GoalRecord :=
  if record.worktree ≠ identity then .error .foreignWorktree
  else match record.create with
    | .error refusal => .error (.store refusal)
    | .ok created =>
      match occupant scanned record.worktree with
      | .error refusal => .error refusal
      | .ok (some held) => .error (.occupied held)
      | .ok none => .ok created

/-- A process that holds a worktree lock, and the scan of the create it is in: the record
directories it still has to load, and the records it loaded. -/
structure LockHolder where
  identity : WorktreeIdentity
  scan : Option (List String × List GoalRecord)

/-- The Goal Records of a Project and the worktree locks held. -/
structure StoreWorld where
  records : List RecordWorld
  holders : List LockHolder

/-- One step of one process. A worktree lock has one holder, which its identity names; saves and
approved changes hold the record lock of their record. -/
inductive StoreEvent where
  | lock (identity : WorktreeIdentity)
  | list (identity : WorktreeIdentity)
  | read (identity : WorktreeIdentity)
  | publish (identity : WorktreeIdentity) (record : GoalRecord)
  /-- The lock is released, or its process died. -/
  | release (identity : WorktreeIdentity)
  | save (record : GoalRecord)
  | prepare (id : String) (proposal : Proposal) (source : FreezeSource)
  | drive (id : String) (effect : Nat) (symlinked : Bool)
  /-- The cleanup of a record that has ended. -/
  | delete (id : String)

namespace RecordWorld

def id (stored : RecordWorld) : String := stored.record.id

/-- Save any record in place of the one the file holds. -/
def saveRecord (presentation : GoalSpec → String) (stored : RecordWorld) (record : GoalRecord) :
    RecordWorld :=
  match GoalRecord.save presentation stored.record record with
  | .ok saved => stored.publish saved
  | .error _ => stored

def drivePrepared (stored : RecordWorld) (effect : Nat) (symlinked : Bool) : RecordWorld :=
  match stored.prepared[effect]? with
  | some effect => stored.driveEffect effect symlinked
  | none => stored

end RecordWorld

namespace StoreWorld

/-- A Project without Goal Records. -/
def empty : StoreWorld := ⟨[], []⟩

def find? (world : StoreWorld) (id : String) : Option RecordWorld :=
  world.records.find? (·.id = id)

def modifyRecord (world : StoreWorld) (id : String) (f : RecordWorld → RecordWorld) : StoreWorld :=
  { world with records := modifyKey RecordWorld.id id f world.records }

def modifyHolder (world : StoreWorld) (identity : WorktreeIdentity)
    (f : LockHolder → LockHolder) : StoreWorld :=
  { world with holders := modifyKey LockHolder.identity identity f world.holders }

/-- The next record directory of a scan is loaded; one that is gone is passed over. -/
def readNext (world : StoreWorld) (holder : LockHolder) : LockHolder :=
  match holder.scan with
  | some (id :: unread, found) =>
    { holder with scan := some (unread, found ++ (world.find? id).toList.map (·.record)) }
  | _ => holder

/-- A finished scan ends in the record's directory, or in a refusal. -/
def publish (world : StoreWorld) (holder : LockHolder) (record : GoalRecord) : StoreWorld :=
  match holder.scan with
  | some ([], found) =>
    match createScanned holder.identity found record with
    | .ok created =>
      -- The directory is renamed into place, which fails on one that is there.
      if (world.find? created.id).isSome then world
      else { world with
        records := world.records ++ [.created created]
        holders := modifyKey LockHolder.identity holder.identity
          (fun holder => { holder with scan := none }) world.holders }
    | .error _ => world
  | _ => world

def step (presentation : GoalSpec → String) (recordFile : String) (world : StoreWorld) :
    StoreEvent → StoreWorld
  | .lock identity =>
    if world.holders.any (·.identity = identity) then world
    else { world with holders := world.holders ++ [⟨identity, none⟩] }
  | .list identity =>
    world.modifyHolder identity fun holder =>
      { holder with scan := some ((world.records.map (·.id)).insertionSort (· ≤ ·), []) }
  | .read identity => world.modifyHolder identity world.readNext
  | .publish identity record =>
    match world.holders.find? (·.identity = identity) with
    | some holder => world.publish holder record
    | none => world
  | .release identity =>
    { world with holders := removeKey LockHolder.identity identity world.holders }
  | .save record => world.modifyRecord record.id (·.saveRecord presentation record)
  | .prepare id proposal source =>
    world.modifyRecord id (·.prepareEffect recordFile proposal source)
  | .drive id effect symlinked => world.modifyRecord id (·.drivePrepared effect symlinked)
  | .delete id =>
    match world.find? id with
    | some stored =>
      if stored.record.state ∈ occupyingStates then world
      else { world with records := removeKey RecordWorld.id id world.records }
    | none => world

def run (presentation : GoalSpec → String) (recordFile : String) (events : List StoreEvent) :
    StoreWorld :=
  events.foldl (step presentation recordFile) empty

end StoreWorld

/-! ## What one record goes through -/

/-- One record replaced another by a move its lifecycle allows. -/
structure Moves (newer previous : GoalRecord) : Prop where
  id : newer.id = previous.id
  worktree : newer.worktree = previous.worktree
  state : newer.state ∈ allowedTransitions previous.state

/-- A record that occupies its worktree did so before. -/
theorem occupies_of_moves {newer previous : GoalRecord} (h : Moves newer previous)
    {identity : WorktreeIdentity} (hoccupies : occupies newer identity = true) :
    occupies previous identity = true := by
  have hstate := h.state
  simp only [occupies, Bool.and_eq_true, List.contains_iff_mem, decide_eq_true_eq]
    at hoccupies ⊢
  refine ⟨?_, h.worktree ▸ hoccupies.2⟩
  cases hprevious : previous.state with
  | entering => decide
  | active => decide
  | finishing => decide
  | finished => simp [allowedTransitions, hprevious] at hstate
  | abandoned => simp [allowedTransitions, hprevious] at hstate
  | failed => simp [allowedTransitions, hprevious] at hstate

/-- A lifecycle that began with an entering record, and the changes captured in it. -/
structure RecordWorld.Lawful (stored : RecordWorld) : Prop where
  chained : stored.history.IsChain Moves
  began : ∃ first, stored.history.getLast? = some first ∧ first.state = .entering
  prepared : ∀ effect ∈ stored.prepared, ∃ before after,
    effect.before = some (.record before) ∧ effect.after = some (.record after) ∧
      Moves after before

namespace RecordWorld

theorem publish_lawful {stored : RecordWorld} (h : stored.Lawful) {next : GoalRecord}
    (hmoves : Moves next stored.record) : (stored.publish next).Lawful := by
  constructor
  · exact List.isChain_cons_cons.mpr ⟨hmoves, h.chained⟩
  · obtain ⟨first, hfirst, hstate⟩ := h.began
    refine ⟨first, ?_, hstate⟩
    simpa [history, publish, List.getLast?_cons_cons] using hfirst
  · exact h.prepared

theorem created_lawful {record created : GoalRecord}
    (h : record.create = .ok created) : (RecordWorld.created created).Lawful := by
  unfold GoalRecord.create at h
  split_ifs at h with hentering
  obtain ⟨-, rfl⟩ := GoalRecord.validate_eq_ok.mp h
  constructor
  · exact List.isChain_singleton _
  · refine ⟨_, rfl, ?_⟩
    by_contra hstate
    exact hentering (.inl hstate)
  · intro effect heffect
    cases heffect

/-- A write leaves the record file as it is, or replaces the record by a move. -/
def Writes (stored after : RecordWorld) : Prop :=
  after.record = stored.record ∨ Moves after.record stored.record

theorem saveRecord_writes (presentation : GoalSpec → String) {stored : RecordWorld}
    (h : stored.Lawful) (record : GoalRecord) :
    (stored.saveRecord presentation record).Lawful ∧
      stored.Writes (stored.saveRecord presentation record) := by
  unfold saveRecord
  cases hsave : GoalRecord.save presentation stored.record record with
  | error refusal => exact ⟨h, .inl rfl⟩
  | ok saved =>
    obtain ⟨rfl, -, hstate, -, hcreation, -⟩ := GoalRecord.save_eq_ok hsave
    have hmoves : Moves { record with revision := stored.record.revision + 1 } stored.record :=
      ⟨hcreation.id, hcreation.worktree, hstate⟩
    exact ⟨publish_lawful h hmoves, .inr hmoves⟩

theorem prepareEffect_lawful {recordFile : String} {stored : RecordWorld} (h : stored.Lawful)
    (proposal : Proposal) (source : FreezeSource) :
    (prepareEffect recordFile stored proposal source).Lawful ∧
      stored.Writes (prepareEffect recordFile stored proposal source) := by
  unfold prepareEffect
  split_ifs with hrefused
  · exact ⟨h, .inl rfl⟩
  · cases heffect : recordEffect recordFile stored.record proposal source with
    | error refusal => exact ⟨h, .inl rfl⟩
    | ok effect =>
      obtain ⟨next, hnext, rfl⟩ := recordEffect_eq_ok heffect
      have hactive : stored.record.state = .active := by
        by_contra hstate
        exact hrefused (.inl hstate)
      obtain ⟨-, -, resolutions, hnext⟩ := approvedRecord_spec hnext
      have hmoves : Moves next stored.record := by
        rw [hnext]
        refine ⟨rfl, rfl, ?_⟩
        simp [hactive, allowedTransitions]
      refine ⟨⟨h.chained, h.began, ?_⟩, .inl rfl⟩
      intro other hother
      rcases List.mem_append.mp hother with hheld | hnew
      · exact h.prepared other hheld
      · rw [List.mem_singleton.mp hnew]
        exact ⟨stored.record, next, rfl, rfl, hmoves⟩

theorem drivePrepared_writes {stored : RecordWorld} (h : stored.Lawful) (index : Nat)
    (symlinked : Bool) :
    (stored.drivePrepared index symlinked).Lawful ∧
      stored.Writes (stored.drivePrepared index symlinked) := by
  unfold drivePrepared
  cases heffect : stored.prepared[index]? with
  | none => exact ⟨h, .inl rfl⟩
  | some effect =>
    obtain ⟨before, after, hbefore, hafter, hmoves⟩ :=
      h.prepared effect (List.mem_of_getElem? heffect)
    simp only [driveEffect]
    cases happly : effect.apply symlinked (some (.record stored.record)) with
    | error refusal => exact ⟨h, .inl rfl⟩
    | ok last =>
      obtain ⟨hheld, rfl⟩ := FileEffect.apply_eq_ok happly
      simp only [hafter]
      split_ifs with hdone
      · exact ⟨h, .inl rfl⟩
      · -- The file still holds the record the change was captured for.
        have hcaptured : before = stored.record := by
          rw [hbefore, hafter] at hheld
          rcases hheld with hheld | hheld
          · exact (FileContent.record.inj (Option.some.inj hheld)).symm
          · exact absurd (FileContent.record.inj (Option.some.inj hheld)).symm hdone
        subst hcaptured
        exact ⟨publish_lawful h hmoves, .inr hmoves⟩

theorem id_of_writes {stored after : RecordWorld} (h : stored.Writes after) :
    after.id = stored.id := by
  rcases h with hsame | hmoves
  · rw [id, id, hsame]
  · exact hmoves.id

theorem occupies_of_writes {stored after : RecordWorld} (h : stored.Writes after)
    {identity : WorktreeIdentity} (hoccupies : occupies after.record identity = true) :
    occupies stored.record identity = true := by
  rcases h with hsame | hmoves
  · rw [← hsame]
    exact hoccupies
  · exact occupies_of_moves hmoves hoccupies

end RecordWorld

/-! ## The store -/

namespace StoreWorld

/-- What a holder's scan still covers: every record that occupies its worktree is yet to be
read, or was read while it occupied the worktree. -/
def Covers (records : List RecordWorld) (holder : LockHolder) : Prop :=
  ∀ unread found, holder.scan = some (unread, found) → ∀ stored ∈ records,
    occupies stored.record holder.identity = true →
      stored.id ∈ unread ∨ ∃ seen ∈ found, occupies seen holder.identity = true

/-- What every world of a Project keeps. -/
structure Exclusive (world : StoreWorld) : Prop where
  ids : (world.records.map RecordWorld.id).Nodup
  lawful : ∀ stored ∈ world.records, stored.Lawful
  holders : (world.holders.map LockHolder.identity).Nodup
  covered : ∀ holder ∈ world.holders, Covers world.records holder
  unique : ∀ identity, ∀ left ∈ world.records, ∀ right ∈ world.records,
    occupies left.record identity = true → occupies right.record identity = true → left = right

theorem empty_exclusive : Exclusive empty where
  ids := List.nodup_nil
  lawful := by simp [empty]
  holders := List.nodup_nil
  covered := by simp [empty]
  unique := by simp [empty]

theorem mem_of_find? {world : StoreWorld} {id : String} {stored : RecordWorld}
    (h : world.find? id = some stored) : stored ∈ world.records ∧ stored.id = id :=
  ⟨List.mem_of_find?_eq_some h, by simpa using List.find?_some h⟩

/-- A write of one record keeps what a scan covers and who occupies a worktree. -/
theorem Exclusive.modifyRecord {world : StoreWorld} (h : world.Exclusive) (id : String)
    (f : RecordWorld → RecordWorld)
    (hf : ∀ stored, stored.Lawful → (f stored).Lawful ∧ stored.Writes (f stored)) :
    (world.modifyRecord id f).Exclusive := by
  -- A record after the write comes from one that occupied what it occupies.
  have horigin : ∀ after ∈ (world.modifyRecord id f).records, ∃ stored ∈ world.records,
      after.id = stored.id ∧ after.Lawful ∧ stored.Writes after := by
    intro after hafter
    rcases mem_modifyKey.mp hafter with ⟨hmem, -⟩ | ⟨stored, hstored, -, rfl⟩
    · exact ⟨after, hmem, rfl, h.lawful after hmem, .inl rfl⟩
    · obtain ⟨hlawful, hwrites⟩ := hf stored (h.lawful stored hstored)
      exact ⟨stored, hstored, RecordWorld.id_of_writes hwrites, hlawful, hwrites⟩
  have hids : ((world.modifyRecord id f).records.map RecordWorld.id) =
      world.records.map RecordWorld.id := map_key_modifyKey fun stored hstored =>
    RecordWorld.id_of_writes (hf stored (h.lawful stored hstored)).2
  constructor
  · rw [hids]
    exact h.ids
  · intro after hafter
    obtain ⟨-, -, -, hlawful, -⟩ := horigin after hafter
    exact hlawful
  · exact h.holders
  · intro holder hholder unread found hscan after hafter hoccupies
    obtain ⟨stored, hstored, hsame, -, hwrites⟩ := horigin after hafter
    rw [hsame]
    exact h.covered holder hholder unread found hscan stored hstored
      (RecordWorld.occupies_of_writes hwrites hoccupies)
  · intro identity left hleft right hright hleftOccupies hrightOccupies
    obtain ⟨before, hbefore, hleftId, -, hleftWrites⟩ := horigin left hleft
    obtain ⟨other, hother, hrightId, -, hrightWrites⟩ := horigin right hright
    have hsame := h.unique identity before hbefore other hother
      (RecordWorld.occupies_of_writes hleftWrites hleftOccupies)
      (RecordWorld.occupies_of_writes hrightWrites hrightOccupies)
    have hnodup : ((world.modifyRecord id f).records.map RecordWorld.id).Nodup := by
      rw [hids]
      exact h.ids
    exact eq_of_key hnodup hleft hright (by rw [hleftId, hrightId, hsame])

/-- A holder's own step changes no other holder. -/
theorem Exclusive.modifyHolder {world : StoreWorld} (h : world.Exclusive)
    (identity : WorktreeIdentity) (f : LockHolder → LockHolder)
    (hf : ∀ holder, (f holder).identity = holder.identity)
    (hcovered : ∀ holder ∈ world.holders, Covers world.records (f holder)) :
    (world.modifyHolder identity f).Exclusive where
  ids := h.ids
  lawful := h.lawful
  holders := by
    have hkeys : (world.modifyHolder identity f).holders.map LockHolder.identity =
        world.holders.map LockHolder.identity := map_key_modifyKey fun holder _ => hf holder
    rw [hkeys]
    exact h.holders
  covered := by
    intro holder hholder
    rcases mem_modifyKey.mp hholder with ⟨hmem, -⟩ | ⟨held, hheld, -, rfl⟩
    · exact h.covered holder hmem
    · exact hcovered held hheld
  unique := h.unique

theorem Exclusive.readNext {world : StoreWorld} (h : world.Exclusive) {holder : LockHolder}
    (hholder : holder ∈ world.holders) : Covers world.records (world.readNext holder) := by
  unfold StoreWorld.readNext
  split
  · rename_i id unread found hscan
    intro rest seen hrest stored hstored hoccupies
    obtain ⟨rfl, rfl⟩ : unread = rest ∧
        found ++ (world.find? id).toList.map (·.record) = seen := by simpa using hrest
    rcases h.covered holder hholder _ _ hscan stored hstored hoccupies with hid | ⟨held, hheld⟩
    · rcases List.mem_cons.mp hid with hnext | hlater
      · -- The record is the one that is read now.
        right
        have hfind : world.find? id = some stored := by
          cases hfound : world.find? id with
          | none =>
            have hnone := List.find?_eq_none.mp hfound stored hstored
            simp [hnext] at hnone
          | some other =>
            obtain ⟨hother, hsame⟩ := mem_of_find? hfound
            rw [eq_of_key h.ids hother hstored (hsame.trans hnext.symm)]
        exact ⟨stored.record, by simp [hfind], hoccupies⟩
      · exact .inl hlater
    · exact .inr ⟨held, List.mem_append_left _ hheld.1, hheld.2⟩
  · exact h.covered holder hholder

/-- A create publishes only when its scan found no record in its worktree. -/
theorem createScanned_eq_ok {identity : WorktreeIdentity} {found : List GoalRecord}
    {record created : GoalRecord} (h : createScanned identity found record = .ok created) :
    record.create = .ok created ∧ created.worktree = identity ∧
      ∀ seen ∈ found, occupies seen identity = false := by
  unfold createScanned at h
  split_ifs at h with hworktree
  obtain rfl := not_not.mp hworktree
  cases hcreate : record.create with
  | error refusal =>
    rw [hcreate] at h
    cases h
  | ok published =>
    rw [hcreate] at h
    cases hoccupant : occupant found record.worktree with
    | error refusal =>
      simp only [hoccupant] at h
      cases h
    | ok held =>
      cases held with
      | some held =>
        simp only [hoccupant] at h
        cases h
      | none =>
        simp only [hoccupant] at h
        obtain rfl := Except.ok.inj h
        refine ⟨rfl, ?_, ?_⟩
        · unfold GoalRecord.create at hcreate
          split_ifs at hcreate
          obtain ⟨-, rfl⟩ := GoalRecord.validate_eq_ok.mp hcreate
          rfl
        · intro seen hseen
          unfold occupant at hoccupant
          simp only at hoccupant
          split_ifs at hoccupant with hseveral
          have hnone := List.head?_eq_none_iff.mp (Except.ok.inj hoccupant)
          by_contra hoccupies
          have hmem : seen ∈ found.filter (occupies · record.worktree) :=
            List.mem_filter.mpr ⟨hseen, by simpa using hoccupies⟩
          rw [hnone] at hmem
          cases hmem

theorem Exclusive.publish {world : StoreWorld} (h : world.Exclusive) {holder : LockHolder}
    (hholder : holder ∈ world.holders) (record : GoalRecord) :
    (world.publish holder record).Exclusive := by
  unfold StoreWorld.publish
  split
  case h_2 => exact h
  rename_i found hscan
  cases hcreated : createScanned holder.identity found record with
  | error refusal => exact h
  | ok created =>
    dsimp only
    split_ifs with hthere
    · exact h
    obtain ⟨hcreate, hworktree, hfree⟩ := createScanned_eq_ok hcreated
    -- The scan is over and met no occupant, so nothing occupies the worktree.
    have hidle : ∀ stored ∈ world.records,
        occupies stored.record holder.identity = false := by
      intro stored hstored
      by_contra hoccupies
      rcases h.covered holder hholder _ _ hscan stored hstored (by simpa using hoccupies) with
        hid | ⟨seen, hseen, hheld⟩
      · cases hid
      · rw [hfree seen hseen] at hheld
        cases hheld
    have hnew : ∀ stored ∈ world.records, stored.id ≠ created.id := by
      intro stored hstored hid
      have hnone : world.find? created.id = none := by simpa using hthere
      have hmissing := List.find?_eq_none.mp hnone stored hstored
      simp [hid] at hmissing
    have hown : ∀ identity, occupies created identity = true → identity = holder.identity := by
      intro identity hoccupies
      simp only [occupies, Bool.and_eq_true, decide_eq_true_eq] at hoccupies
      exact hoccupies.2.symm.trans hworktree
    constructor
    · simp only [List.map_append, List.map_cons, List.map_nil]
      refine List.nodup_append.mpr ⟨h.ids, List.nodup_singleton _, ?_⟩
      intro id hid other hother
      obtain ⟨stored, hstored, rfl⟩ := List.mem_map.mp hid
      rw [List.mem_singleton.mp hother]
      exact hnew stored hstored
    · intro stored hstored
      rcases List.mem_append.mp hstored with hheld | hlast
      · exact h.lawful stored hheld
      · rw [List.mem_singleton.mp hlast]
        exact RecordWorld.created_lawful hcreate
    · have hkeys : (modifyKey LockHolder.identity holder.identity
          (fun holder => { holder with scan := none }) world.holders).map LockHolder.identity =
          world.holders.map LockHolder.identity := map_key_modifyKey fun _ _ => rfl
      rw [hkeys]
      exact h.holders
    · intro other hother unread seen hother_scan stored hstored hoccupies
      rcases mem_modifyKey.mp hother with ⟨hmem, hne⟩ | ⟨held, -, -, rfl⟩
      · rcases List.mem_append.mp hstored with hheld | hlast
        · exact h.covered other hmem unread seen hother_scan stored hheld hoccupies
        · -- The new record is in the worktree of another holder.
          rw [List.mem_singleton.mp hlast] at hoccupies
          exact absurd (hown other.identity hoccupies) hne
      · cases hother_scan
    · intro identity left hleft right hright hleftOccupies hrightOccupies
      rcases List.mem_append.mp hleft with hleftHeld | hleftLast
      · rcases List.mem_append.mp hright with hrightHeld | hrightLast
        · exact h.unique identity left hleftHeld right hrightHeld hleftOccupies hrightOccupies
        · rw [List.mem_singleton.mp hrightLast] at hrightOccupies
          obtain rfl := hown identity hrightOccupies
          rw [hidle left hleftHeld] at hleftOccupies
          cases hleftOccupies
      · rcases List.mem_append.mp hright with hrightHeld | hrightLast
        · rw [List.mem_singleton.mp hleftLast] at hleftOccupies
          obtain rfl := hown identity hleftOccupies
          rw [hidle right hrightHeld] at hrightOccupies
          cases hrightOccupies
        · rw [List.mem_singleton.mp hleftLast, List.mem_singleton.mp hrightLast]

/-- One step of any process keeps worktrees to one record each. -/
theorem Exclusive.step {world : StoreWorld} (h : world.Exclusive)
    (presentation : GoalSpec → String) (recordFile : String) (event : StoreEvent) :
    (world.step presentation recordFile event).Exclusive := by
  cases event with
  | lock identity =>
    simp only [StoreWorld.step]
    split_ifs with hheld
    · exact h
    · refine ⟨h.ids, h.lawful, ?_, ?_, h.unique⟩
      · simp only [List.map_append, List.map_cons, List.map_nil]
        refine List.nodup_append.mpr ⟨h.holders, List.nodup_singleton _, ?_⟩
        intro other hother same hsame heq
        obtain ⟨holder, hholder, rfl⟩ := List.mem_map.mp hother
        rw [List.mem_singleton.mp hsame] at heq
        exact hheld (List.any_eq_true.mpr ⟨holder, hholder, by simpa using heq⟩)
      · intro holder hholder
        rcases List.mem_append.mp hholder with hmem | hlast
        · exact h.covered holder hmem
        · rw [List.mem_singleton.mp hlast]
          intro unread found hscan
          cases hscan
  | list identity =>
    apply h.modifyHolder identity fun holder =>
      { holder with scan := some ((world.records.map (·.id)).insertionSort (· ≤ ·), []) }
    · intro _
      rfl
    intro holder _ unread found hscan stored hstored _
    obtain ⟨rfl, rfl⟩ := Prod.mk.inj (Option.some.inj hscan)
    left
    rw [List.mem_insertionSort]
    exact List.mem_map_of_mem hstored
  | read identity =>
    apply h.modifyHolder identity
    · intro holder
      unfold StoreWorld.readNext
      split <;> rfl
    · intro holder hholder
      exact h.readNext hholder
  | publish identity record =>
    simp only [StoreWorld.step]
    cases hholder : world.holders.find? (·.identity = identity) with
    | none => exact h
    | some holder => exact h.publish (List.mem_of_find?_eq_some hholder) record
  | release identity =>
    exact ⟨h.ids, h.lawful, nodup_removeKey h.holders identity,
      fun holder hholder => h.covered holder (mem_removeKey.mp hholder).1, h.unique⟩
  | save record =>
    exact h.modifyRecord record.id _ fun stored hlawful =>
      RecordWorld.saveRecord_writes presentation hlawful record
  | prepare id proposal source =>
    exact h.modifyRecord id _ fun stored hlawful =>
      RecordWorld.prepareEffect_lawful hlawful proposal source
  | drive id effect symlinked =>
    exact h.modifyRecord id _ fun stored hlawful =>
      RecordWorld.drivePrepared_writes hlawful effect symlinked
  | delete id =>
    simp only [StoreWorld.step]
    split
    · split_ifs
      · exact h
      · exact ⟨nodup_removeKey h.ids id,
          fun stored hstored => h.lawful stored (mem_removeKey.mp hstored).1, h.holders,
          fun holder hholder unread found hscan stored hstored =>
            h.covered holder hholder unread found hscan stored (mem_removeKey.mp hstored).1,
          fun identity left hleft right hright => h.unique identity left
            (mem_removeKey.mp hleft).1 right (mem_removeKey.mp hright).1⟩
    · exact h

theorem run_exclusive (presentation : GoalSpec → String) (recordFile : String)
    (events : List StoreEvent) : (run presentation recordFile events).Exclusive := by
  unfold run
  suffices hfold : ∀ world : StoreWorld, world.Exclusive →
      (events.foldl (step presentation recordFile) world).Exclusive from
    hfold empty empty_exclusive
  induction events with
  | nil => exact fun world h => h
  | cons event rest ih => exact fun world h => ih _ (h.step presentation recordFile event)

end StoreWorld

/-- However creates, saves and lifecycle transitions interleave, a worktree has at most one
record in an occupying state, and each record moved from entering only as it may. -/
theorem one_occupant_per_worktree (presentation : GoalSpec → String) (recordFile : String)
    (events : List StoreEvent) :
    let world := StoreWorld.run presentation recordFile events
    (∀ identity, (world.records.filter fun stored =>
      stored.record.state ∈ occupyingStates ∧ stored.record.worktree = identity).length ≤ 1) ∧
      ∀ stored ∈ world.records,
        stored.history.IsChain (fun newer previous =>
          newer.state ∈ allowedTransitions previous.state) ∧
        ∃ first, stored.history.getLast? = some first ∧ first.state = .entering := by
  intro world
  have h : world.Exclusive := StoreWorld.run_exclusive presentation recordFile events
  constructor
  · intro identity
    have hnodup := h.ids.of_map.filter fun stored : RecordWorld =>
      stored.record.state ∈ occupyingStates ∧ stored.record.worktree = identity
    have hoccupies : ∀ stored ∈ world.records.filter fun stored =>
        stored.record.state ∈ occupyingStates ∧ stored.record.worktree = identity,
        stored ∈ world.records ∧ occupies stored.record identity = true := by
      intro stored hstored
      obtain ⟨hmem, hheld⟩ := List.mem_filter.mp hstored
      exact ⟨hmem, by simpa [occupies] using hheld⟩
    cases hfound : world.records.filter fun stored =>
        stored.record.state ∈ occupyingStates ∧ stored.record.worktree = identity with
    | nil => simp
    | cons left rest =>
      cases rest with
      | nil => simp
      | cons right rest =>
        rw [hfound] at hnodup hoccupies
        obtain ⟨hleft, hleftOccupies⟩ := hoccupies left (by simp)
        obtain ⟨hright, hrightOccupies⟩ := hoccupies right (by simp)
        have hsame := h.unique identity left hleft right hright hleftOccupies hrightOccupies
        simp [hsame] at hnodup
  · intro stored hstored
    have hlawful := h.lawful stored hstored
    exact ⟨hlawful.chained.imp fun _ _ hmoves => hmoves.state, hlawful.began⟩

end Booley.Goals
