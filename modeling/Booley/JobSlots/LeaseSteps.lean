import Booley.JobSlots.Leases

/-!
# What the processes at an entry may rely on

What each process may rely on where its code stands, that its own step establishes what its next
one needs, and that no step of another process takes it away.
-/
namespace Booley.JobSlots

variable (owner : Nat)

/-! ## What a process may rely on -/

/-- What holds of the store and the copy of a process at each of its steps. -/
def LeaseWork.Fits (store : LeaseStore) (a : Nat) : LeaseWork → Prop
  | .idle | .stopped | .renewing _ | .releasing _ | .reading _ | .weighing _ => True
  | .renewGated _ | .releaseGated _ | .releaseAsking _ => store.gate = some a
  | .claiming claimant _ => claimant = .terminal → store.foundTerminal = true
  | .claimGated claimant _ =>
    store.gate = some a ∧ (claimant = .terminal → store.foundTerminal = true)
  | .rewriting .renew token =>
    store.gate = some a ∧ store.claimed = false ∧ token.name = .holder ∧ token.leaseState = .active
  | .replacing .renew token =>
    (store.gate = some a ∧ store.claimed = false ∧ token.name = .holder ∧
      token.leaseState = .active) ∧ store.files token.name.other = none
  | .rewriting (.claim claimant) token =>
    store.gate = some a ∧ token.leaseState = .cancelling ∧
      (claimant = .terminal → store.foundTerminal = true)
  | .replacing (.claim claimant) token =>
    (store.gate = some a ∧ token.leaseState = .cancelling ∧
      (claimant = .terminal → store.foundTerminal = true)) ∧ store.files token.name.other = none
  | .rewriting .promote token => a = owner ∧ token.name = .waiter ∧ token.leaseState = .active
  | .replacing .promote token =>
    (a = owner ∧ token.name = .waiter ∧ token.leaseState = .active) ∧
      store.files token.name.other = none
  | .stamped => a = owner
  | .leaving .done => store.gate = some a
  | .leaving (.remove _) =>
    store.gate = some a ∧ store.claimed = true ∧ store.foundTerminal = true
  | .leaving (.recover _) => store.gate = some a ∧ store.claimed = true
  | .judging token | .observing token => token.leaseState = .cancelling → store.claimed = true
  | .recovering _ => store.claimed = true
  | .reaping _ .executionOver =>
    store.claimed = true ∧ (store.foundTerminal = true ∨ store.recovered = true)
  | .reaping _ .unread => True
  | .reaping _ _ => False
  | .withdrawing _ .executionOver => store.gate = some a ∧ store.foundTerminal = true
  | .withdrawing _ .active => store.gate = some a ∧ store.claimed = false
  | .withdrawing name .missing =>
    store.gate = some a ∧ (store.claimed = true → store.files name = none)
  | .withdrawing _ .unread => store.gate = some a

/-- The entry has one file at most, which is cancelling exactly when a claim was written. -/
structure LeaseStore.Whole (store : LeaseStore) : Prop where
  one : ∀ name payload, store.files name = some payload → store.files name.other = none
  state : ∀ name payload, store.files name = some payload →
    (payload.leaseState = .cancelling ↔ store.claimed = true)

variable {owner} {world : LeaseWorld} {store : LeaseStore} {a b : Nat} {yes : Bool}
variable {work : LeaseWork} {token : LeaseToken} {name : EntryState}

theorem EntryState.ne_other (name : EntryState) : name ≠ name.other := by
  cases name <;> decide

theorem load_eq_some (h : store.load name = some token) :
    store.files name = some token.toLeasePayload ∧ token.name = name := by
  obtain ⟨payload, hfile, rfl⟩ := Option.map_eq_some_iff.mp h
  exact ⟨hfile, rfl⟩

theorem load_eq_none (h : store.load name = none) : store.files name = none :=
  Option.map_eq_none_iff.mp h

/-- A copy that was just loaded says that it is claimed exactly when a claim was written. -/
theorem LeaseStore.Whole.load_claimed (h : store.Whole) (hload : store.load name = some token) :
    token.leaseState = .cancelling ↔ store.claimed = true :=
  h.state name _ (load_eq_some hload).1

theorem beginRecovery_fits {claimant : Claimant}
    (hclaimed : token.leaseState = .cancelling → claimant = .caller ∨ store.claimed = true)
    (hterminal : claimant = .terminal → store.foundTerminal = true) :
    (beginRecovery claimant token).Fits owner store a := by
  cases hstate : token.leaseState with
  | active => simpa [beginRecovery, hstate, LeaseWork.Fits] using hterminal
  | cancelling =>
    cases claimant <;> simp_all [beginRecovery, LeaseWork.Fits]

theorem enterGate_fits {inside : LeaseWork}
    (h : ∀ store' : LeaseStore, store'.gate = some a → store'.foundTerminal = store.foundTerminal →
      inside.Fits owner store' a) :
    (enterGate a yes store inside).2.Fits owner (enterGate a yes store inside).1 a := by
  simp only [enterGate]
  split
  · exact h _ rfl rfl
  · trivial

/-- The next step of a process may rely on what its step has left. -/
theorem advanceLease_fits (yes : Bool) (hwhole : store.Whole) (hfits : work.Fits owner store a) :
    (advanceLease a yes store work).2.Fits owner (advanceLease a yes store work).1 a := by
  cases work with
  | idle => trivial
  | stopped => trivial
  | renewing token => exact enterGate_fits fun store' hgate _ => hgate
  | claiming claimant token =>
    refine enterGate_fits fun store' hgate hsame => ⟨hgate, fun hclaimant => ?_⟩
    rw [hsame]
    exact hfits hclaimant
  | releasing token => exact enterGate_fits fun store' hgate _ => hgate
  | renewGated token =>
    simp only [advanceLease]
    split
    · exact hfits
    · rename_i current hload
      split
      · exact hfits
      · rename_i hgood
        simp only [ne_eq, not_or, not_not] at hgood
        obtain ⟨hholder, -, hactive⟩ := hgood
        cases yes with
        | false => cases hload
        | true =>
          have hclaimed := hwhole.load_claimed hload
          rw [hactive] at hclaimed
          refine ⟨hfits, ?_, hholder, hactive⟩
          simpa using hclaimed
  | claimGated claimant token =>
    obtain ⟨hgate, hterminal⟩ := hfits
    simp only [advanceLease]
    split
    · exact hgate
    · rename_i current hload
      cases yes with
      | false => cases hload
      | true =>
        split
        · rename_i hcancelling
          have hclaimed := (hwhole.load_claimed hload).mp hcancelling
          cases claimant with
          | terminal => exact ⟨hgate, hclaimed, hterminal rfl⟩
          | stale => exact ⟨hgate, hclaimed⟩
          | caller => exact hgate
        · exact ⟨hgate, rfl, hterminal⟩
  | rewriting rewrite token =>
    simp only [advanceLease]
    split
    · rename_i hfound
      simp only [Bool.and_eq_true] at hfound
      obtain ⟨payload, hfile⟩ := Option.isSome_iff_exists.mp hfound.2
      have hother := hwhole.one token.name payload hfile
      cases rewrite with
      | renew => exact ⟨hfits, hother⟩
      | claim claimant => exact ⟨hfits, hother⟩
      | promote => exact ⟨hfits, hother⟩
    · cases rewrite with
      | renew => exact hfits.1
      | claim claimant => exact hfits.1
      | promote => trivial
  | replacing rewrite token =>
    simp only [advanceLease]
    split
    · cases rewrite with
      | renew => exact hfits.1.1
      | claim claimant =>
        obtain ⟨⟨hgate, -, hterminal⟩, -⟩ := hfits
        cases claimant with
        | terminal => exact ⟨hgate, by simp [Rewrite.claims], hterminal rfl⟩
        | stale => exact ⟨hgate, by simp [Rewrite.claims]⟩
        | caller => exact hgate
      | promote => exact hfits.1.1
    · cases rewrite with
      | renew => exact hfits.1.1
      | claim claimant => exact hfits.1.1
      | promote => trivial
  | stamped =>
    simp only [advanceLease]
    split <;> trivial
  | leaving after =>
    cases after with
    | done => trivial
    | remove name => exact ⟨hfits.2.1, .inl hfits.2.2⟩
    | recover token => exact hfits.2
  | reading name =>
    simp only [advanceLease]
    split
    · split
      · trivial
      · rename_i token hload
        exact (hwhole.load_claimed hload).mp
    · trivial
  | weighing name =>
    simp only [advanceLease]
    split <;> trivial
  | judging token =>
    simp only [advanceLease]
    split
    · exact beginRecovery_fits (fun hstate => .inr (hfits hstate)) fun _ => rfl
    · exact hfits
  | observing token =>
    simp only [advanceLease]
    split
    · exact beginRecovery_fits (fun hstate => .inr (hfits hstate)) fun h => by cases h
    · split
      · rename_i hstate
        exact hfits hstate
      · trivial
  | recovering token =>
    simp only [advanceLease]
    split
    · exact ⟨hfits, .inr rfl⟩
    · trivial
  | reaping name removal => trivial
  | releaseGated token =>
    simp only [advanceLease]
    split
    · split
      · rename_i hload
        exact ⟨hfits, fun _ => load_eq_none hload⟩
      · rename_i current hload
        split
        · exact hfits
        · split
          · exact hfits
          · rename_i hstate
            refine ⟨hfits, ?_⟩
            rw [hwhole.load_claimed hload] at hstate
            simpa using hstate
    · exact hfits
  | releaseAsking name =>
    simp only [advanceLease]
    split
    · exact ⟨hfits, rfl⟩
    · exact hfits
  | withdrawing name removal =>
    have hgate : store.gate = some a := by
      cases removal with
      | executionOver => exact hfits.1
      | active => exact hfits.1
      | missing => exact hfits.1
      | unread => exact hfits
    simp only [advanceLease]
    split <;> exact hgate

/-! ## What a step does to the store -/

/-- The name that a process is about to unlink. -/
def LeaseWork.removes : LeaseWork → Option EntryState
  | .reaping name _ | .withdrawing name _ => some name
  | _ => none

/-- All that the next step of a process can do to the store. -/
inductive LeaseEffect (store : LeaseStore) (a : Nat) : LeaseWork → LeaseStore → Prop
  | quiet {work : LeaseWork} {after : LeaseStore} (hfiles : after.files = store.files)
      (hgate : after.gate = store.gate) (hclaimed : after.claimed = store.claimed)
      (hterminal : store.foundTerminal = true → after.foundTerminal = true)
      (hrecovered : store.recovered = true → after.recovered = true) :
      LeaseEffect store a work after
  | enter {work : LeaseWork} (hfree : store.gate = none) :
      LeaseEffect store a work { store with gate := some a }
  | leave (after : AfterGate) : LeaseEffect store a (.leaving after) { store with gate := none }
  | replace (rewrite : Rewrite) (token : LeaseToken) :
      LeaseEffect store a (.replacing rewrite token)
        { store.put token.name (some token.toLeasePayload) with
          claimed := store.claimed || rewrite.claims }
  | rename (hwaiter : (store.files .waiter).isSome = true) :
      LeaseEffect store a .stamped store.rename
  | unlink {work : LeaseWork} {name : EntryState} (hremoves : work.removes = some name) :
      LeaseEffect store a work (store.put name none)

theorem LeaseEffect.none : LeaseEffect store a work store := .quiet rfl rfl rfl id id

theorem enterGate_effect {inside : LeaseWork} :
    LeaseEffect store a work (enterGate a yes store inside).1 := by
  simp only [enterGate]
  split
  · rename_i hfree
    simp only [Bool.and_eq_true, Option.isNone_iff_eq_none] at hfree
    exact .enter hfree.2
  · exact .none

theorem advanceLease_effect (store : LeaseStore) (a : Nat) (yes : Bool) (work : LeaseWork) :
    LeaseEffect store a work (advanceLease a yes store work).1 := by
  cases work with
  | renewing token => exact enterGate_effect
  | claiming claimant token => exact enterGate_effect
  | releasing token => exact enterGate_effect
  | leaving after => exact .leave after
  | replacing rewrite token =>
    simp only [advanceLease]
    split
    · exact .replace rewrite token
    · exact .none
  | stamped =>
    simp only [advanceLease]
    split
    · rename_i hwaiter
      simp only [Bool.and_eq_true] at hwaiter
      exact .rename hwaiter.2
    · exact .none
  | reaping name removal =>
    simp only [advanceLease]
    split
    · exact .unlink rfl
    · exact .none
  | withdrawing name removal =>
    simp only [advanceLease]
    split
    · exact .unlink rfl
    · exact .none
  | judging token =>
    simp only [advanceLease]
    split
    · exact .quiet rfl rfl rfl (fun _ => rfl) id
    · exact .none
  | recovering token =>
    simp only [advanceLease]
    split
    · exact .quiet rfl rfl rfl id fun _ => rfl
    · exact .none
  | releaseAsking name =>
    simp only [advanceLease]
    split
    · exact .quiet rfl rfl rfl (fun _ => rfl) id
    · exact .none
  | idle => exact .none
  | stopped => exact .none
  | weighing name => exact .none
  | renewGated token =>
    simp only [advanceLease]
    (repeat' split) <;> exact .none
  | claimGated claimant token =>
    simp only [advanceLease]
    (repeat' split) <;> exact .none
  | rewriting rewrite token =>
    simp only [advanceLease]
    split <;> exact .none
  | reading name =>
    simp only [advanceLease]
    (repeat' split) <;> exact .none
  | observing token =>
    simp only [advanceLease]
    split <;> exact .none
  | releaseGated token =>
    simp only [advanceLease]
    (repeat' split) <;> exact .none

/-- A process is about to replace the file only after it has seen the entry. -/
theorem advanceLease_replacing {rewrite : Rewrite}
    (h : (advanceLease a yes store work).2 = .replacing rewrite token) :
    work = .rewriting rewrite token ∧ ∃ payload, store.files token.name = some payload := by
  cases work with
  | rewriting other copy =>
    simp only [advanceLease] at h
    split at h
    · rename_i hfound
      simp only [Bool.and_eq_true] at hfound
      cases h
      exact ⟨rfl, Option.isSome_iff_exists.mp hfound.2⟩
    · cases other <;> cases h
  | replacing other copy =>
    simp only [advanceLease] at h
    split at h
    · cases other <;> cases h
    · cases other <;> cases h
  | judging copy =>
    simp only [advanceLease, beginRecovery] at h
    (repeat' split at h) <;> cases h
  | observing copy =>
    simp only [advanceLease, beginRecovery] at h
    (repeat' split at h) <;> cases h
  | leaving after => cases after <;> cases h
  | renewing copy =>
    simp only [advanceLease, enterGate] at h
    split at h <;> cases h
  | claiming claimant copy =>
    simp only [advanceLease, enterGate] at h
    split at h <;> cases h
  | releasing copy =>
    simp only [advanceLease, enterGate] at h
    split at h <;> cases h
  | idle => cases h
  | stopped => cases h
  | reaping name removal => cases h
  | withdrawing name removal => cases h
  | _ =>
    simp only [advanceLease] at h
    (repeat' split at h) <;> cases h

/-! ## What the other processes rely on -/

/-- What a change of the store may not take from a process. -/
structure LeavesAlone (work : LeaseWork) (b : Nat) (store after : LeaseStore) : Prop where
  gate : store.gate = some b → after.gate = some b
  claimed : store.claimed = true → after.claimed = true
  unclaimed : store.gate = some b → store.claimed = false → after.claimed = false
  terminal : store.foundTerminal = true → after.foundTerminal = true
  recovered : store.recovered = true → after.recovered = true
  missing : store.gate = some b → after.claimed = true → ∀ name, store.files name = none →
    after.files name = none
  other : ∀ rewrite token, work = .replacing rewrite token → store.files token.name.other = none →
    after.files token.name.other = none

theorem LeavesAlone.fits {after : LeaseStore} (h : LeavesAlone work b store after)
    (hfits : work.Fits owner store b) : work.Fits owner after b := by
  cases work with
  | idle => trivial
  | stopped => trivial
  | renewing token => trivial
  | releasing token => trivial
  | reading name => trivial
  | weighing name => trivial
  | stamped => exact hfits
  | renewGated token => exact h.gate hfits
  | releaseGated token => exact h.gate hfits
  | releaseAsking name => exact h.gate hfits
  | claiming claimant token => exact fun hclaimant => h.terminal (hfits hclaimant)
  | claimGated claimant token =>
    exact ⟨h.gate hfits.1, fun hclaimant => h.terminal (hfits.2 hclaimant)⟩
  | rewriting rewrite token =>
    cases rewrite with
    | renew => exact ⟨h.gate hfits.1, h.unclaimed hfits.1 hfits.2.1, hfits.2.2⟩
    | claim claimant =>
      exact ⟨h.gate hfits.1, hfits.2.1, fun hclaimant => h.terminal (hfits.2.2 hclaimant)⟩
    | promote => exact hfits
  | replacing rewrite token =>
    have hother := h.other rewrite token rfl
    cases rewrite with
    | renew =>
      obtain ⟨⟨hgate, hclaimed, hcopy⟩, hnone⟩ := hfits
      exact ⟨⟨h.gate hgate, h.unclaimed hgate hclaimed, hcopy⟩, hother hnone⟩
    | claim claimant =>
      obtain ⟨⟨hgate, hstate, hterminal⟩, hnone⟩ := hfits
      exact ⟨⟨h.gate hgate, hstate, fun hclaimant => h.terminal (hterminal hclaimant)⟩,
        hother hnone⟩
    | promote => exact ⟨hfits.1, hother hfits.2⟩
  | leaving next =>
    cases next with
    | done => exact h.gate hfits
    | remove name => exact ⟨h.gate hfits.1, h.claimed hfits.2.1, h.terminal hfits.2.2⟩
    | recover token => exact ⟨h.gate hfits.1, h.claimed hfits.2⟩
  | judging token => exact fun hstate => h.claimed (hfits hstate)
  | observing token => exact fun hstate => h.claimed (hfits hstate)
  | recovering token => exact h.claimed hfits
  | reaping name removal =>
    cases removal with
    | executionOver => exact ⟨h.claimed hfits.1, hfits.2.imp h.terminal h.recovered⟩
    | unread => trivial
    | active => exact hfits
    | missing => exact hfits
  | withdrawing name removal =>
    cases removal with
    | executionOver => exact ⟨h.gate hfits.1, h.terminal hfits.2⟩
    | active => exact ⟨h.gate hfits.1, h.unclaimed hfits.1 hfits.2⟩
    | missing =>
      refine ⟨h.gate hfits.1, fun hclaimed => h.missing hfits.1 hclaimed name ?_⟩
      apply hfits.2
      by_contra hnot
      have hkept := h.unclaimed hfits.1 (by simpa using hnot)
      rw [hclaimed] at hkept
      cases hkept
    | unread => exact h.gate hfits

end Booley.JobSlots
