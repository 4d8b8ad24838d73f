import Booley.Admission.Sandboxes
import Booley.Lib.Runs

/-!
# Orders of starts

Admission calls with the headless starts they admit, and what Docker does to containers between
them. A VS Code creation or start follows a claim of its Project, and a start uses the claim up.
-/
namespace Booley.Admission

open Booley.Lib

/-- Docker starts a container, at a time of its own. -/
def Host.start (host : Host) (id : String) : Host :=
  { host with
    sandboxes := modifyKey (·.containerId) id
      (fun item => { item with running := true, startedAt := some host.clock }) host.sandboxes
    clock := host.clock + 1 }

def Host.stop (host : Host) (id : String) : Host :=
  { host with
    sandboxes := modifyKey (·.containerId) id (fun item => { item with running := false })
      host.sandboxes }

/-- Docker creates a container, which has not been started. -/
def Host.create (host : Host) (item : Sandbox) : Host :=
  { host with
    sandboxes := host.sandboxes ++ [{ item with running := false, startedAt := none }] }

def Host.remove (host : Host) (id : String) : Host :=
  { host with sandboxes := removeKey (·.containerId) id host.sandboxes }

/-- A host, and the Projects whose last claim has not been used by a start or cleared. -/
structure World where
  host : Host
  awaiting : List String

inductive Event where
  /-- `admit_start`, and the headless start that may come of it. -/
  | admission (root targetName : String)
  /-- `claim_vscode_start` -/
  | claim (root : String)
  /-- `clear_vscode_claim` -/
  | clear (root : String)
  | create (item : Sandbox)
  | start (id : String)
  | stop (id : String)
  | restart (id : String)
  | remove (id : String)

/-- The calls that reconcile the claims of the host. -/
def Event.reconciles : Event → Bool
  | .admission .. | .claim _ => true
  | _ => false

/-- A call that returns with a claim of the Project pending lets VS Code start it. -/
def awaitingAfter (awaiting : List String) (root : String) (host : Host)
    (outcome : Except AdmissionError Bool) : List String :=
  match outcome with
  | .ok _ => if host.claims.any (·.projectRoot == root) then root :: awaiting else awaiting
  | .error _ => awaiting

section Steps

variable [ProjectLabels]

inductive Step (maxSessions : Nat) (world : World) : Event → World → Prop
  | admission {root targetName : String} {host : Host} {outcome : Except AdmissionError Unit}
      (hadmitted : admitStart maxSessions world.host root targetName = (host, outcome)) :
      Step maxSessions world (.admission root targetName) { world with host }
  /-- The admitted headless Sandbox exists and is started. -/
  | resume {root : String} {host : Host} {item : Sandbox}
      (hadmitted : admitStart maxSessions world.host root item.name = (host, .ok ()))
      (hlive : ∀ live ∈ host.inventory, live.name ≠ item.name)
      (hitem : item ∈ host.sandboxes) (hheadless : item.vscode = false) :
      Step maxSessions world (.admission root item.name)
        { world with host := host.start item.containerId }
  /-- The admitted headless Sandbox is created and started. -/
  | launch {root : String} {host : Host} {item : Sandbox}
      (hadmitted : admitStart maxSessions world.host root item.name = (host, .ok ()))
      (hlive : ∀ live ∈ host.inventory, live.name ≠ item.name)
      (hfresh : ∀ held ∈ host.sandboxes, held.containerId ≠ item.containerId)
      (hheadless : item.vscode = false) :
      Step maxSessions world (.admission root item.name)
        { world with host := (host.create item).start item.containerId }
  | claim {root : String} {host : Host} {outcome : Except AdmissionError Bool}
      (hclaim : claimVscodeStart maxSessions world.host root = (host, outcome)) :
      Step maxSessions world (.claim root)
        ⟨host, awaitingAfter world.awaiting root host outcome⟩
  | clear {root : String} :
      Step maxSessions world (.clear root)
        ⟨(clearVscodeClaim world.host root).1, world.awaiting.filter (· != root)⟩
  | create {item : Sandbox} (hawaits : item.projectRoot ∈ world.awaiting)
      (hfresh : ∀ held ∈ world.host.sandboxes, held.containerId ≠ item.containerId)
      (hidentity : validIdentity item item.projectRoot = true) (hvscode : item.vscode = true) :
      Step maxSessions world (.create item) { world with host := world.host.create item }
  | start {item : Sandbox} (hitem : item ∈ world.host.sandboxes)
      (hstopped : item.running = false) (hvscode : item.vscode = true)
      (hawaits : item.projectRoot ∈ world.awaiting) :
      Step maxSessions world (.start item.containerId)
        ⟨world.host.start item.containerId, world.awaiting.filter (· != item.projectRoot)⟩
  | stop {item : Sandbox} (hitem : item ∈ world.host.sandboxes) :
      Step maxSessions world (.stop item.containerId)
        { world with host := world.host.stop item.containerId }
  | restart {item : Sandbox} (hitem : item ∈ world.host.sandboxes)
      (hrunning : item.running = true) :
      Step maxSessions world (.restart item.containerId)
        { world with host := world.host.start item.containerId }
  | remove {item : Sandbox} (hitem : item ∈ world.host.sandboxes) :
      Step maxSessions world (.remove item.containerId)
        { world with host := world.host.remove item.containerId }

/-- A claim the code takes for unconsumed among the Sandboxes of the host. -/
def unconsumedClaims (host : Host) : List PendingStartClaim :=
  host.claims.filter fun claim => !isConsumed host.sandboxes claim

end Steps

/-- A Sandbox of a claim's Project was started after the claim was made. -/
def StartedSince (host : Host) (claim : PendingStartClaim) : Prop :=
  ∃ item ∈ host.sandboxes, item.vscode = true ∧ item.projectRoot = claim.projectRoot ∧
    ∃ time, item.startedAt = some time ∧ claim.claimedAt ≤ time

/-- Every container created since a claim of its Project was started, or another one was. -/
def CreationsStarted (host : Host) : Prop :=
  ∀ claim ∈ host.claims, ∀ item ∈ host.sandboxes, item.vscode = true →
    item.projectRoot = claim.projectRoot → item.startedAt = none →
      claim.baseline.lookup item.containerId = some none ∨ StartedSince host claim

/-- No call reconciles the claims between the creation of a claimed container and its start. -/
def Undisturbed (world : World) (event : Event) : Prop :=
  event.reconciles = true → CreationsStarted world.host

end Booley.Admission
