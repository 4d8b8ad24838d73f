import Booley.Lib.Dict
import Booley.Lib.Keyed

/-!
# Sandboxes and start claims

The Booley Sandboxes Docker holds, the VS Code start claims of the host, and what an admission
call reads of both.
-/
namespace Booley.Admission

open Booley.Lib

/-- The digest behind Project labels. -/
class ProjectLabels where
  sha256 : String → String

section Labels

variable [ProjectLabels]

def projectLabelId (canonicalRoot : String) : String := ProjectLabels.sha256 canonicalRoot

def projectNameId (canonicalRoot : String) : String :=
  ((projectLabelId canonicalRoot).take 32).toString

def matchesProjectLabel (label : Option String) (canonicalRoot : String) : Bool :=
  label == some (projectLabelId canonicalRoot) || label == some (projectNameId canonicalRoot)

end Labels

/-- One inspected Sandbox. A start gets the time of the host's clock. -/
structure Sandbox where
  containerId : String
  name : String
  projectRoot : String
  projectId : Option String
  startedAt : Option Nat
  running : Bool
  vscode : Bool
deriving DecidableEq, Repr

/-- A VS Code start admitted before Docker creates its Sandbox. -/
structure PendingStartClaim where
  projectRoot : String
  claimedAt : Nat
  baseline : Dict String (Option Nat)
deriving DecidableEq

/-- What Docker and the claim directory hold. -/
structure Host where
  sandboxes : List Sandbox
  claims : List PendingStartClaim
  clock : Nat
deriving DecidableEq

inductive AdmissionError where
  /-- A Sandbox whose label disagrees with the Project it works on. -/
  | identity (item : Sandbox) (root : String)
  | refusal (maxSessions : Nat) (live : List Sandbox) (claims : List PendingStartClaim)
      (diagnostics : List Sandbox)
deriving DecidableEq

/-- The running Sandboxes. -/
def Host.inventory (host : Host) : List Sandbox := host.sandboxes.filter (·.running)

/-- The running and stopped editor Sandboxes of some Projects. -/
def Host.vscodeInventory (host : Host) (projectRoots : List String) : List Sandbox :=
  host.sandboxes.filter fun item => item.vscode && projectRoots.contains item.projectRoot

/-- Groups of Sandboxes in one, a later inspection of a container replacing an earlier one. -/
def mergeSandboxes (groups : List (List Sandbox)) : List Sandbox :=
  (groups.flatten.foldl (fun merged item => setItem merged item.containerId item) []).map (·.2)

section Reconciliation

variable [ProjectLabels]

def validIdentity (item : Sandbox) (root : String) : Bool :=
  [root, item.projectRoot].any (matchesProjectLabel item.projectId)

def startedToken (item : Sandbox) : Option Nat := item.startedAt

/-- A container is a claim's own when the claim did not see it, or saw it before its start. -/
def consumed (claim : PendingStartClaim) (item : Sandbox) : Bool :=
  match claim.baseline.lookup item.containerId with
  | none => true
  | some previous => previous != startedToken item

def applicable (sandboxes : List Sandbox) (root : String) : List Sandbox :=
  sandboxes.filter fun item => item.vscode && item.projectRoot == root

def mismatches (sandboxes : List Sandbox) (root : String) : List Sandbox :=
  (applicable sandboxes root).filter fun item => !validIdentity item root

/-- The editor Sandboxes of a Project, each of which must be the Project's own. -/
def projectVscodeSandboxes (root : String) (sandboxes : List Sandbox) :
    Except AdmissionError (List Sandbox) :=
  match (mismatches sandboxes root).head? with
  | some item => .error (.identity item root)
  | none => .ok (applicable sandboxes root)

/-- The claims a reconciliation leaves, and the Sandboxes it reports. -/
structure Reconciled where
  remaining : List PendingStartClaim
  diagnostics : List Sandbox

/-- Whether reconciliation takes a claim for consumed. -/
def isConsumed (sandboxes : List Sandbox) (claim : PendingStartClaim) : Bool :=
  (mismatches sandboxes claim.projectRoot).isEmpty &&
    (applicable sandboxes claim.projectRoot).any (consumed claim)

def reconcileClaims (sandboxes : List Sandbox) (requestingRoot : String) :
    List PendingStartClaim → Except AdmissionError Reconciled
  | [] => .ok ⟨[], []⟩
  | claim :: rest =>
    match claim.projectRoot == requestingRoot,
        (mismatches sandboxes claim.projectRoot).head? with
    | true, some item => .error (.identity item claim.projectRoot)
    | _, _ => do
      let later ← reconcileClaims sandboxes requestingRoot rest
      let diagnostics := mismatches sandboxes claim.projectRoot ++ later.diagnostics
      if isConsumed sandboxes claim then return { later with diagnostics }
      else return ⟨claim :: later.remaining, diagnostics⟩

structure AdmissionSnapshot where
  live : List Sandbox
  claims : List PendingStartClaim
  candidates : List Sandbox
  diagnostics : List Sandbox

/-- What an admission call reads. The claims it leaves out are removed from the host. -/
def admissionSnapshot (host : Host) (requestingRoot : String) (candidateRoots : List String) :
    Except AdmissionError AdmissionSnapshot := do
  let live := host.inventory
  let roots := host.claims.map (·.projectRoot) ++ candidateRoots
  let candidates := mergeSandboxes [live, host.vscodeInventory roots]
  let _ ← projectVscodeSandboxes requestingRoot candidates
  let reconciled ← reconcileClaims candidates requestingRoot host.claims
  return ⟨live, reconciled.remaining, candidates, reconciled.diagnostics⟩

/-- Admit a slot-consuming start that is no recovery. -/
def admitStart (maxSessions : Nat) (host : Host) (root targetName : String) :
    Host × Except AdmissionError Unit :=
  match admissionSnapshot host root [] with
  | .error refusal => (host, .error refusal)
  | .ok found =>
    ({ host with claims := found.claims },
      if found.live.any (·.name == targetName) then .ok ()
      else if maxSessions ≤ found.live.length + found.claims.length then
        .error (.refusal maxSessions found.live found.claims found.diagnostics)
      -- A headless start does not take its Project's editor reservation.
      else if found.claims.any (·.projectRoot == root) then
        .error (.refusal maxSessions found.live found.claims found.diagnostics)
      else .ok ())

/-- What a claim keeps of its Project's editor Sandboxes. -/
def baselineOf (sandboxes : List Sandbox) : Dict String (Option Nat) :=
  sandboxes.foldl (fun baseline item => baseline.insert item.containerId (startedToken item)) ∅

/-- Writing a claim replaces the one its Project has. -/
def writeClaim (claims : List PendingStartClaim) (claim : PendingStartClaim) :
    List PendingStartClaim :=
  removeKey (·.projectRoot) claim.projectRoot claims ++ [claim]

/-- Reserve a slot for a later VS Code start; `false` when there is nothing to reserve. -/
def claimVscodeStart (maxSessions : Nat) (host : Host) (root : String) :
    Host × Except AdmissionError Bool :=
  match admissionSnapshot host root [root] with
  | .error refusal => (host, .error refusal)
  | .ok found =>
    match projectVscodeSandboxes root found.candidates with
    | .error refusal => ({ host with claims := found.claims }, .error refusal)
    | .ok projectSandboxes =>
      if projectSandboxes.any (·.running) then ({ host with claims := found.claims }, .ok false)
      else if found.claims.any (·.projectRoot == root) then
        ({ host with claims := found.claims }, .ok false)
      else if maxSessions ≤ found.live.length + found.claims.length then
        ({ host with claims := found.claims },
          .error (.refusal maxSessions found.live found.claims found.diagnostics))
      else
        ({ host with
            claims := writeClaim found.claims ⟨root, host.clock, baselineOf projectSandboxes⟩ },
          .ok true)

/-- Remove a Project's claim, and say whether there was one. -/
def clearVscodeClaim (host : Host) (root : String) : Host × Bool :=
  ({ host with claims := removeKey (·.projectRoot) root host.claims },
    host.claims.any (·.projectRoot == root))

end Reconciliation

end Booley.Admission
