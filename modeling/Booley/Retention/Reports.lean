import Booley.Lib.Dict
import Booley.Lib.Prog
import Mathlib.Data.List.Sort

/-!
# Simulation invocations under one reports root

What full pruning reads and writes: the numbered invocation directories, the quarantines they
are renamed to, and in them the pruning journals, the dependency receipts of each campaign and
the reports and projections that cite a campaign manifest.
-/
namespace Booley.Retention

open Booley.Lib

/-- The manifest of one campaign, by its invocation and Target. -/
structure ManifestPath where
  invocation : Nat
  target : String
deriving DecidableEq

/-- One stored dependency receipt: the resume that depends on an origin campaign. -/
structure Receipt where
  campaignId : String
  originInvocation : Nat
  originTarget : String
  dependentInvocation : Nat
deriving DecidableEq

/-- A receipt as its origin reads it back. -/
structure CampaignDependencyReceipt extends Receipt where
  authoritative : Bool
deriving DecidableEq

/-- What is left of an attempt without a result: its lane and its owned run directory. -/
structure InterruptedAttempt where
  lane : Option String
  ownedRun : Option String
deriving DecidableEq

/-- A campaign on disk. `campaignId` is the manifest's, when it is a version 4 UUID; a receipt
file that cannot be decoded is `none`; `producers` are the producer ids of its attempt and
result files that can be read. -/
structure Campaign where
  target : String
  campaignId : Option String
  sha256 : String
  receipts : List (Option Receipt)
  producers : List Int
  interrupted : List InterruptedAttempt
deriving DecidableEq

/-- The place an artifact reference names. `externalOriginTarget` is the manifest of the Target
directory the reader supplies as that base. -/
inductive ReferencePath where
  | reportsRoot (manifest : ManifestPath)
  | externalOriginTarget
deriving DecidableEq

structure ArtifactReference where
  path : ReferencePath
  kind : String
  owner : String
  sha256 : String
deriving DecidableEq

/-- One campaign a report lists; a manifest reference that does not decode is `none`. -/
structure ReportCampaign where
  campaignId : String
  manifest : Option ArtifactReference
deriving DecidableEq

/-- The evidence of one invocation. `report` is what `report.json` lists, `none` inside when it
lists nothing readable; each projection is the absolute campaign manifest it names. `files` are
the names of its own top-level entries: without any, there is nothing to read. -/
structure Invocation where
  files : List String
  campaigns : List Campaign
  report : Option (Option (List ReportCampaign))
  projections : List (Option ManifestPath)
  bare : files = [] → campaigns = [] ∧ report = none ∧ projections = []
deriving DecidableEq

structure PruneJournal where
  invocation : Nat
  operation : String
deriving DecidableEq

structure PruneBatch where
  origin : Nat
  members : List Nat
deriving DecidableEq

/-- An invocation directory: its evidence and what pruning wrote beside it. `temporaries` are the
temporary files of writes that were cut short. -/
structure Directory where
  invocation : Invocation
  pruneJournal : Option PruneJournal
  batchJournal : Option PruneBatch
  temporaries : List String
deriving DecidableEq

/-- A quarantined invocation directory and what is still in it. `others` are its entries other
than the two journals. -/
structure Quarantine where
  pruneJournal : Option PruneJournal
  batchJournal : Option PruneBatch
  others : List String
deriving DecidableEq

/-- An entry of a quarantine other than its prune journal. -/
inductive Child where
  | batchJournal
  | other (name : String)
deriving DecidableEq

namespace Quarantine

def children (quarantine : Quarantine) : List Child :=
  (if quarantine.batchJournal.isSome then [.batchJournal] else []) ++
    quarantine.others.map .other

def remove (quarantine : Quarantine) : Child → Quarantine
  | .batchJournal => { quarantine with batchJournal := none }
  | .other name => { quarantine with others := quarantine.others.erase name }

/-- A quarantine with nothing left in it. -/
def empty (quarantine : Quarantine) : Bool :=
  quarantine.pruneJournal.isNone && quarantine.batchJournal.isNone && quarantine.others.isEmpty

theorem children_eq_nil {quarantine : Quarantine} :
    quarantine.children = [] ↔ quarantine.batchJournal = none ∧ quarantine.others = [] := by
  cases h : quarantine.batchJournal <;> simp [children, h]

/-- Removing an entry leaves the others. -/
theorem children_remove {quarantine : Quarantine} {child : Child} {rest : List Child}
    (h : quarantine.children.Perm (child :: rest)) :
    (quarantine.remove child).children.Perm rest := by
  cases child with
  | batchJournal =>
    cases hbatch : quarantine.batchJournal with
    | none =>
      have hmem : Child.batchJournal ∈ quarantine.children := h.mem_iff.mpr (by simp)
      simp [children, hbatch] at hmem
    | some batch =>
      simp only [children, hbatch, Option.isSome_some, if_true, List.singleton_append,
        List.perm_cons] at h
      simpa [children, remove] using h
  | other name =>
    have herase := h.erase (.other name)
    rw [List.erase_cons_head] at herase
    have hmap : (quarantine.others.map Child.other).erase (.other name) =
        (quarantine.others.erase name).map .other :=
      (List.map_erase (fun _ _ h => by injection h) quarantine.others).symm
    cases hbatch : quarantine.batchJournal with
    | none => simpa [children, remove, hbatch, hmap] using herase
    | some batch => simpa [children, remove, hbatch, hmap] using herase

end Quarantine

/-- Everything under the reports root, with the run directories that survive outside it.
`foreignLocks` are the invocations whose lock file is not the empty sentinel. -/
structure Reports where
  invocations : Dict Nat Directory
  quarantines : Dict Nat Quarantine
  foreignLocks : List Nat
  runDirectories : List String

/-- The path order of invocation numbers: that of their decimal digits. -/
def pathLe (a b : Nat) : Bool :=
  !((Nat.toDigits 10 b).map Char.toNat).lex ((Nat.toDigits 10 a).map Char.toNat) (· < ·)

/-- Invocations in path order. -/
def sortedPaths (paths : List Nat) : List Nat := paths.insertionSort (pathLe · ·)

theorem sortedPaths_perm (paths : List Nat) : (sortedPaths paths).Perm paths :=
  List.perm_insertionSort _ paths

@[simp] theorem mem_sortedPaths {paths : List Nat} {n : Nat} :
    n ∈ sortedPaths paths ↔ n ∈ paths := (sortedPaths_perm paths).mem_iff

/-! ## The files of one invocation -/

namespace Directory

/-- An invocation directory with nothing in it. -/
def empty (directory : Directory) : Bool :=
  directory.invocation.files.isEmpty && directory.pruneJournal.isNone &&
    directory.batchJournal.isNone && directory.temporaries.isEmpty

/-- The directory once it is renamed to its quarantine. -/
def quarantined (directory : Directory) : Quarantine where
  pruneJournal := directory.pruneJournal
  batchJournal := directory.batchJournal
  others := directory.temporaries ++ directory.invocation.files

/-- The prune journal is the one this invocation's pruning writes. -/
def matchingPruneJournal (directory : Directory) (n : Nat) : Bool :=
  directory.pruneJournal = some ⟨n, "full"⟩

end Directory

namespace Reports

/-- The directory is gone and its quarantine is empty: the number cannot be used again. -/
def completedTombstone (reports : Reports) (n : Nat) : Bool :=
  (reports.invocations.lookup n).isNone &&
    match reports.quarantines.lookup n with
    | some quarantine => quarantine.empty
    | none => false

/-- The directory is gone and its quarantine still holds the prune journal. -/
def recoverableQuarantine (reports : Reports) (n : Nat) : Bool :=
  (reports.invocations.lookup n).isNone &&
    match reports.quarantines.lookup n with
    | some quarantine => quarantine.pruneJournal.isSome
    | none => false

/-- A reservation abandoned before anything was published in it. -/
def emptyAbandonedReservation (reports : Reports) (n : Nat) : Bool :=
  match reports.invocations.lookup n with
  | some directory => directory.empty && !reports.foreignLocks.contains n
  | none => false

/-- The campaigns of an invocation, in path order. -/
def campaigns (reports : Reports) (n : Nat) : List Campaign :=
  match reports.invocations.lookup n with
  | some directory => directory.invocation.campaigns
  | none => []

end Reports

end Booley.Retention
