import Booley.Lib.LooseText
import Mathlib.Data.List.Infix

/-!
# Guarded writes

A scaffold file is reconciled by its ownership: a file without an owner marker is only created, a
file with one is kept up to date, and a foreign file in its place is left alone or backed up
first. A file is replaced in one step, and any step that touches the disk may fail.
-/
namespace Booley.Files

open Booley.Lib

/-! ## One directory -/

inductive Platform where
  | posix
  | windows
  deriving DecidableEq, Repr

def Platform.lineEnd : Platform → LooseText
  | .posix => loose ['\n']
  | .windows => loose ['\r', '\n']

/-- What a name stands for. The mode holds the permission bits. -/
inductive Node where
  | regular (bytes : List UInt8) (mode : Nat)
  | symlink (target : List Char)
  | other (mode : Nat)
  deriving DecidableEq

/-- What the names of one directory stand for. -/
abbrev Directory := List Char → Option Node

def Directory.put (dir : Directory) (name : List Char) (node : Node) : Directory :=
  fun other => if other = name then some node else dir other

@[simp] theorem Directory.put_same (dir : Directory) (name : List Char) (node : Node) :
    dir.put name node name = some node := if_pos rfl

theorem Directory.put_other (dir : Directory) {name other : List Char} (node : Node)
    (h : other ≠ name) : dir.put name node other = dir other := if_neg h

/-- The steps that may fail. The last step of a write comes after the change has happened. -/
inductive DiskStep where
  | openBackup | stageBackup | linkBackup | syncBackup
  | stageTarget | replaceTarget | syncTarget
  | openHeal | chmodHeal
  deriving DecidableEq, Repr

abbrev Faults := DiskStep → Bool

/-- The call that is made. -/
structure WriteRequest where
  target : List Char
  content : LooseText
  ownerMarker : Option LooseText
  backupSuffix : Option (List Char)
  newline : Option LooseText
  executable : Bool

inductive WriteOutcome where
  | written | unchanged | skipped | refused | backedUp
  deriving DecidableEq, Repr

inductive WriteError where
  | lacksMarker | unreadable | notRegular | badName | noBackupName | encoding
  | failed (step : DiskStep)
  deriving DecidableEq, Repr

/-! ## Reading and planning -/

/-- A process can read its own files that have the owner's read bit. -/
def readable (platform : Platform) (mode : Nat) : Bool :=
  platform = .windows || mode.testBit 8

/-- The text of some bytes, with exact line ends where the writer pins them. -/
def textView (preserveNewlines : Bool) (text : List Char) : List Char :=
  if preserveNewlines then text else universalNewlines text

def readExistingText (platform : Platform) (preserveNewlines : Bool) : Node → Option (List Char)
  | .regular bytes mode =>
    if readable platform mode then some (textView preserveNewlines (decodeReplace bytes)) else none
  | _ => none

/-- The marker is somewhere in the text. -/
def carries (marker : LooseText) (text : List Char) : Bool := decide (marker <:+: loose text)

/-- What happens to a managed file, by its text when it can be read. -/
def plannedManagedOutcome (request : WriteRequest) (marker : LooseText) :
    Option (List Char) → WriteOutcome
  | some existing =>
    if carries marker existing then
      if loose existing = request.content then .unchanged else .written
    else if request.backupSuffix.isSome then .backedUp else .refused
  | none => if request.backupSuffix.isSome then .backedUp else .refused

def plannedWriteOutcome (platform : Platform) (request : WriteRequest) : Option Node → WriteOutcome
  | some (.symlink _) => .refused
  | none => .written
  | some node =>
    match request.ownerMarker with
    | none => .skipped
    | some marker => plannedManagedOutcome request marker
        (readExistingText platform request.newline.isSome node)

/-! ## Modes -/

/-- An execute bit wherever the matching read bit is set. -/
def executableMode (mode : Nat) : Nat := mode ||| (mode &&& 0o444) >>> 2

def modeOf : Node → Nat
  | .regular _ mode => mode
  | .symlink _ => 0o777
  | .other mode => mode

def targetMode (executable : Bool) (node : Option Node) : Nat :=
  let mode := match node with
    | some node => modeOf node &&& 0o755
    | none => 0o644
  if executable then executableMode mode else mode

def executableModePending (platform : Platform) (request : WriteRequest) (outcome : WriteOutcome)
    (node : Option Node) : Bool :=
  platform = .posix && outcome = .unchanged && request.executable &&
    node.any fun found => modeOf found != targetMode true node

/-! ## Writing -/

/-- The content with the line ends a text-mode write gives it. -/
def translated (platform : Platform) (request : WriteRequest) : LooseText :=
  let newline := request.newline.getD platform.lineEnd
  if newline.isEmpty || newline == loose ['\n'] then request.content
  else request.content.flatMap fun point => if point = .inl '\n' then newline else [point]

def encoded (platform : Platform) (request : WriteRequest) : Option (List UInt8) :=
  (scalars? (translated platform request)).map utf8

/-- The result of a call and the directory it leaves. -/
abbrev Written (α : Type) := Except WriteError α × Directory

def replaceRegularFile (platform : Platform) (request : WriteRequest) (faults : Faults)
    (bytes : List UInt8) (dir : Directory) : Written Unit :=
  let mode := targetMode request.executable (dir request.target)
  let staged := if platform = .windows then mode ||| 0o200 else mode
  if faults .stageTarget then (.error (.failed .stageTarget), dir)
  else if faults .replaceTarget then (.error (.failed .replaceTarget), dir)
  else
    let after := dir.put request.target (.regular bytes staged)
    if faults .syncTarget then (.error (.failed .syncTarget), after) else (.ok (), after)

/-- The backup names in the order they are tried. -/
def backupNames (target suffix : List Char) : List (List Char) :=
  (List.range 100).map fun number =>
    target ++ suffix ++ if number = 0 then [] else '.' :: Nat.toDigits 10 number

def separators : Platform → List Char
  | .posix => ['/']
  | .windows => ['/', '\\']

def linkBackup (faults : Faults) (name : List Char) (bytes : List UInt8) (mode : Nat)
    (dir : Directory) : Written Unit :=
  if faults .stageBackup then (.error (.failed .stageBackup), dir)
  else if faults .linkBackup then (.error (.failed .linkBackup), dir)
  else
    let after := dir.put name (.regular bytes mode)
    if faults .syncBackup then (.error (.failed .syncBackup), after) else (.ok (), after)

/-- Copy the target to the first free backup name. -/
def backUp (platform : Platform) (request : WriteRequest) (suffix : List Char) (faults : Faults)
    (dir : Directory) : Written Unit :=
  match dir request.target with
  | some (.regular bytes mode) =>
    if !readable platform mode then (.error .unreadable, dir)
    else if faults .openBackup then (.error (.failed .openBackup), dir)
    else if suffix.any (separators platform).contains then (.error .badName, dir)
    else
      match (backupNames request.target suffix).find? fun name => (dir name).isNone with
      | none => (.error .noBackupName, dir)
      | some name => linkBackup faults name bytes mode dir
  | _ => (.error .notRegular, dir)

/-- Fix the execute bits of an unchanged file. -/
def healExecutableMode (platform : Platform) (request : WriteRequest) (faults : Faults)
    (dir : Directory) : Written Unit :=
  match platform, dir request.target with
  | .posix, some (.regular bytes mode) =>
    if faults .openHeal then (.error (.failed .openHeal), dir)
    else
      let wanted := targetMode true (some (.regular bytes mode))
      if mode = wanted then (.ok (), dir)
      else if faults .chmodHeal then (.error (.failed .chmodHeal), dir)
      else (.ok (), dir.put request.target (.regular bytes wanted))
  | _, _ => (.ok (), dir)

/-- Encode the content and publish it. -/
def publish (platform : Platform) (request : WriteRequest) (faults : Faults) (dir : Directory) :
    Written Unit :=
  match encoded platform request with
  | none => (.error .encoding, dir)
  | some bytes => replaceRegularFile platform request faults bytes dir

/-- Do what is planned. -/
def perform (platform : Platform) (request : WriteRequest) (faults : Faults) (dir : Directory) :
    WriteOutcome → Written Unit
  | .written => publish platform request faults dir
  | .unchanged =>
    if request.executable then healExecutableMode platform request faults dir else (.ok (), dir)
  | .backedUp =>
    match backUp platform request (request.backupSuffix.getD []) faults dir with
    | (.error error, after) => (.error error, after)
    | (.ok (), after) => publish platform request faults after
  | .skipped => (.ok (), dir)
  | .refused => (.ok (), dir)

/-- The content has the marker that makes it the writer's own. -/
def hasOwnMarker (request : WriteRequest) : Bool :=
  match request.ownerMarker with
  | none => true
  | some marker => decide (marker <:+: request.content)

def planned (platform : Platform) (request : WriteRequest) (dir : Directory) : WriteOutcome :=
  plannedWriteOutcome platform request (dir request.target)

def guardedWrite (platform : Platform) (request : WriteRequest) (dryRun : Bool) (faults : Faults)
    (dir : Directory) : Written WriteOutcome :=
  if !hasOwnMarker request then (.error .lacksMarker, dir)
  else
    let outcome := planned platform request dir
    if outcome = .skipped ∨ outcome = .refused then (.ok outcome, dir)
    else if dryRun then
      (.ok (if executableModePending platform request outcome (dir request.target) then .written
        else outcome), dir)
    else
      match perform platform request faults dir outcome with
      | (.error error, after) => (.error error, after)
      | (.ok (), after) => (.ok outcome, after)

end Booley.Files
