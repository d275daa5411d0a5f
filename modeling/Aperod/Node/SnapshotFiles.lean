import Aperod.Core.Block
import Aperod.Go.Map
import Aperod.Go.Sort

/-!
# Startup snapshots on disk

`cmd/node/snapshot.go`: at every height there may be a snapshot file and a backup of it, each with a
checksum beside it.  A directory has the finished files only: temporary files are written before
they are renamed into place and are never read.  A checksum file is the digest it spells.

Saving and deleting are scripts of file operations (`FileOp`), each of which happens or not, so a
crash leaves what the operations before it made (`SnapshotDir.crash`).
-/

namespace Aperod

open Go

/-! ### Files -/

/-- `startupSnapshot`; the body is what only the encoder looks at. -/
structure StartupSnapshot (B : Type) where
  version : Nat
  tipHeight : Nat
  tipHash : Hash32
  body : B
  deriving DecidableEq

def snapVersion : Nat := 2

/-- Compressed JSON and its digest.  An encoded snapshot is never as small as a truncated one. -/
structure SnapshotCodec (B : Type) where
  sha256 : Bytes → Hash32
  encode : StartupSnapshot B → Bytes
  decode : Bytes → Option (StartupSnapshot B)
  decode_encode : ∀ snap, decode (encode snap) = some snap
  encode_length : ∀ snap, 100 ≤ (encode snap).length

/-- A snapshot file: the primary of a height (`snapshotPath`) or its backup (`snapshotPrevPath`). -/
structure SnapshotFile where
  height : Nat
  prev : Bool := false
  deriving DecidableEq

/-- A name in the directory: a snapshot file or its checksum (`snapshotChecksumPath`). -/
inductive DirEntry
  | file (f : SnapshotFile)
  | checksum (f : SnapshotFile)
  deriving DecidableEq

/-- The data directory. -/
structure SnapshotDir where
  files : GoMap SnapshotFile Bytes := ∅
  checksums : GoMap SnapshotFile Hash32 := ∅
  deriving DecidableEq

/-- The name exists. -/
def SnapshotDir.has (d : SnapshotDir) : DirEntry → Bool
  | .file f => d.files.has f
  | .checksum f => d.checksums.has f

/-- What `os.ReadDir` gives: the names that exist, each once. -/
def SnapshotDir.Lists (d : SnapshotDir) (entries : List DirEntry) : Prop :=
  entries.Nodup ∧ ∀ e, e ∈ entries ↔ d.has e = true

/-! ### Operations -/

/-- A file operation that happens or does not. -/
inductive FileOp
  /-- `copySnapshotChecksum` -/
  | copyChecksum (src dst : SnapshotFile)
  | copyFile (src dst : SnapshotFile)
  | writeChecksum (f : SnapshotFile) (digest : Hash32)
  /-- The rename of the written snapshot. -/
  | rename (f : SnapshotFile) (bytes : Bytes)
  | remove (e : DirEntry)

/-- The directory after an operation. -/
def SnapshotDir.exec (d : SnapshotDir) : FileOp → SnapshotDir
  | .copyChecksum src dst =>
    match d.checksums.get src with
    | none => { d with checksums := d.checksums.del dst }
    | some digest => { d with checksums := d.checksums.set dst digest }
  | .copyFile src dst =>
    match d.files.get src with
    | none => d
    | some bytes => { d with files := d.files.set dst bytes }
  | .writeChecksum f digest => { d with checksums := d.checksums.set f digest }
  | .rename f bytes => { d with files := d.files.set f bytes }
  | .remove (.file f) => { d with files := d.files.del f }
  | .remove (.checksum f) => { d with checksums := d.checksums.del f }

/-- The directory a crash after `n` operations leaves. -/
def SnapshotDir.crash (d : SnapshotDir) (script : List FileOp) (n : Nat) : SnapshotDir :=
  (script.take n).foldl SnapshotDir.exec d

/-! ### Saving and deleting -/

variable {B : Type} (K : SnapshotCodec B)

/-- Copy the primary of a height to its backup, the checksum first. -/
def promote (height : Nat) : List FileOp :=
  [.copyChecksum ⟨height, false⟩ ⟨height, true⟩, .copyFile ⟨height, false⟩ ⟨height, true⟩]

/-- The first other primary in the directory. -/
def otherPrimary (height : Nat) (entries : List DirEntry) : Option Nat :=
  entries.findSome? fun
    | .file ⟨h, false⟩ => if h = height then none else some h
    | _ => none

/-- The heights whose primaries `saveStartupSnapshot` promotes. -/
def SnapshotDir.promoted (d : SnapshotDir) (entries : List DirEntry) (height : Nat) : List Nat :=
  (if d.files.has ⟨height, false⟩ then [height] else []) ++ (otherPrimary height entries).toList

/-- `saveStartupSnapshot`, in a directory with these entries. -/
def saveStartupSnapshot (d : SnapshotDir) (entries : List DirEntry) (snap : StartupSnapshot B) :
    List FileOp :=
  let bytes := K.encode snap
  (d.promoted entries snap.tipHeight).flatMap promote ++
    [.writeChecksum ⟨snap.tipHeight, false⟩ (K.sha256 bytes), .rename ⟨snap.tipHeight, false⟩ bytes]

/-- The height of the newest backup; zero if there is none. -/
def bestPrevHeight (entries : List DirEntry) : Nat :=
  entries.foldl (fun best e =>
    match e with
    | .file ⟨h, true⟩ => if h > best then h else best
    | _ => best) 0

/-- The files `deleteOldSnapshots` keeps. -/
def keepsFile (entries : List DirEntry) (keep : Nat) (f : SnapshotFile) : Bool :=
  f = ⟨keep, false⟩ || bestPrevHeight entries ≠ 0 && f = ⟨bestPrevHeight entries, true⟩

def deleteOldSnapshots (entries : List DirEntry) (keep : Nat) : List FileOp :=
  (entries.filter fun
    | .file f => !keepsFile entries keep f
    | .checksum f => !keepsFile entries keep f).map .remove

/-! ### Loading -/

/-- Why a snapshot could not be loaded; `os.ErrNotExist` apart from everything else. -/
inductive LoadError
  | notExist
  | failed (msg : String)

variable (d : SnapshotDir)

/-- `openGzipSnapshotReader` with `verifySnapshotChecksum`: the bytes of the file. -/
def openSnapshot (f : SnapshotFile) : Except LoadError Bytes :=
  match d.files.get f with
  | none => .error .notExist
  | some bytes =>
    if bytes.length < 100 then .error (.failed "snapshot file is truncated or empty")
    else match d.checksums.get f with
      | none => .ok bytes
      | some want =>
        if K.sha256 bytes = want then .ok bytes else .error (.failed "snapshot checksum mismatch")

/-- Decode, and compare version and height. -/
def checkSnapshot (height : Nat) (bytes : Bytes) : Except LoadError (StartupSnapshot B) :=
  match K.decode bytes with
  | none => .error (.failed "decode snapshot")
  | some snap =>
    if snap.version ≠ snapVersion then .error (.failed "snapshot version mismatch")
    else if snap.tipHeight ≠ height then .error (.failed "snapshot height mismatch")
    else .ok snap

def readSnapshot (f : SnapshotFile) (height : Nat) : Except LoadError (StartupSnapshot B) := do
  let bytes ← openSnapshot K d f
  checkSnapshot K height bytes

def tryLoadSnapshotFile (f : SnapshotFile) (wantHeight : Nat) : Option (StartupSnapshot B) :=
  (readSnapshot K d f wantHeight).toOption

end Aperod
