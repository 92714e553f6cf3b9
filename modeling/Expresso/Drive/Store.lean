import Expresso.Text.Str

/-! The drive tables with their constraints, and the statements that the handlers run on them.
A statement whose result breaks a constraint is refused. -/

namespace Expresso.Drive
open Text

abbrev Uuid := Nat

inductive Kind where
  | file
  | folder
  deriving DecidableEq

/-- A row of `drive_files`. Times are in microseconds. A storage key is the text of a generated
id, and names the blob of the content. -/
structure DriveFile where
  id : Uuid
  tenantId : Uuid
  ownerUserId : Uuid
  parentId : Option Uuid
  name : Str
  kind : Kind
  mimeType : Option Str
  sizeBytes : Int
  sha256 : Option Str
  storageKey : Option Uuid
  updatedAt : Int
  deletedAt : Option Int
  expiresAt : Option Int
  deriving DecidableEq

/-- A row of `drive_file_versions`. -/
structure FileVersion where
  fileId : Uuid
  tenantId : Uuid
  versionNo : Int
  storageKey : Uuid
  sizeBytes : Int
  sha256 : Option Str
  mimeType : Option Str
  createdBy : Uuid
  deriving DecidableEq

inductive Privilege where
  | read
  | write
  | admin
  deriving DecidableEq

/-- A row of `drive_file_acl`. -/
structure FileAcl where
  fileId : Uuid
  tenantId : Uuid
  granteeId : Uuid
  privilege : Privilege
  deriving DecidableEq

/-- A row of `drive_shares`. -/
structure Share where
  id : Uuid
  tenantId : Uuid
  fileId : Uuid
  revokedAt : Option Int
  deriving DecidableEq

/-- A row of `drive_uploads`. -/
structure UploadSession where
  id : Uuid
  tenantId : Uuid
  ownerUserId : Uuid
  parentId : Option Uuid
  name : Str
  mimeType : Option Str
  totalSize : Int
  offsetBytes : Int
  storageKey : Uuid
  expiresAt : Int
  deriving DecidableEq

/-- A row of `drive_wopi_locks`. -/
structure WopiLock where
  fileId : Uuid
  tenantId : Uuid
  lockToken : Str
  lockedBy : Uuid
  acquiredAt : Int
  expiresAt : Int
  deriving DecidableEq

structure Tables where
  files : List DriveFile
  versions : List FileVersion
  acls : List FileAcl
  shares : List Share
  uploads : List UploadSession
  locks : List WopiLock
  /-- `drive_quotas`: a tenant and its `max_bytes` -/
  quotas : List (Uuid × Int)
  deriving DecidableEq

/-! ### Constraints -/

/-- The primary keys, `uq_drive_files_sibling_name` and `UNIQUE (file_id, version_no)`. -/
@[reducible]
def Tables.Unique (t : Tables) : Prop :=
  (t.files.map (·.id)).Nodup ∧
  ((t.files.filter (·.deletedAt.isNone)).map fun f => (f.tenantId, f.parentId, f.name)).Nodup ∧
  (t.versions.map fun v => (v.fileId, v.versionNo)).Nodup ∧
  (t.acls.map fun a => (a.fileId, a.granteeId)).Nodup ∧
  (t.shares.map (·.id)).Nodup ∧
  (t.uploads.map (·.id)).Nodup ∧
  (t.locks.map (·.fileId)).Nodup

/-- The references to `drive_files`. -/
@[reducible]
def Tables.Referenced (t : Tables) : Prop :=
  let ids := t.files.map (·.id)
  (∀ f ∈ t.files, ∀ p ∈ f.parentId.toList, p ∈ ids) ∧
  (∀ v ∈ t.versions, v.fileId ∈ ids) ∧
  (∀ a ∈ t.acls, a.fileId ∈ ids) ∧
  (∀ share ∈ t.shares, share.fileId ∈ ids) ∧
  (∀ up ∈ t.uploads, ∀ p ∈ up.parentId.toList, p ∈ ids) ∧
  ∀ lock ∈ t.locks, lock.fileId ∈ ids

structure Store extends Tables where
  unique : toTables.Unique
  referenced : toTables.Referenced

inductive DriveError where
  | database
  | io
  | notFound (id : Uuid)
  | gone (id : Uuid)
  | conflict (text : Str)
  | badRequest (text : Str)
  | forbidden
  | unauthorized
  | quotaExceeded
  deriving DecidableEq

def require (condition : Prop) [Decidable condition] (e : DriveError) : Except DriveError Unit :=
  if condition then .ok () else .error e

theorem require_ok_iff {condition : Prop} [Decidable condition] {e : DriveError} :
    require condition e = .ok () ↔ condition := by
  unfold require
  split_ifs with holds
  · exact iff_of_true rfl holds
  · exact iff_of_false nofun holds

def orThrow {α : Type} (value : Option α) (e : DriveError) : Except DriveError α :=
  match value with
  | some a => .ok a
  | none => .error e

theorem orThrow_ok_iff {α : Type} {value : Option α} {e : DriveError} {a : α} :
    orThrow value e = .ok a ↔ value = some a := by
  cases value with
  | none => exact iff_of_false nofun nofun
  | some b => exact ⟨fun same => congrArg some (Except.ok.inj same), fun same =>
      congrArg Except.ok (Option.some.inj same)⟩

/-- Why a statement is refused. -/
inductive Refusal where
  | unique
  | reference
  deriving DecidableEq

def commit (t : Tables) : Except Refusal Store :=
  if unique : t.Unique then
    if referenced : t.Referenced then .ok ⟨t, unique, referenced⟩ else .error .reference
  else .error .unique

def mapConflict : Refusal → DriveError
  | .unique => .conflict "a sibling with this name already exists".toList
  | .reference => .database

theorem commit_ok_iff {t : Tables} {s : Store} :
    commit t = .ok s ↔ s.toTables = t := by
  unfold commit
  constructor
  · intro done
    split_ifs at done
    exact (Except.ok.inj done) ▸ rfl
  · rintro rfl
    rw [dif_pos s.unique, dif_pos s.referenced]

/-! ### `drive_files` -/

def liveIn (tenantId id : Uuid) (f : DriveFile) : Bool :=
  f.id = id && f.tenantId = tenantId && f.deletedAt.isNone

namespace FileRepo

structure NewFile where
  tenantId : Uuid
  ownerUserId : Uuid
  parentId : Option Uuid
  name : Str
  kind : Kind
  mimeType : Option Str
  sizeBytes : Int
  sha256 : Option Str
  storageKey : Option Uuid
  deriving DecidableEq

/-- The row of a new file, under the id that the database generates. -/
def newRow (f : NewFile) (id : Uuid) (now : Int) : DriveFile :=
  ⟨id, f.tenantId, f.ownerUserId, f.parentId, f.name, f.kind, f.mimeType, f.sizeBytes, f.sha256,
    f.storageKey, now, none, none⟩

/-- A generated id is a new one: no row has it, and no request names it. -/
def insertRow (row : DriveFile) (s : Store) : Except DriveError Store :=
  if ∀ p ∈ row.parentId.toList, p ∈ s.files.map (·.id) then
    (commit { s.toTables with files := s.files ++ [row] }).mapError mapConflict
  else .error .database

def insert (f : NewFile) (id : Uuid) (now : Int) (s : Store) :
    Except DriveError (Store × DriveFile) :=
  (insertRow (newRow f id now) s).map fun s' => (s', newRow f id now)

def find (tenantId id : Uuid) (s : Store) : Option DriveFile := s.files.find? (liveIn tenantId id)

def get (tenantId id : Uuid) (s : Store) : Except DriveError DriveFile :=
  orThrow (find tenantId id s) (.notFound id)

def findByName (tenantId : Uuid) (parentId : Option Uuid) (name : Str) (s : Store) :
    Option DriveFile :=
  s.files.find? fun f =>
    f.tenantId = tenantId && f.parentId = parentId && f.name = name && f.deletedAt.isNone

/-- The row that shares the blob of another one. -/
def copyOf (tenantId ownerUserId : Uuid) (parentId : Option Uuid) (name : Str) (id : Uuid)
    (now : Int) (src : DriveFile) : DriveFile :=
  newRow ⟨tenantId, ownerUserId, parentId, name, src.kind, src.mimeType, src.sizeBytes, src.sha256,
    src.storageKey⟩ id now

def copyFile (tenantId ownerUserId srcId : Uuid) (newName : Str) (newParentId : Option Uuid)
    (id : Uuid) (now : Int) (s : Store) : Except DriveError (Store × DriveFile) :=
  match find tenantId srcId s with
  | none => .error (.notFound srcId)
  | some src =>
      let row := copyOf tenantId ownerUserId newParentId newName id now src
      (insertRow row s).map fun s' => (s', row)

def copySuffix : Str := " (cópia)".toList

/-- One transaction: a refused copy undoes those before it. Each source has its generated id. -/
def bulkCopyFiles (tenantId ownerId : Uuid) (newParentId : Option Uuid) (now : Int) :
    List (Uuid × Uuid) → Store → Except DriveError (Store × List DriveFile)
  | [], s => .ok (s, [])
  | (srcId, id) :: rest, s =>
      match find tenantId srcId s with
      | none => bulkCopyFiles tenantId ownerId newParentId now rest s
      | some src => do
          let row := copyOf tenantId ownerId newParentId (src.name ++ copySuffix) id now src
          let s' ← insertRow row s
          let (s'', rows) ← bulkCopyFiles tenantId ownerId newParentId now rest s'
          pure (s'', row :: rows)

/-- `UPDATE drive_files SET … WHERE … RETURNING …`. -/
def update (selected : DriveFile → Bool) (change : DriveFile → DriveFile) (s : Store) :
    Except DriveError (Store × List DriveFile) :=
  ((commit { s.toTables with
    files := s.files.map fun f => if selected f then change f else f }).mapError mapConflict).map
    fun s' => (s', (s.files.filter selected).map change)

/-- An update of one row, which has to be there. -/
def updateOne (id : Uuid) (selected : DriveFile → Bool) (change : DriveFile → DriveFile)
    (s : Store) : Except DriveError (Store × DriveFile) :=
  (update selected change s).bind fun (s', rows) =>
    match rows.head? with
    | some row => .ok (s', row)
    | none => .error (.notFound id)

structure Content where
  storageKey : Uuid
  sizeBytes : Int
  sha256 : Option Str
  mimeType : Option Str
  deriving DecidableEq

def withContent (content : Content) (now : Int) (f : DriveFile) : DriveFile :=
  { f with
    storageKey := some content.storageKey
    sizeBytes := content.sizeBytes
    sha256 := content.sha256
    mimeType := content.mimeType
    updatedAt := now }

def updateContent (tenantId id : Uuid) (content : Content) (now : Int) :
    Store → Except DriveError (Store × DriveFile) :=
  updateOne id (liveIn tenantId id) (withContent content now)

/-- The rows of a list of ids, the live ones or those in the trash. -/
def among (tenantId : Uuid) (ids : List Uuid) (live : Bool) (f : DriveFile) : Bool :=
  f.tenantId = tenantId && ids.contains f.id && f.deletedAt.isNone = live

def trashed (now : Int) (f : DriveFile) : DriveFile := { f with deletedAt := some now }

def restored (now : Int) (f : DriveFile) : DriveFile :=
  { f with deletedAt := none, updatedAt := now }

def moved (newParentId : Option Uuid) (now : Int) (f : DriveFile) : DriveFile :=
  { f with parentId := newParentId, updatedAt := now }

def bulkTrash (tenantId : Uuid) (ids : List Uuid) (now : Int) :
    Store → Except DriveError (Store × List DriveFile) :=
  update (among tenantId ids true) (trashed now)

def softDelete (tenantId id : Uuid) (now : Int) :
    Store → Except DriveError (Store × List DriveFile) :=
  update (liveIn tenantId id) (trashed now)

def bulkRestore (tenantId : Uuid) (ids : List Uuid) (now : Int) :
    Store → Except DriveError (Store × List DriveFile) :=
  update (among tenantId ids false) (restored now)

def restore (tenantId id : Uuid) (now : Int) : Store → Except DriveError (Store × DriveFile) :=
  updateOne id (among tenantId [id] false) (restored now)

def bulkMove (tenantId : Uuid) (ids : List Uuid) (newParentId : Option Uuid) (now : Int) :
    Store → Except DriveError (Store × List DriveFile) :=
  update (among tenantId ids true) (moved newParentId now)

def moveTo (tenantId id : Uuid) (newParentId : Option Uuid) (now : Int) :
    Store → Except DriveError (Store × DriveFile) :=
  updateOne id (liveIn tenantId id) (moved newParentId now)

/-! A row goes with every row above it that goes, and takes with it what refers to it. -/

/-- Whether a row is selected or lies below a selected one, within so many steps. -/
def doomed (files : List DriveFile) (selected : DriveFile → Bool) : Nat → DriveFile → Bool
  | 0, f => selected f
  | steps + 1, f => selected f || match f.parentId with
      | none => false
      | some p => (files.filter (·.id = p)).any (doomed files selected steps)

def pruned (selected : DriveFile → Bool) (s : Store) : Tables :=
  let goes := doomed s.files selected s.files.length
  let gone := (s.files.filter goes).map (·.id)
  { s.toTables with
    files := s.files.filter fun f => !goes f
    versions := s.versions.filter fun v => v.fileId ∉ gone
    acls := s.acls.filter fun a => a.fileId ∉ gone
    shares := s.shares.filter fun share => share.fileId ∉ gone
    locks := s.locks.filter fun lock => lock.fileId ∉ gone
    uploads := s.uploads.map fun up => { up with parentId := up.parentId.filter (· ∉ gone) } }

def delete (selected : DriveFile → Bool) (s : Store) : Except DriveError Store :=
  (commit (pruned selected s)).mapError mapConflict

/-- The keys of the rows that the statement itself selects. -/
def keysOf (selected : DriveFile → Bool) (s : Store) : List (Option Uuid) :=
  (s.files.filter selected).map (·.storageKey)

def trashedIn (tenantId id : Uuid) (f : DriveFile) : Bool := among tenantId [id] false f

def purge (tenantId id : Uuid) (s : Store) : Except DriveError (Store × Option Uuid) :=
  (delete (trashedIn tenantId id) s).map fun s' =>
    (s', (keysOf (trashedIn tenantId id) s).head?.join)

def expired (now : Int) (f : DriveFile) : Bool :=
  f.expiresAt.any (· ≤ now) && f.deletedAt.isNone

def purgeExpiredFiles (now : Int) (s : Store) : Except DriveError (Store × List (Option Uuid)) :=
  (delete (expired now) s).map fun s' => (s', keysOf (expired now) s)

def trashedBefore (tenantId : Uuid) (cutoff : Int) (f : DriveFile) : Bool :=
  f.tenantId = tenantId && f.deletedAt.any (· ≤ cutoff)

def purgeTrashedOlderThan (tenantId : Uuid) (cutoff : Int) (s : Store) :
    Except DriveError (Store × List (Option Uuid)) :=
  (delete (trashedBefore tenantId cutoff) s).map fun s' =>
    (s', keysOf (trashedBefore tenantId cutoff) s)

/-- The live rows of a folder, in the order of the statement. -/
def listChildren (before : DriveFile → DriveFile → Bool) (tenantId : Uuid) (parentId : Option Uuid)
    (s : Store) : List DriveFile :=
  (s.files.filter fun f =>
    f.tenantId = tenantId && f.deletedAt.isNone && f.parentId = parentId).mergeSort before

/-- The files in a folder and below it with their paths, if the walk comes to an end. -/
def collectFilesRecursive (before : DriveFile → DriveFile → Bool) (tenantId : Uuid) (s : Store) :
    Nat → Uuid → Str → Option (List (Str × DriveFile))
  | 0, _, _ => none
  | steps + 1, folderId, path =>
      ((listChildren before tenantId (some folderId) s).mapM fun child : DriveFile =>
        let entryPath := if path = [] then child.name else path ++ '/' :: child.name
        match child.kind with
        | .file => some [(entryPath, child)]
        | .folder => collectFilesRecursive before tenantId s steps child.id entryPath).map
        List.flatten

end FileRepo

/-! ### `drive_file_versions` -/

namespace VersionRepo

def ofFile (tenantId fileId : Uuid) (v : FileVersion) : Bool :=
  v.tenantId = tenantId && v.fileId = fileId

/-- `COALESCE(MAX(version_no), 0) + 1`. -/
def nextNo (tenantId fileId : Uuid) (s : Store) : Int :=
  (((s.versions.filter (ofFile tenantId fileId)).map (·.versionNo)).max?).getD 0 + 1

def insert (v : FileVersion) (s : Store) : Except DriveError Store :=
  (commit { s.toTables with versions := s.versions ++ [v] }).mapError fun _ => .database

def get (tenantId fileId : Uuid) (versionNo : Int) (s : Store) : Option FileVersion :=
  s.versions.find? fun v => ofFile tenantId fileId v && v.versionNo = versionNo

def without (tenantId fileId : Uuid) (versionNo : Int) (s : Store) : Tables :=
  { s.toTables with
    versions := s.versions.filter fun v =>
      !(ofFile tenantId fileId v && v.versionNo = versionNo) }

def delete (tenantId fileId : Uuid) (versionNo : Int) (s : Store) : Except DriveError Store :=
  (commit (without tenantId fileId versionNo s)).mapError fun _ => .database

end VersionRepo

/-! ### `drive_shares` -/

namespace ShareRepo

/-- The number of rows that the statement has changed. -/
def revoke (tenantId id : Uuid) (now : Int) (s : Store) : Except DriveError (Store × Nat) :=
  let open' (share : Share) : Bool :=
    share.id = id && share.tenantId = tenantId && share.revokedAt.isNone
  ((commit { s.toTables with
    shares := s.shares.map fun share =>
      if open' share then { share with revokedAt := some now } else share }).mapError
    fun _ => .database).map fun s' => (s', (s.shares.filter open').length)

end ShareRepo

/-! ### `drive_file_acl` -/

inductive Level where
  | owner
  | granted (privilege : Privilege)
  deriving DecidableEq

namespace AclRepo

/-- The row and its ancestors in the tenant, if the recursive query comes to an end. -/
def chain (files : List DriveFile) (tenantId : Uuid) : Nat → Uuid → Option (List Uuid)
  | 0, _ => none
  | steps + 1, id =>
      match files.find? fun f => f.id = id && f.tenantId = tenantId with
      | none => some []
      | some f => match f.parentId with
          | none => some [id]
          | some p => (chain files tenantId steps p).map (id :: ·)

def rank : Privilege → Nat
  | .read => 1
  | .write => 2
  | .admin => 3

def ofRank (rank : Nat) : Option Privilege :=
  if rank = 3 then some .admin else if rank = 2 then some .write
  else if rank = 1 then some .read else none

/-- The owner's level, or the highest grant on the row or above it. A maximum over no rows is
null, which the code does not decode. -/
def accessLevel (tenantId fileId userId : Uuid) (s : Store) : Except DriveError (Option Level) :=
  match FileRepo.find tenantId fileId s with
  | none => .ok none
  | some f =>
      if f.ownerUserId = userId then .ok (some .owner)
      else match chain s.files tenantId (s.files.length + 1) fileId with
        | none => .error .database
        | some ids =>
            let grants := s.acls.filter fun a =>
              a.tenantId = tenantId && a.granteeId = userId && ids.contains a.fileId
            match (grants.map fun a => rank a.privilege).max? with
            | none => .error .database
            | some r => .ok ((ofRank r).map .granted)

end AclRepo

/-! ### `drive_quotas` -/

structure Quota where
  maxBytes : Int
  usedBytes : Int

def defaultQuotaBytes : Int := 10 * 1024 * 1024 * 1024

namespace QuotaRepo

/-- `drive_quota_used`: the live files and all versions. -/
def used (tenantId : Uuid) (s : Store) : Int :=
  ((s.files.filter fun f => f.tenantId = tenantId && f.deletedAt.isNone && f.kind = .file).map
    (·.sizeBytes)).sum +
  ((s.versions.filter fun v => v.tenantId = tenantId).map (·.sizeBytes)).sum

def get (tenantId : Uuid) (s : Store) : Quota :=
  ⟨((s.quotas.find? fun q => q.1 = tenantId).map (·.2)).getD defaultQuotaBytes, used tenantId s⟩

end QuotaRepo

/-- `checked_add`: a sum beyond the range never fits. -/
def Quota.fits (quota : Quota) (extra : Int) : Bool :=
  let total := quota.usedBytes + extra
  total ≤ quota.maxBytes && -2 ^ 63 ≤ total && total < 2 ^ 63

end Expresso.Drive
