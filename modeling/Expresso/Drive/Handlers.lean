import Expresso.Drive.Store
import Expresso.Text.Wire
import Expresso.Transition.Effects

/-! The drive's requests on files and folders, and the blobs that they write and remove. -/

namespace Expresso.Drive
open Text Transition

/-- A file of the data directory: a blob, or the part file of an upload. -/
structure Blob where
  key : Uuid
  part : Bool
  deriving DecidableEq

structure State where
  store : Store
  disk : Blob → Option Octets

structure RequestCtx where
  tenantId : Uuid
  userId : Uuid

/-- What the server adds to a request: the ids that it generates, and the time. -/
structure Generated where
  id : Uuid
  key : Uuid
  now : Int

abbrev Handler (α : Type) := Action State DriveError α

/-! ### Statements and files -/

section
variable {α : Type}

def query (f : Store → Except DriveError α) : Handler α := do
  let d ← get
  match f d.store with
  | .ok a => pure a
  | .error e => throw e

def statement (f : Store → Except DriveError (Store × α)) : Handler α := do
  let d ← get
  match f d.store with
  | .ok (s, a) => do
      set { d with store := s }
      pure a
  | .error e => throw e

def writeFile (blob : Blob) (bytes : Octets) : Handler Unit :=
  modify fun d => { d with disk := Function.update d.disk blob (some bytes) }

def removeFile (blob : Blob) : Handler Unit :=
  modify fun d => { d with disk := Function.update d.disk blob none }

def removeFiles : List Blob → Handler Unit
  | [] => pure ()
  | blob :: rest => do
      removeFile blob
      removeFiles rest

def readFile (blob : Blob) : Handler Octets := do
  let d ← get
  match d.disk blob with
  | some bytes => pure bytes
  | none => throw .io

/-- The new blob is removed again if the rest fails. -/
def orRemove (blob : Blob) (m : Handler α) : Handler α := do
  match ← m.attempt with
  | .ok a => pure a
  | .error e => do
      removeFile blob
      throw e

end

/-! ### What holds after them -/

section
variable {α : Type} {d : State}

@[simp] theorem after_query (f : Store → Except DriveError α)
    (right : Except DriveError α → State → Prop) :
    After (query f) d right ↔ right (f d.store) d := by
  unfold query
  rw [after_bind, after_get]
  show After (match f d.store with | .ok a => pure a | .error e => throw e) d right ↔ _
  cases f d.store <;> rfl

@[simp] theorem after_statement (f : Store → Except DriveError (Store × α))
    (right : Except DriveError α → State → Prop) :
    After (statement f) d right ↔
      match f d.store with
      | .ok (s, a) => right (.ok a) { d with store := s }
      | .error e => right (.error e) d := by
  unfold statement
  rw [after_bind, after_get]
  show After (match f d.store with
    | .ok (s, a) => do
        set { d with store := s }
        pure a
    | .error e => throw e) d right ↔ _
  cases f d.store <;> rfl

@[simp] theorem after_writeFile (blob : Blob) (bytes : Octets)
    (right : Except DriveError Unit → State → Prop) :
    After (writeFile blob bytes) d right ↔
      right (.ok ()) { d with disk := Function.update d.disk blob (some bytes) } := Iff.rfl

@[simp] theorem after_removeFile (blob : Blob) (right : Except DriveError Unit → State → Prop) :
    After (removeFile blob) d right ↔
      right (.ok ()) { d with disk := Function.update d.disk blob none } := Iff.rfl

@[simp] theorem after_orRemove (blob : Blob) (m : Handler α)
    (right : Except DriveError α → State → Prop) :
    After (orRemove blob m) d right ↔ After m d fun result d' =>
      match result with
      | .ok a => right (.ok a) d'
      | .error e => right (.error e) { d' with disk := Function.update d'.disk blob none } := by
  unfold orRemove
  rw [after_bind, after_attempt]
  unfold After
  cases (m.outcome d).1 <;> rfl

theorem keeps_query {invariant : State → Prop} (f : Store → Except DriveError α) :
    Keeps invariant (query f) := by
  intro d holds
  rw [after_query]
  exact holds

theorem keeps_statement {invariant : State → Prop} {f : Store → Except DriveError (Store × α)}
    (keeps : ∀ d s a, invariant d → f d.store = .ok (s, a) → invariant { d with store := s }) :
    Keeps invariant (statement f) := by
  intro d holds
  rw [after_statement]
  split
  · next s a done => exact keeps d s a holds done
  · exact holds

theorem keeps_orRemove {invariant : State → Prop} {blob : Blob} {m : Handler α}
    (keeps : Keeps invariant m) (removes : Keeps invariant (removeFile blob)) :
    Keeps invariant (orRemove blob m) := by
  unfold orRemove
  apply keeps.attempt.bind
  intro result
  cases result with
  | ok a => exact .pure a
  | error e => exact removes.bind fun _ => .throw e

theorem keeps_removeFiles {invariant : State → Prop} {blobs : List Blob}
    (removes : ∀ blob, Keeps invariant (removeFile blob)) :
    Keeps invariant (removeFiles blobs) := by
  induction blobs with
  | nil => exact .pure ()
  | cons blob rest ih => exact (removes blob).bind fun _ => ih

end

/-! ### Gates -/

def requireRead (ctx : RequestCtx) (fileId : Uuid) (s : Store) : Except DriveError Unit := do
  match ← AclRepo.accessLevel ctx.tenantId fileId ctx.userId s with
  | some _ => pure ()
  | none => throw .forbidden

def requireWrite (ctx : RequestCtx) (fileId : Uuid) (s : Store) : Except DriveError Unit := do
  match ← AclRepo.accessLevel ctx.tenantId fileId ctx.userId s with
  | some .owner => pure ()
  | some (.granted .admin) => pure ()
  | some (.granted .write) => pure ()
  | _ => throw .forbidden

def requireAll (gate : Uuid → Store → Except DriveError Unit) (ids : List Uuid) (s : Store) :
    Except DriveError Unit :=
  ids.forM fun id => gate id s

def requireWriteAll (ctx : RequestCtx) : List Uuid → Store → Except DriveError Unit :=
  requireAll (requireWrite ctx)

def requireReadAll (ctx : RequestCtx) : List Uuid → Store → Except DriveError Unit :=
  requireAll (requireRead ctx)

/-- The bounds of every bulk request. -/
def checkIds (ids : List Uuid) : Except DriveError Unit :=
  if ids.isEmpty then .error (.badRequest "ids must not be empty".toList)
  else if 200 < ids.length then
    .error (.badRequest ("too many ids: ".toList ++ display ids.length ++ " (max 200)".toList))
  else .ok ()

def getFolder (ctx : RequestCtx) (parent : Uuid) (s : Store) : Except DriveError DriveFile := do
  let target ← FileRepo.get ctx.tenantId parent s
  require (target.kind = .folder) (.badRequest "parent_id must be a folder".toList)
  pure target

def sanitizeName (raw : Str) : Except DriveError Str :=
  let s := trim raw
  if s = [] ∨ '/' ∈ s ∨ '\\' ∈ s ∨ s = ['.'] ∨ s = ['.', '.'] then
    .error (.badRequest "invalid name".toList)
  else if s.any fun c => c.toNat < 32 || c.toNat = 127 then
    .error (.badRequest "name has control characters".toList)
  else if 255 < len s then .error (.badRequest "name too long".toList)
  else .ok s

/-! ### Content -/

section
variable (ctx : RequestCtx)

/-- The content of a file becomes a version of it. -/
def archive (existing : DriveFile) (createdBy : Uuid) : Handler Unit :=
  match existing.storageKey with
  | none => pure ()
  | some prevKey => do
      let nextNo ← query fun s => .ok (VersionRepo.nextNo ctx.tenantId existing.id s)
      statement fun s => (VersionRepo.insert ⟨existing.id, ctx.tenantId, nextNo, prevKey,
        existing.sizeBytes, existing.sha256, existing.mimeType, createdBy⟩ s).map (·, ())

def mkdir (name : Str) (parentId : Option Uuid) (gen : Generated) : Handler DriveFile := do
  let name ← query fun _ => sanitizeName name
  statement (FileRepo.insert
    ⟨ctx.tenantId, ctx.userId, parentId, name, .folder, none, 0, none, none⟩ gen.id gen.now)

structure UploadForm where
  parentId : Option Uuid
  name : Option Str
  mime : Option Str
  data : Option Octets
  /-- whether the quota of the folder lets the file in, if it has one -/
  folderFits : Bool

variable (sha256 : Octets → Str)

/-- The name of the file, and the quotas of the tenant and of the folder. -/
def uploadGates (form : UploadForm) (bytes : Octets) (s : Store) : Except DriveError Str := do
  let fname ← sanitizeName (form.name.getD [])
  require ((QuotaRepo.get ctx.tenantId s).fits bytes.length) .quotaExceeded
  require (form.parentId.isNone ∨ form.folderFits) .quotaExceeded
  pure fname

def upload (form : UploadForm) (gen : Generated) : Handler DriveFile :=
  match form.data with
  | none => throw (.badRequest "missing file part".toList)
  | some bytes => do
      let fname ← query (uploadGates ctx form bytes)
      let blob : Blob := ⟨gen.key, false⟩
      writeFile blob bytes
      let content : FileRepo.Content := ⟨gen.key, bytes.length, some (sha256 bytes), form.mime⟩
      match ← query fun s => .ok (FileRepo.findByName ctx.tenantId form.parentId fname s) with
      | some existing =>
          if existing.kind = .file then do
            orRemove blob (query (requireWrite ctx existing.id))
            archive ctx existing existing.ownerUserId
            orRemove blob
              (statement (FileRepo.updateContent ctx.tenantId existing.id content gen.now))
          else do
            removeFile blob
            throw (.conflict "a folder with this name already exists".toList)
      | none =>
          orRemove blob (statement (FileRepo.insert
            ⟨ctx.tenantId, ctx.userId, form.parentId, fname, .file, form.mime, bytes.length,
              some (sha256 bytes), some gen.key⟩ gen.id gen.now))

/-! ### Copies and moves -/

/-- The source of a copy and the name of the new row. -/
def copyGates (id : Uuid) (name : Option Str) (parentId : Option Uuid) (s : Store) :
    Except DriveError Str := do
  let src ← FileRepo.get ctx.tenantId id s
  let newName ← sanitizeName (name.getD (src.name ++ FileRepo.copySuffix))
  match parentId with
    | some parent => do
        let _ ← getFolder ctx parent s
        pure newName
    | none => pure newName

def copyFile (id : Uuid) (name : Option Str) (parentId : Option Uuid) (gen : Generated) :
    Handler DriveFile := do
  let newName ← query (copyGates ctx id name parentId)
  statement (FileRepo.copyFile ctx.tenantId ctx.userId id newName parentId gen.id gen.now)

def bulkCopyGates (ids : List Uuid) (parentId : Option Uuid) (s : Store) :
    Except DriveError Unit := do
  checkIds ids
  requireReadAll ctx ids s
  match parentId with
    | some parent => do
        let _ ← getFolder ctx parent s
        requireWrite ctx parent s
    | none => pure ()

/-- Each copy has a generated id of its own. -/
def bulkCopy (ids : List Uuid) (parentId : Option Uuid) (newId : Nat → Uuid) (now : Int) :
    Handler (List DriveFile) := do
  query (bulkCopyGates ctx ids parentId)
  statement (FileRepo.bulkCopyFiles ctx.tenantId ctx.userId parentId now
    (ids.zipIdx.map fun source => (source.1, newId source.2)))

def moveGates (id : Uuid) (parentId : Option Uuid) (s : Store) : Except DriveError Unit := do
  requireWrite ctx id s
  match parentId with
    | some parent => do
        let target ← getFolder ctx parent s
        if target.id = id then throw (.badRequest "cannot move a folder into itself".toList)
        else requireWrite ctx parent s
    | none => pure ()

def moveFile (id : Uuid) (parentId : Option Uuid) (now : Int) : Handler DriveFile := do
  query (moveGates ctx id parentId)
  statement (FileRepo.moveTo ctx.tenantId id parentId now)

def bulkMoveGates (ids : List Uuid) (parentId : Option Uuid) (s : Store) :
    Except DriveError Unit := do
  checkIds ids
  requireWriteAll ctx ids s
  match parentId with
    | some parent => do
        let target ← getFolder ctx parent s
        requireWrite ctx parent s
        if target.id ∈ ids then throw (.badRequest "cannot move a folder into itself".toList)
        else pure ()
    | none => pure ()

def bulkMove (ids : List Uuid) (parentId : Option Uuid) (now : Int) :
    Handler (List DriveFile) := do
  query (bulkMoveGates ctx ids parentId)
  statement (FileRepo.bulkMove ctx.tenantId ids parentId now)

/-! ### Trash -/

def bulkGates (ids : List Uuid) (s : Store) : Except DriveError Unit := do
  checkIds ids
  requireWriteAll ctx ids s

def bulkTrash (ids : List Uuid) (now : Int) : Handler Nat := do
  query (bulkGates ctx ids)
  let rows ← statement (FileRepo.bulkTrash ctx.tenantId ids now)
  pure rows.length

def bulkRestore (ids : List Uuid) (now : Int) : Handler Nat := do
  query (bulkGates ctx ids)
  let rows ← statement (FileRepo.bulkRestore ctx.tenantId ids now)
  pure rows.length

def deleteFile (id : Uuid) (permanent : Bool) (now : Int) : Handler Unit := do
  query (requireWrite ctx id)
  if permanent then do
    match ← statement (FileRepo.purge ctx.tenantId id) with
    | none => throw (.notFound id)
    | some key => removeFile ⟨key, false⟩
  else do
    let rows ← statement (FileRepo.softDelete ctx.tenantId id now)
    if rows.isEmpty then throw (.notFound id) else pure ()

def restore (id : Uuid) (now : Int) : Handler DriveFile :=
  statement (FileRepo.restore ctx.tenantId id now)

def trash : Handler (List DriveFile) :=
  query fun s => .ok (s.files.filter fun f => f.tenantId = ctx.tenantId && f.deletedAt.isSome)

def day : Int := 24 * 60 * 60 * 1000000

def blobsOf (keys : List (Option Uuid)) : List Blob :=
  (keys.filterMap id).map fun key => ⟨key, false⟩

/-- Between one day and ten years ago. -/
def cutoff (olderThanDays : Option Int) (now : Int) : Int :=
  now - max 1 (min (olderThanDays.getD 30) 3650) * day

def purgeTrash (olderThanDays : Option Int) (now : Int) : Handler Nat := do
  let keys ← statement
    (FileRepo.purgeTrashedOlderThan ctx.tenantId (cutoff olderThanDays now))
  removeFiles (blobsOf keys)
  pure keys.length

/-! ### Versions -/

def getVersion (id : Uuid) (v : Int) (s : Store) : Except DriveError FileVersion :=
  orThrow (VersionRepo.get ctx.tenantId id v s) (.notFound id)

/-- The row and the version that its content is to be. -/
def restoreGates (id : Uuid) (v : Int) (s : Store) :
    Except DriveError (DriveFile × FileVersion) := do
  let current ← FileRepo.get ctx.tenantId id s
  requireWrite ctx id s
  let target ← getVersion ctx id v s
  pure (current, target)

def restoreVersion (id : Uuid) (v : Int) (now : Int) : Handler DriveFile := do
  let (current, target) ← query (restoreGates ctx id v)
  archive ctx current ctx.userId
  statement (FileRepo.updateContent ctx.tenantId id
    ⟨target.storageKey, target.sizeBytes, target.sha256, target.mimeType⟩ now)

/-- The version that goes, which the owner has to ask for. -/
def deleteVersionGates (id : Uuid) (v : Int) (s : Store) : Except DriveError FileVersion := do
  let f ← FileRepo.get ctx.tenantId id s
  require (f.ownerUserId = ctx.userId) .forbidden
  getVersion ctx id v s

def deleteVersion (id : Uuid) (v : Int) : Handler Unit := do
  let version ← query (deleteVersionGates ctx id v)
  statement fun s => (VersionRepo.delete ctx.tenantId id v s).map (·, ())
  removeFile ⟨version.storageKey, false⟩

/-- The key of the blob that is sent. -/
def downloadGates (id : Uuid) (s : Store) : Except DriveError Uuid := do
  let f ← FileRepo.get ctx.tenantId id s
  requireRead ctx id s
  require (f.kind = .file) (.badRequest "target is a folder".toList)
  orThrow f.storageKey (.badRequest "file has no content".toList)

def download (id : Uuid) : Handler Octets := do
  let key ← query (downloadGates ctx id)
  readFile ⟨key, false⟩

def downloadVersionGates (id : Uuid) (v : Int) (s : Store) : Except DriveError FileVersion := do
  let _ ← FileRepo.get ctx.tenantId id s
  requireRead ctx id s
  getVersion ctx id v s

def downloadVersion (id : Uuid) (v : Int) : Handler Octets := do
  let version ← query (downloadVersionGates ctx id v)
  readFile ⟨version.storageKey, false⟩

/-! ### Shares -/

def revoke (id : Uuid) (now : Int) : Handler Unit := do
  let changed ← statement (ShareRepo.revoke ctx.tenantId id now)
  if changed = 0 then throw (.notFound id) else pure ()

end

end Expresso.Drive
