import Expresso.Drive.Handlers

/-! Resumable uploads. The bytes go to a part file, which becomes the blob of a file when the
last of them is there. -/

namespace Expresso.Drive
open Text Transition

def UploadSession.isExpired (up : UploadSession) (now : Int) : Bool := up.expiresAt ≤ now

/-! ### `drive_uploads` -/

namespace UploadRepo

def insert (up : UploadSession) (s : Store) : Except DriveError (Store × UploadSession) :=
  ((commit { s.toTables with uploads := s.uploads ++ [up] }).mapError fun _ => .database).map
    fun s' => (s', up)

def held (tenantId id : Uuid) (up : UploadSession) : Bool := up.id = id && up.tenantId = tenantId

def get (tenantId id : Uuid) (s : Store) : Option UploadSession :=
  s.uploads.find? (held tenantId id)

/-- The new offset, if the old one is still the expected one. -/
def advanceOffset (tenantId id : Uuid) (expected newOffset : Int) (s : Store) :
    Except DriveError (Store × Option Int) :=
  let selected (up : UploadSession) : Bool := held tenantId id up && up.offsetBytes = expected
  ((commit { s.toTables with
    uploads := s.uploads.map fun up =>
      if selected up then { up with offsetBytes := newOffset } else up }).mapError
    fun _ => .database).map
    fun s' => (s', if s.uploads.any selected then some newOffset else none)

def delete (tenantId id : Uuid) (s : Store) : Except DriveError (Store × Unit) :=
  ((commit { s.toTables with
    uploads := s.uploads.filter fun up => !held tenantId id up }).mapError
    fun _ => .database).map fun s' => (s', ())

end UploadRepo

/-! ### Part files -/

/-- A file after a write of some bytes from an offset on. A gap is filled with zeros. -/
def overwrite (old : Octets) (offset : Nat) (body : Octets) : Octets :=
  if body = [] then old
  else old.take offset ++ List.replicate (offset - old.length) 0 ++ body ++
    old.drop (offset + body.length)

/-- The file has to be there. -/
def writeAt (blob : Blob) (offset : Nat) (body : Octets) : Handler Unit := do
  let old ← readFile blob
  writeFile blob (overwrite old offset body)

def renameFile (src dst : Blob) : Handler Unit := do
  let bytes ← readFile src
  removeFile src
  writeFile dst bytes

/-! ### Requests -/

def maxUploadBytes : Int := 50 * 1024 * 1024 * 1024
def maxFilenameBytes : Nat := 255
def maxMimeBytes : Nat := 255
def maxChunkBytes : Nat := 16 * 1024 * 1024

namespace Uploads

def sanitizeName (raw : Str) : Except DriveError Str :=
  let t := trim raw
  if t = [] ∨ '/' ∈ t ∨ '\\' ∈ t ∨ Char.ofNat 0 ∈ t then
    .error (.badRequest "invalid filename".toList)
  else if maxFilenameBytes < len t then
    .error (.badRequest ("filename too long: ".toList ++ display (len t) ++ " bytes (max ".toList ++
      display maxFilenameBytes ++ ")".toList))
  else .ok t

/-- The headers of a creation, as they are read. -/
structure Creation where
  uploadLength : Option Int
  filename : Option Str
  filetype : Option Str
  /-- none where the header is no id -/
  parentId : Option (Option Uuid)

def checkCreation (ctx : RequestCtx) (headers : Creation) (s : Store) :
    Except DriveError (Int × Str × Option Uuid) := do
  let total ← orThrow headers.uploadLength (.badRequest "Upload-Length required".toList)
  require (0 ≤ total ∧ total ≤ maxUploadBytes) (.badRequest
    ("Upload-Length out of bounds (max ".toList ++ display maxUploadBytes ++ ")".toList))
  require ((QuotaRepo.get ctx.tenantId s).fits total) .quotaExceeded
  let name ← orThrow headers.filename (.badRequest "Upload-Metadata filename required".toList)
  let fname ← sanitizeName name
  let mimeLen := (headers.filetype.map len).getD 0
  require (mimeLen ≤ maxMimeBytes) (.badRequest ("mime_type too long: ".toList ++
    display mimeLen ++ " bytes (max ".toList ++ display maxMimeBytes ++ ")".toList))
  let parentId ← orThrow headers.parentId (.badRequest "invalid Upload-Parent-Id".toList)
  pure (total, fname, parentId)

variable (ctx : RequestCtx)

def createUpload (headers : Creation) (gen : Generated) : Handler UploadSession := do
  let (total, fname, parentId) ← query (checkCreation ctx headers)
  writeFile ⟨gen.key, true⟩ []
  statement (UploadRepo.insert ⟨gen.id, ctx.tenantId, ctx.userId, parentId, fname,
    headers.filetype, total, 0, gen.key, gen.now + 30 * day⟩)

/-- The headers and the body of a chunk. -/
structure Chunk where
  contentType : Str
  uploadOffset : Option Int
  body : Octets

/-- What a chunk has to meet, and the session that it goes to. -/
def checkChunk (id : Uuid) (chunk : Chunk) (now : Int) (s : Store) :
    Except DriveError UploadSession := do
  require ("application/offset+octet-stream".toList.isPrefixOf chunk.contentType)
    (.badRequest "Content-Type must be application/offset+octet-stream".toList)
  require (chunk.body.length ≤ maxChunkBytes) (.badRequest ("chunk too large: ".toList ++
    display chunk.body.length ++ " bytes (max ".toList ++ display maxChunkBytes ++
    " per PATCH)".toList))
  let clientOffset ← orThrow chunk.uploadOffset (.badRequest "Upload-Offset required".toList)
  let up ← orThrow (UploadRepo.get ctx.tenantId id s) (.notFound id)
  require (!up.isExpired now) (.gone id)
  require (clientOffset = up.offsetBytes) (.conflict ("offset mismatch: expected ".toList ++
    display up.offsetBytes ++ ", got ".toList ++ display clientOffset))
  require (up.offsetBytes + chunk.body.length ≤ up.totalSize)
    (.badRequest "chunk exceeds Upload-Length".toList)
  pure up

variable (sha256 : Octets → Str)

def finalizeUpload (up : UploadSession) (gen : Generated) : Handler Unit := do
  let bytes ← readFile ⟨up.storageKey, true⟩
  let blob : Blob := ⟨up.storageKey, false⟩
  renameFile ⟨up.storageKey, true⟩ blob
  match ← query fun s => .ok (FileRepo.findByName ctx.tenantId up.parentId up.name s) with
  | some existing =>
      if existing.kind = .file then do
        archive ctx existing existing.ownerUserId
        let _ ← statement (FileRepo.updateContent ctx.tenantId existing.id
          ⟨up.storageKey, up.totalSize, some (sha256 bytes), up.mimeType⟩ gen.now)
      else do
        removeFile blob
        throw (.conflict "folder name collision".toList)
  | none => do
      let _ ← statement (FileRepo.insert ⟨ctx.tenantId, ctx.userId, up.parentId, up.name, .file,
        up.mimeType, up.totalSize, some (sha256 bytes), some up.storageKey⟩ gen.id gen.now)
  statement (UploadRepo.delete ctx.tenantId up.id)

/-- The new offset. -/
def patchUpload (id : Uuid) (chunk : Chunk) (gen : Generated) : Handler Int := do
  let up ← query (checkChunk ctx id chunk gen.now)
  let newOffset := up.offsetBytes + chunk.body.length
  writeAt ⟨up.storageKey, true⟩ up.offsetBytes.toNat chunk.body
  match ← statement (UploadRepo.advanceOffset ctx.tenantId id up.offsetBytes newOffset) with
  | none => throw (.conflict "concurrent PATCH — retry HEAD first".toList)
  | some _ => do
      if newOffset = up.totalSize then finalizeUpload ctx sha256 up gen
      pure newOffset

def deleteUpload (id : Uuid) : Handler Unit := do
  let up ← query fun s => orThrow (UploadRepo.get ctx.tenantId id s) (.notFound id)
  removeFile ⟨up.storageKey, true⟩
  statement (UploadRepo.delete ctx.tenantId id)

end Uploads

end Expresso.Drive
