import Expresso.Drive.Handlers

/-! The requests of an office client on a file: its lock, and new content under the lock. -/

namespace Expresso.Drive
open Text Transition

/-! ### `drive_wopi_locks` -/

namespace WopiLockRepo

inductive AcquireOutcome where
  | held (lock : WopiLock)
  | conflict (existing : Option WopiLock)

def lockTtl : Int := 30 * 60 * 1000000

/-- The bounds of the column `lock_token`. -/
def tokenFits (token : Str) : Bool := 1 ≤ token.length && token.length ≤ 1024

def active (tenantId fileId : Uuid) (now : Int) (lock : WopiLock) : Bool :=
  lock.tenantId = tenantId && lock.fileId = fileId && now < lock.expiresAt

def fetchActive (tenantId fileId : Uuid) (now : Int) (s : Store) : Option WopiLock :=
  s.locks.find? (active tenantId fileId now)

def relocked (token : Str) (userId : Uuid) (acquiredAt now : Int) (lock : WopiLock) : WopiLock :=
  { lock with
    lockToken := token
    lockedBy := userId
    acquiredAt := acquiredAt
    expiresAt := now + lockTtl }

/-- The row of one lock takes the place of another one of the same file. -/
def replaceLock (lock : WopiLock) (s : Store) : Except DriveError Store :=
  (commit { s.toTables with
    locks := s.locks.map fun l => if l.fileId = lock.fileId then lock else l }).mapError
    fun _ => .database

/-- The upsert. A row of another tenant is out of its reach. -/
def acquireOrRefresh (tenantId fileId : Uuid) (token : Str) (userId : Uuid) (now : Int)
    (s : Store) : Except DriveError (Store × AcquireOutcome) :=
  if !tokenFits token then .error .database
  else match s.locks.find? (·.fileId = fileId) with
  | none =>
      let lock : WopiLock := ⟨fileId, tenantId, token, userId, now, now + lockTtl⟩
      ((commit { s.toTables with locks := s.locks ++ [lock] }).mapError fun _ => .database).map
        fun s' => (s', .held lock)
  | some lock =>
      if lock.tenantId ≠ tenantId then .error .database
      else if lock.expiresAt ≤ now ∨ lock.lockToken = token then
        let acquiredAt :=
          if lock.lockToken = token ∧ now < lock.expiresAt then lock.acquiredAt else now
        let lock' := relocked token userId acquiredAt now lock
        (replaceLock lock' s).map fun s' => (s', .held lock')
      else .ok (s, .conflict (fetchActive tenantId fileId now s))

def unlockAndRelock (tenantId fileId : Uuid) (oldToken newToken : Str) (userId : Uuid) (now : Int)
    (s : Store) : Except DriveError (Store × AcquireOutcome) :=
  match s.locks.find? fun lock => active tenantId fileId now lock && lock.lockToken = oldToken with
  | none => .ok (s, .conflict (fetchActive tenantId fileId now s))
  | some lock =>
      if tokenFits newToken then
        let lock' := relocked newToken userId now now lock
        (replaceLock lock' s).map fun s' => (s', .held lock')
      else .error .database

/-- Whether a lock was removed. -/
def release (tenantId fileId : Uuid) (token : Str) (now : Int) (s : Store) :
    Except DriveError (Store × Bool) :=
  let selected (lock : WopiLock) : Bool :=
    active tenantId fileId now lock && lock.lockToken = token
  ((commit { s.toTables with locks := s.locks.filter fun lock => !selected lock }).mapError
    fun _ => .database).map fun s' => (s', s.locks.any selected)

end WopiLockRepo

/-! ### Requests -/

namespace Wopi

inductive Status where
  | ok
  | conflict
  deriving DecidableEq

/-- `X-WOPI-Lock` and `X-WOPI-LockFailureReason` of an answer. -/
structure LockResponse where
  status : Status
  lockToken : Str
  reason : Option Str
  deriving DecidableEq

structure Headers where
  override : Option Str
  lock : Option Str
  oldLock : Option Str
  contentType : Option Str

/-- What the access token says, if it is a valid one for the file. -/
def authorize (claims : Option RequestCtx) : Except DriveError RequestCtx :=
  match claims with
  | some ctx => .ok ctx
  | none => .error .unauthorized

def tokenOf (lock : Option WopiLock) : Str := (lock.map (·.lockToken)).getD []

def outcomeResponse (lock : Str) (reason : Str) :
    WopiLockRepo.AcquireOutcome → LockResponse
  | .held _ => ⟨.ok, lock, none⟩
  | .conflict existing => ⟨.conflict, tokenOf existing, some reason⟩

def requireLock (lock : Str) : Except DriveError Unit :=
  if lock = [] then .error (.badRequest "X-WOPI-Lock required".toList) else .ok ()

def wopiPost (claims : Option RequestCtx) (id : Uuid) (headers : Headers) (now : Int) :
    Handler LockResponse := do
  let ctx ← query fun _ => authorize claims
  let op := headers.override.getD []
  let lock := headers.lock.getD []
  if op = "GET_LOCK".toList then do
    let current ← query fun s => .ok (WopiLockRepo.fetchActive ctx.tenantId id now s)
    pure ⟨.ok, tokenOf current, none⟩
  else if op = "LOCK".toList then do
    query fun _ => requireLock lock
    let old := headers.oldLock.getD []
    let outcome ←
      if old ≠ [] then
        statement (WopiLockRepo.unlockAndRelock ctx.tenantId id old lock ctx.userId now)
      else statement (WopiLockRepo.acquireOrRefresh ctx.tenantId id lock ctx.userId now)
    pure (outcomeResponse lock "lock mismatch".toList outcome)
  else if op = "REFRESH_LOCK".toList then do
    query fun _ => requireLock lock
    let outcome ← statement (WopiLockRepo.acquireOrRefresh ctx.tenantId id lock ctx.userId now)
    pure (outcomeResponse lock "refresh: lock mismatch".toList outcome)
  else if op = "UNLOCK".toList then do
    query fun _ => requireLock lock
    if ← statement (WopiLockRepo.release ctx.tenantId id lock now) then pure ⟨.ok, [], none⟩
    else do
      let current ← query fun s => .ok (WopiLockRepo.fetchActive ctx.tenantId id now s)
      pure ⟨.conflict, tokenOf current, some "unlock: lock mismatch".toList⟩
  else throw (.badRequest ("unsupported X-WOPI-Override: ".toList ++ op))

def maxPutfileBytes : Nat := 256 * 1024 * 1024

inductive PutResponse where
  | locked (response : LockResponse)
  | stored (version : Str) (updated : DriveFile)
  deriving DecidableEq

def checkBody (claims : Option RequestCtx) (body : Octets) : Except DriveError RequestCtx := do
  let ctx ← authorize claims
  require (body.length ≤ maxPutfileBytes) (.badRequest ("body too large: ".toList ++
    display body.length ++ " bytes (max ".toList ++ display maxPutfileBytes ++ ")".toList))
  pure ctx

/-- The quota of the tenant, and the file that is written. -/
def putGates (ctx : RequestCtx) (id : Uuid) (body : Octets) (s : Store) :
    Except DriveError DriveFile := do
  require ((QuotaRepo.get ctx.tenantId s).fits body.length) .quotaExceeded
  let existing ← FileRepo.get ctx.tenantId id s
  require (existing.kind = .file) (.badRequest "not a file".toList)
  pure existing

def putFile (sha256 : Octets → Str) (claims : Option RequestCtx) (id : Uuid) (headers : Headers)
    (body : Octets) (gen : Generated) : Handler PutResponse := do
  let ctx ← query fun _ => checkBody claims body
  let activeLock ← query fun s => .ok (WopiLockRepo.fetchActive ctx.tenantId id gen.now s)
  if activeLock.any fun lock => headers.lock.getD [] ≠ lock.lockToken then
    pure (.locked ⟨.conflict, tokenOf activeLock, some "put: lock mismatch".toList⟩)
  else do
    let existing ← query (putGates ctx id body)
    let blob : Blob := ⟨gen.key, false⟩
    writeFile blob body
    archive ctx existing existing.ownerUserId
    let content : FileRepo.Content :=
      ⟨gen.key, body.length, some (sha256 body), headers.contentType <|> existing.mimeType⟩
    let updated ← orRemove blob
      (statement (FileRepo.updateContent ctx.tenantId existing.id content gen.now))
    pure (.stored (sha256 body) updated)

end Wopi

end Expresso.Drive
