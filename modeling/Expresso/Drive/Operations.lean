import Expresso.Drive.Handlers

/-! The requests on files and folders and the hourly purge, one after the other. -/

namespace Expresso.Drive
open Text Transition

/-- A request with the user who makes it and what the server generates for it. -/
inductive Operation where
  | mkdir (ctx : RequestCtx) (name : Str) (parentId : Option Uuid) (gen : Generated)
  | upload (ctx : RequestCtx) (form : UploadForm) (gen : Generated)
  | copyFile (ctx : RequestCtx) (id : Uuid) (name : Option Str) (parentId : Option Uuid)
      (gen : Generated)
  | bulkCopy (ctx : RequestCtx) (ids : List Uuid) (parentId : Option Uuid) (newId : Nat → Uuid)
      (now : Int)
  | moveFile (ctx : RequestCtx) (id : Uuid) (parentId : Option Uuid) (now : Int)
  | bulkMove (ctx : RequestCtx) (ids : List Uuid) (parentId : Option Uuid) (now : Int)
  | bulkTrash (ctx : RequestCtx) (ids : List Uuid) (now : Int)
  | bulkRestore (ctx : RequestCtx) (ids : List Uuid) (now : Int)
  | deleteFile (ctx : RequestCtx) (id : Uuid) (permanent : Bool) (now : Int)
  | restore (ctx : RequestCtx) (id : Uuid) (now : Int)
  | purgeTrash (ctx : RequestCtx) (olderThanDays : Option Int) (now : Int)
  | restoreVersion (ctx : RequestCtx) (id : Uuid) (v : Int) (now : Int)
  | deleteVersion (ctx : RequestCtx) (id : Uuid) (v : Int)
  | purgeExpired (now : Int)

/-- The hourly job. -/
def purgeExpired (now : Int) : Handler Unit := do
  let keys ← statement (FileRepo.purgeExpiredFiles now)
  removeFiles (blobsOf keys)

variable (sha256 : Octets → Str)

def serve : Operation → Handler Unit
  | .mkdir ctx name parentId gen => do let _ ← mkdir ctx name parentId gen
  | .upload ctx form gen => do let _ ← upload ctx sha256 form gen
  | .copyFile ctx id name parentId gen => do let _ ← copyFile ctx id name parentId gen
  | .bulkCopy ctx ids parentId newId now => do let _ ← bulkCopy ctx ids parentId newId now
  | .moveFile ctx id parentId now => do let _ ← moveFile ctx id parentId now
  | .bulkMove ctx ids parentId now => do let _ ← bulkMove ctx ids parentId now
  | .bulkTrash ctx ids now => do let _ ← bulkTrash ctx ids now
  | .bulkRestore ctx ids now => do let _ ← bulkRestore ctx ids now
  | .deleteFile ctx id permanent now => deleteFile ctx id permanent now
  | .restore ctx id now => do let _ ← restore ctx id now
  | .purgeTrash ctx olderThanDays now => do let _ ← purgeTrash ctx olderThanDays now
  | .restoreVersion ctx id v now => do let _ ← restoreVersion ctx id v now
  | .deleteVersion ctx id v => deleteVersion ctx id v
  | .purgeExpired now => purgeExpired now

/-- The state after a request, whether it succeeds or not. -/
def served (d : State) (op : Operation) : State := ((serve sha256 op).outcome d).2

/-! ### The empty drive -/

def emptyTables : Tables := ⟨[], [], [], [], [], [], []⟩

def emptyState : State :=
  ⟨⟨emptyTables, by decide, by decide⟩, fun _ => none⟩

def noHash (_ : Octets) : Str := []

end Expresso.Drive
