import Expresso.Drive.Replacements
import Expresso.Text.Pieces

/-! The chunks of one resumable upload, step by step: several requests write to the same part
file, in any order of their steps, and the one that completes it makes it the content of a file. -/

namespace Expresso.Drive
open Text Transition

structure PatchRequest where
  ctx : RequestCtx
  chunk : Uploads.Chunk
  newId : Uuid

/-- Where the file of the upload is. An open file is written to wherever it is. -/
inductive Place where
  | part
  | final
  | gone
  deriving DecidableEq

/-- What a request does next. The session row is as the request has read it. -/
inductive PatchStage where
  | reading
  | opening (up : UploadSession)
  | writing (up : UploadSession)
  | advancing (up : UploadSession)
  | promoting (up : UploadSession)
  | moving (up : UploadSession) (sha256 : Str)
  | recording (up : UploadSession) (sha256 : Str) (stage : Replacement.Stage)
  | accepted
  | finalized
  | refused
  deriving DecidableEq

/-- What the requests share. -/
structure Shared where
  store : Store
  bytes : Octets
  place : Place

namespace PatchRequest

variable (sha256 : Octets → Str) (id : Uuid) (r : PatchRequest) (now : Int)

/-- A statement of the finalization. The file is removed where a folder has its name. -/
def record (up : UploadSession) (sha : Str) (stage : Replacement.Stage) (h : Shared) :
    Shared × PatchStage :=
  let (s, next) := (Replacement.finalize r.ctx up sha r.newId).step now stage h.store
  match next, stage with
  | .answered true, _ => ({ h with store := s }, .finalized)
  | .answered false, .checking _ => ({ h with store := s, place := .gone }, .refused)
  | .answered false, _ => ({ h with store := s }, .refused)
  | next, _ => ({ h with store := s }, .recording up sha next)

def step : PatchStage → Shared → Shared × PatchStage
  | .reading, h => match Uploads.checkChunk r.ctx id r.chunk now h.store with
      | .ok up => (h, .opening up)
      | .error _ => (h, .refused)
  | .opening up, h => (h, if h.place = .part then .writing up else .refused)
  | .writing up, h =>
      ({ h with bytes := overwrite h.bytes up.offsetBytes.toNat r.chunk.body }, .advancing up)
  | .advancing up, h =>
      let newOffset := up.offsetBytes + r.chunk.body.length
      match UploadRepo.advanceOffset r.ctx.tenantId id up.offsetBytes newOffset h.store with
      | .ok (s, some _) => ({ h with store := s },
          if newOffset = up.totalSize then .promoting up else .accepted)
      | .ok (s, none) => ({ h with store := s }, .refused)
      | .error _ => (h, .refused)
  | .promoting up, h =>
      (h, if h.place = .part then .moving up (sha256 h.bytes) else .refused)
  | .moving up sha, h =>
      if h.place = .part then ({ h with place := .final }, .recording up sha .finding)
      else (h, .refused)
  | .recording up sha stage, h => r.record now up sha stage h
  | .accepted, h => (h, .accepted)
  | .finalized, h => (h, .finalized)
  | .refused, h => (h, .refused)

example (h : Shared) : r.step sha256 id now .refused h = (h, .refused) := by simp only [step]

end PatchRequest

/-- The log lists the requests that have advanced the stored offset, in that order. -/
structure UploadWorld (ι : Type) extends Shared where
  stage : ι → PatchStage
  log : List ι

variable {ι : Type} [DecidableEq ι]

/-- Whether a step has advanced the offset. -/
def advances : PatchStage → PatchStage → Bool
  | .advancing _, .promoting _ => true
  | .advancing _, .accepted => true
  | _, _ => false

def UploadWorld.step (sha256 : Octets → Str) (id : Uuid) (requests : ι → PatchRequest)
    (w : UploadWorld ι) (turn : ι × Int) : UploadWorld ι :=
  let before := w.stage turn.1
  let after := (requests turn.1).step sha256 id turn.2 before w.toShared
  { after.1 with
    stage := Function.update w.stage turn.1 after.2
    log := if advances before after.2 then w.log ++ [turn.1] else w.log }

/-! ### What is to hold -/

/-- The offset that a request names. -/
def PatchRequest.offset (r : PatchRequest) : Nat := (r.chunk.uploadOffset.getD 0).toNat

def PatchRequest.body (r : PatchRequest) : Octets := r.chunk.body

/-- Whether a request has been answered with success. -/
def PatchStage.succeeded : PatchStage → Prop
  | .accepted => True
  | .finalized => True
  | _ => False

/-- Once a request has made the file, its content are the bodies of the requests that were
answered with success, in the order of their offsets. -/
def Faithful (requests : ι → PatchRequest) (w : UploadWorld ι) : Prop :=
  ∀ j, w.stage j = .finalized → ∀ l : List ι, l.Nodup → (∀ i, i ∈ l ↔ (w.stage i).succeeded) →
    l.Pairwise (fun i k => (requests i).offset ≤ (requests k).offset) →
    w.bytes = joined (fun i => (requests i).body) l

/-- The bytes over which the offset has been advanced. -/
def acceptedBytes (requests : ι → PatchRequest) (w : UploadWorld ι) : Octets :=
  joined (fun i => (requests i).body) w.log

/-- No write changes what has been accepted, the offset is advanced over the request's own bytes
only, and no other request with a content is about to make the file as well. -/
def Undisturbed (id : Uuid) (requests : ι → PatchRequest) (w : UploadWorld ι) (turn : ι × Int) :
    Prop :=
  let r := requests turn.1
  let count := (acceptedBytes requests w).length
  match w.stage turn.1 with
  | .writing up =>
      (overwrite w.bytes up.offsetBytes.toNat r.body).take count = w.bytes.take count
  | .advancing up =>
      (∃ row ∈ w.store.uploads, UploadRepo.held r.ctx.tenantId id row = true ∧
        row.offsetBytes = up.offsetBytes) →
      (w.bytes.drop up.offsetBytes.toNat).take r.body.length = r.body
  | .moving _ _ => w.place = .part → ∀ i, i ≠ turn.1 →
      (∃ up, w.stage i = .promoting up ∨ ∃ sha, w.stage i = .moving up sha) →
      (requests i).body = []
  | _ => True

/-- A new upload: nothing is written, and no request has begun. -/
structure NewUpload (id : Uuid) (w : UploadWorld ι) : Prop where
  row : ∃ up ∈ w.store.uploads, up.id = id ∧ up.offsetBytes = 0 ∧ 0 ≤ up.totalSize
  bytes : w.bytes = []
  place : w.place = .part
  stage : ∀ i, w.stage i = .reading
  log : w.log = []

end Expresso.Drive
