import Expresso.Drive.Operations
import Expresso.Drive.Statements
import Expresso.Drive.Uploads

/-! The end of an upload when one of its steps fails: what is left, and whether the upload can
still be completed. -/

namespace Expresso.Drive
open Text Transition

/-- The steps that make a file of a complete upload. -/
inductive FinalStep where
  | read
  | rename
  | lookup
  | archive
  | content
  | insert
  | delete
  deriving DecidableEq

namespace Uploads

/-- The step, unless the disk or the database fails at it. -/
def orOutage {α : Type} (fails : FinalStep → Bool) (step : FinalStep) (e : DriveError)
    (m : Handler α) : Handler α :=
  if fails step then throw e else m

variable (ctx : RequestCtx) (sha256 : Octets → Str) (fails : FinalStep → Bool)

/-- `finalizeUpload` where any step may fail. -/
def finalizeUnder (up : UploadSession) (gen : Generated) : Handler Unit := do
  let bytes ← orOutage fails .read .io (readFile ⟨up.storageKey, true⟩)
  let blob : Blob := ⟨up.storageKey, false⟩
  orOutage fails .rename .io (renameFile ⟨up.storageKey, true⟩ blob)
  match ← orOutage fails .lookup .database
      (query fun s => .ok (FileRepo.findByName ctx.tenantId up.parentId up.name s)) with
  | some existing =>
      if existing.kind = .file then do
        orOutage fails .archive .database (archive ctx existing existing.ownerUserId)
        let _ ← orOutage fails .content .database
          (statement (FileRepo.updateContent ctx.tenantId existing.id
            ⟨up.storageKey, up.totalSize, some (sha256 bytes), up.mimeType⟩ gen.now))
      else do
        removeFile blob
        throw (.conflict "folder name collision".toList)
  | none => do
      let _ ← orOutage fails .insert .database
        (statement (FileRepo.insert ⟨ctx.tenantId, ctx.userId, up.parentId, up.name, .file,
          up.mimeType, up.totalSize, some (sha256 bytes), some up.storageKey⟩ gen.id gen.now))
  orOutage fails .delete .database (statement (UploadRepo.delete ctx.tenantId up.id))

theorem finalizeUnder_none (up : UploadSession) (gen : Generated) :
    finalizeUnder ctx sha256 (fun _ => false) up gen = finalizeUpload ctx sha256 up gen := rfl

/-- A later chunk brings the upload to its end: the session is gone, and a live file of its name
has the bytes. -/
def Completes (up : UploadSession) (bytes : Octets) (now : Int) (d : State) : Prop :=
  ∃ chunk gen, now ≤ gen.now ∧ After (patchUpload ctx sha256 up.id chunk gen) d fun result d' =>
    (∃ offset, result = .ok offset) ∧ UploadRepo.get ctx.tenantId up.id d'.store = none ∧
    ∃ f ∈ d'.store.files, f.name = up.name ∧ f.deletedAt = none ∧
      ∃ key, f.storageKey = some key ∧ d'.disk ⟨key, false⟩ = some bytes

/-- The bytes are still there, and with the session as it is and whatever else there may be in the
tables by then, a later chunk completes the upload. -/
def Retryable (up : UploadSession) (bytes : Octets) (now : Int) (d : State) : Prop :=
  (d.disk ⟨up.storageKey, true⟩ = some bytes ∨ d.disk ⟨up.storageKey, false⟩ = some bytes) ∧
  ∃ s, UploadRepo.get ctx.tenantId up.id s = UploadRepo.get ctx.tenantId up.id d.store ∧
    Completes ctx sha256 up bytes now { d with store := s }

end Uploads

open Uploads

section
variable {ctx : RequestCtx} {sha256 : Octets → Str} {fails : FinalStep → Bool}
  {up : UploadSession} {bytes : Octets} {gen : Generated} {d : State} {α : Type}

/-! ### After the part file is gone -/

/-- The part file is gone, and the sessions are as they were. -/
def Stranded (key : Uuid) (uploads : List UploadSession) (d : State) : Prop :=
  d.disk ⟨key, true⟩ = none ∧ d.store.uploads = uploads

theorem keeps_orOutage {invariant : State → Prop} {step : FinalStep} {e : DriveError}
    {m : Handler α} (keeps : Keeps invariant m) : Keeps invariant (orOutage fails step e m) := by
  unfold orOutage
  split_ifs
  · exact .throw e
  · exact keeps

theorem stranded_statement {key : Uuid} {uploads : List UploadSession}
    {f : Store → Except DriveError (Store × α)}
    (same : ∀ s s' a, f s = .ok (s', a) → s'.uploads = s.uploads) :
    Keeps (Stranded key uploads) (statement f) :=
  keeps_statement fun _ _ _ stranded done => ⟨stranded.1, (same _ _ _ done).trans stranded.2⟩

theorem stranded_removeFile {key : Uuid} {uploads : List UploadSession} (blob : Blob) :
    Keeps (Stranded key uploads) (removeFile blob) := by
  intro d stranded
  rw [after_removeFile]
  refine ⟨?_, stranded.2⟩
  by_cases same : (⟨key, true⟩ : Blob) = blob
  · exact same ▸ Function.update_self ..
  · exact (Function.update_of_ne same ..).trans stranded.1

theorem uploads_insert {f : FileRepo.NewFile} {id : Uuid} {now : Int} {s s' : Store}
    {row : DriveFile} (done : FileRepo.insert f id now s = .ok (s', row)) :
    s'.uploads = s.uploads := by
  obtain ⟨_, inserted, same⟩ := map_eq_ok_iff.mp done
  cases same
  rw [(insertRow_files inserted).1]

theorem uploads_updateContent {id : Uuid} {content : FileRepo.Content} {now : Int}
    {s s' : Store} {row : DriveFile}
    (done : FileRepo.updateContent ctx.tenantId id content now s = .ok (s', row)) :
    s'.uploads = s.uploads := by
  obtain ⟨rows, updated⟩ := updateOne_update done
  rw [update_files updated]

theorem stranded_archive {key : Uuid} {uploads : List UploadSession} (existing : DriveFile)
    (createdBy : Uuid) : Keeps (Stranded key uploads) (archive ctx existing createdBy) := by
  unfold archive
  split
  · exact .pure ()
  · apply (keeps_query _).bind
    intro nextNo
    apply stranded_statement
    intro s s' a done
    obtain ⟨_, inserted, same⟩ := map_eq_ok_iff.mp done
    cases same
    unfold VersionRepo.insert at inserted
    rw [commit_ok_iff.mp (mapError_ok.mp inserted)]

/-- What follows the renaming leaves the session without a part file if it fails. -/
theorem stranded_later {key : Uuid} {uploads : List UploadSession} {m : Handler α}
    (keeps : Keeps (Stranded key uploads) m) {last : Handler Unit}
    (fails : ∀ d, Stranded key uploads d → After last d fun result d' =>
      ∀ e, result = .error e → Stranded key uploads d') (stranded : Stranded key uploads d) :
    After (m >>= fun _ => last) d fun result d' =>
      ∀ e, result = .error e → Stranded key uploads d' := by
  rw [after_bind]
  apply (keeps d stranded).imp
  intro result d' holds
  cases result with
  | ok a => exact fails d' holds
  | error e => exact fun _ _ => holds

theorem stranded_delete {uploads : List UploadSession}
    (stranded : Stranded up.storageKey uploads d) :
    After (orOutage fails .delete .database (statement (UploadRepo.delete ctx.tenantId up.id))) d
      fun result d' => ∀ e, result = .error e → Stranded up.storageKey uploads d' := by
  unfold orOutage
  split_ifs
  · exact fun e failed => stranded
  · rw [after_statement]
    split
    · exact fun e failed => (nomatch failed)
    · exact fun e failed => stranded

/-- The part file under its last name. -/
def movedPart (up : UploadSession) (bytes : Octets) (d : State) : State where
  store := d.store
  disk := Function.update (Function.update d.disk ⟨up.storageKey, true⟩ none)
    ⟨up.storageKey, false⟩ (some bytes)

theorem after_readFile {blob : Blob} (there : d.disk blob = some bytes)
    (right : Except DriveError Octets → State → Prop) :
    After (readFile blob) d right ↔ right (.ok bytes) d := by
  unfold readFile
  rw [after_bind, after_get]
  simp only [there, after_pure]

theorem after_renameFile (there : d.disk ⟨up.storageKey, true⟩ = some bytes)
    (right : Except DriveError Unit → State → Prop) :
    After (renameFile ⟨up.storageKey, true⟩ ⟨up.storageKey, false⟩) d right ↔
      right (.ok ()) (movedPart up bytes d) := by
  unfold renameFile
  rw [after_bind, after_readFile there]
  rfl

theorem stranded_movedPart : Stranded up.storageKey d.store.uploads (movedPart up bytes d) := by
  refine ⟨?_, rfl⟩
  show Function.update (Function.update d.disk _ none) _ _ _ = none
  rw [Function.update_of_ne (by simp), Function.update_self]

/-- An error after the renaming strands the upload. -/
theorem finalizeUnder_stranded (there : d.disk ⟨up.storageKey, true⟩ = some bytes)
    (reads : fails .read = false) (renames : fails .rename = false) :
    After (finalizeUnder ctx sha256 fails up gen) d fun result d' =>
      ∀ e, result = .error e → Stranded up.storageKey d.store.uploads d' := by
  have read : orOutage fails .read .io (readFile ⟨up.storageKey, true⟩) =
      readFile ⟨up.storageKey, true⟩ := by
    rw [orOutage, reads]
    rfl
  have renamed : orOutage fails .rename .io
      (renameFile ⟨up.storageKey, true⟩ ⟨up.storageKey, false⟩) =
      renameFile ⟨up.storageKey, true⟩ ⟨up.storageKey, false⟩ := by
    rw [orOutage, renames]
    rfl
  unfold finalizeUnder
  rw [read, after_bind, after_readFile there]
  simp only
  rw [renamed, after_bind, after_renameFile there]
  simp only
  have stranded := @stranded_movedPart up bytes d
  rw [after_bind]
  have looked := (keeps_orOutage (keeps_query _) :
    Keeps (Stranded up.storageKey d.store.uploads) (orOutage fails .lookup .database
      (query fun s => .ok (FileRepo.findByName ctx.tenantId up.parentId up.name s))))
        (movedPart up bytes d) stranded
  apply looked.imp
  intro result d' holds
  cases result with
  | error e => exact fun _ _ => holds
  | ok found =>
    cases found with
    | none =>
      exact stranded_later
        (keeps_orOutage (stranded_statement fun _ _ _ done => uploads_insert done))
        (fun _ => stranded_delete) holds
    | some existing =>
      show After (if existing.kind = .file then _ else _) d' _
      split_ifs with file
      · exact stranded_later (keeps_orOutage (stranded_archive existing _))
          (fun _ => stranded_later (keeps_orOutage (stranded_statement
            fun _ _ _ done => uploads_updateContent done)) fun _ => stranded_delete) holds
      · exact stranded_later (stranded_removeFile _)
          (fun _ => stranded_later (.throw _) fun _ => stranded_delete) holds

/-! ### A later chunk -/

theorem checkChunk_get {id : Uuid} {chunk : Chunk} {now : Int} {s : Store} {held : UploadSession}
    (passed : checkChunk ctx id chunk now s = .ok held) :
    UploadRepo.get ctx.tenantId id s = some held := by
  obtain ⟨_, rest⟩ := check_bind_ok_iff.mp passed
  obtain ⟨_, rest⟩ := check_bind_ok_iff.mp rest
  obtain ⟨_, _, rest⟩ := bind_eq_ok_iff.mp rest
  obtain ⟨row, found, rest⟩ := bind_eq_ok_iff.mp rest
  obtain ⟨_, rest⟩ := check_bind_ok_iff.mp rest
  obtain ⟨_, rest⟩ := check_bind_ok_iff.mp rest
  obtain ⟨_, last⟩ := check_bind_ok_iff.mp rest
  cases last
  exact orThrow_ok_iff.mp found

/-- No chunk can be written where the part file is gone. -/
theorem patchUpload_stranded {held : UploadSession} {id : Uuid} (chunk : Chunk)
    (known : UploadRepo.get ctx.tenantId id d.store = some held)
    (gone : d.disk ⟨held.storageKey, true⟩ = none) :
    After (patchUpload ctx sha256 id chunk gen) d fun result _ => ∃ e, result = .error e := by
  unfold patchUpload
  rw [after_bind, after_query]
  cases checked : checkChunk ctx id chunk gen.now d.store with
  | error e => exact ⟨e, rfl⟩
  | ok session =>
    obtain rfl : held = session := Option.some.inj (known.symm.trans (checkChunk_get checked))
    show After (writeAt _ _ _ >>= _) d _
    unfold writeAt readFile
    simp only [after_bind, after_get, gone, after_throw]
    exact ⟨_, rfl⟩

end

/-! ### The session alone -/

section
variable (up : UploadSession)

/-- The folder that the upload goes to. -/
def parentRow (id : Uuid) : DriveFile :=
  ⟨id, up.tenantId, up.ownerUserId, none, [], .folder, none, 0, none, none, 0, none, none⟩

/-- A session in a folder with nothing else in it. -/
def sessionAlone : Tables :=
  { emptyTables with files := up.parentId.toList.map (parentRow up), uploads := [up] }

/-- The id of the new file. -/
def freshId : Uuid := up.parentId.getD 0 + 1

theorem sessionAlone_store : ∃ s : Store, s.toTables = sessionAlone up := by
  refine ⟨⟨sessionAlone up, ?_, ?_⟩, rfl⟩
  · cases above : up.parentId <;>
      simp [Tables.Unique, sessionAlone, above, emptyTables, parentRow]
  · cases above : up.parentId <;>
      simp [Tables.Referenced, sessionAlone, above, emptyTables, parentRow]

theorem finished_store {f : FileRepo.NewFile} (now : Int) (uploads : List UploadSession)
    (parent : f.parentId = up.parentId) (within : uploads = [up] ∨ uploads = []) :
    ∃ s : Store, s.toTables =
      { emptyTables with
        files := up.parentId.toList.map (parentRow up) ++ [FileRepo.newRow f (freshId up) now]
        uploads := uploads } := by
  refine ⟨⟨_, ?_, ?_⟩, rfl⟩
  · rcases within with rfl | rfl <;> cases above : up.parentId <;>
      simp [Tables.Unique, above, emptyTables, parentRow, FileRepo.newRow, parent, freshId]
  · rcases within with rfl | rfl <;> cases above : up.parentId <;>
      simp [Tables.Referenced, above, emptyTables, parentRow, FileRepo.newRow, parent]

end

section
variable {ctx : RequestCtx} {sha256 : Octets → Str} {held : UploadSession} {bytes : Octets}
  {d : State} {s : Store} {now : Int}

/-- No bytes for a complete upload. -/
def lastChunk (held : UploadSession) : Chunk :=
  ⟨"application/offset+octet-stream".toList, some held.totalSize, []⟩

theorem checkChunk_last (own : held.tenantId = ctx.tenantId)
    (full : held.offsetBytes = held.totalSize) (early : now < held.expiresAt)
    (alone : s.toTables = sessionAlone held) :
    checkChunk ctx held.id (lastChunk held) now s = .ok held := by
  have found : UploadRepo.get ctx.tenantId held.id s = some held := by
    unfold UploadRepo.get UploadRepo.held
    rw [alone]
    simp [sessionAlone, own]
  have waiting : (!held.isExpired now) = true := by
    simp [UploadSession.isExpired, early]
  unfold checkChunk
  refine check_bind_ok_iff.mpr ⟨require_ok_iff.mpr ?_, ?_⟩
  · exact List.isPrefixOf_iff_prefix.mpr (List.prefix_refl _)
  refine check_bind_ok_iff.mpr ⟨require_ok_iff.mpr (Nat.zero_le maxChunkBytes), ?_⟩
  refine bind_eq_ok_iff.mpr ⟨held.totalSize, rfl, ?_⟩
  refine bind_eq_ok_iff.mpr ⟨held, orThrow_ok_iff.mpr found, ?_⟩
  refine check_bind_ok_iff.mpr ⟨require_ok_iff.mpr waiting, ?_⟩
  refine check_bind_ok_iff.mpr ⟨require_ok_iff.mpr full.symm, ?_⟩
  refine check_bind_ok_iff.mpr ⟨require_ok_iff.mpr ?_, rfl⟩
  rw [full]
  exact (Int.add_zero held.totalSize).le

theorem held_own (own : held.tenantId = ctx.tenantId) :
    UploadRepo.held ctx.tenantId held.id held = true := by
  simp [UploadRepo.held, own]

theorem advanceOffset_last (own : held.tenantId = ctx.tenantId)
    (alone : s.toTables = sessionAlone held) :
    UploadRepo.advanceOffset ctx.tenantId held.id held.offsetBytes
        (held.offsetBytes + (0 : Nat)) s = .ok (s, some (held.offsetBytes + (0 : Nat))) := by
  have mine := held_own own
  have uploads : s.uploads = [held] := by
    rw [alone]
    rfl
  have same : commit { s.toTables with uploads := s.uploads.map fun up =>
      if (UploadRepo.held ctx.tenantId held.id up && up.offsetBytes = held.offsetBytes)
      then { up with offsetBytes := held.offsetBytes + (0 : Nat) } else up } = .ok s := by
    rw [commit_ok_iff, uploads]
    simp [mine, alone, sessionAlone]
  have unfolded : UploadRepo.advanceOffset ctx.tenantId held.id held.offsetBytes
      (held.offsetBytes + (0 : Nat)) s =
      ((commit { s.toTables with uploads := s.uploads.map fun up =>
        if (UploadRepo.held ctx.tenantId held.id up && up.offsetBytes = held.offsetBytes)
        then { up with offsetBytes := held.offsetBytes + (0 : Nat) } else up }).mapError
          fun _ => .database).map fun s' => (s',
            if s.uploads.any fun up =>
              UploadRepo.held ctx.tenantId held.id up && up.offsetBytes = held.offsetBytes
            then some (held.offsetBytes + (0 : Nat)) else none) := rfl
  rw [unfolded, same, uploads]
  simp [mine, Except.mapError, Except.map]

theorem findByName_alone (alone : s.toTables = sessionAlone held) :
    FileRepo.findByName ctx.tenantId held.parentId held.name s = none := by
  unfold FileRepo.findByName
  rw [alone]
  cases above : held.parentId <;> simp [sessionAlone, above, parentRow]

theorem insert_alone {f : FileRepo.NewFile} (parent : f.parentId = held.parentId)
    (alone : s.toTables = sessionAlone held) :
    ∃ s', FileRepo.insert f (freshId held) now s =
        .ok (s', FileRepo.newRow f (freshId held) now) ∧
      s'.toTables = { emptyTables with
        files := held.parentId.toList.map (parentRow held) ++
          [FileRepo.newRow f (freshId held) now]
        uploads := [held] } := by
  obtain ⟨s', tables⟩ := finished_store held now [held] parent (.inl rfl)
  refine ⟨s', ?_, tables⟩
  have known : ∀ p ∈ (FileRepo.newRow f (freshId held) now).parentId.toList,
      p ∈ s.files.map (·.id) := by
    show ∀ p ∈ f.parentId.toList, _
    rw [alone, parent]
    cases above : held.parentId <;> simp [sessionAlone, above, parentRow]
  have committed : commit { s.toTables with
      files := s.files ++ [FileRepo.newRow f (freshId held) now] } = .ok s' := by
    rw [commit_ok_iff, tables, alone]
    rfl
  unfold FileRepo.insert FileRepo.insertRow
  rw [if_pos known, committed]
  rfl

theorem delete_alone {f : FileRepo.NewFile} (parent : f.parentId = held.parentId)
    (own : held.tenantId = ctx.tenantId)
    (alone : s.toTables = { emptyTables with
      files := held.parentId.toList.map (parentRow held) ++ [FileRepo.newRow f (freshId held) now]
      uploads := [held] }) :
    ∃ s', UploadRepo.delete ctx.tenantId held.id s = .ok (s', ()) ∧ s'.uploads = [] ∧
      FileRepo.newRow f (freshId held) now ∈ s'.files := by
  obtain ⟨s', tables⟩ := finished_store held now [] parent (.inr rfl)
  have committed : commit { s.toTables with
      uploads := s.uploads.filter fun up => !UploadRepo.held ctx.tenantId held.id up } =
        .ok s' := by
    rw [commit_ok_iff, tables, alone]
    simp [UploadRepo.held, own]
  refine ⟨s', ?_, by rw [tables], by rw [tables]; simp⟩
  unfold UploadRepo.delete
  rw [committed]
  rfl

/-- With nothing in its way, the upload is completed by a chunk of no bytes. -/
theorem completes_alone (own : held.tenantId = ctx.tenantId)
    (full : held.offsetBytes = held.totalSize) (early : now < held.expiresAt)
    (there : d.disk ⟨held.storageKey, true⟩ = some bytes)
    (alone : s.toTables = sessionAlone held) :
    Completes ctx sha256 held bytes now { d with store := s } := by
  refine ⟨lastChunk held, ⟨freshId held, 0, now⟩, Int.le_refl now, ?_⟩
  have wrote : overwrite bytes held.offsetBytes.toNat [] = bytes := if_pos rfl
  have same : Function.update d.disk ⟨held.storageKey, true⟩ (some bytes) = d.disk := by
    rw [← there]
    exact Function.update_eq_self _ _
  unfold patchUpload
  rw [after_bind, after_query, checkChunk_last own full early alone]
  show After (writeAt _ _ [] >>= _) _ _
  unfold writeAt
  rw [after_bind, after_bind, after_readFile (d := { d with store := s }) there]
  simp only
  rw [wrote, after_writeFile]
  simp only [same]
  rw [after_bind, after_statement]
  simp only
  rw [show ((lastChunk held).body.length : Int) = ((0 : Nat) : Int) from rfl,
    advanceOffset_last own alone]
  simp only
  have final : held.offsetBytes + ((0 : Nat) : Int) = held.totalSize := by
    rw [full]
    exact Int.add_zero _
  rw [if_pos final, after_bind]
  unfold finalizeUpload
  have there' : ({ d with store := s } : State).disk ⟨held.storageKey, true⟩ = some bytes := there
  rw [after_bind, after_readFile there']
  simp only
  rw [after_bind, after_renameFile there']
  simp only
  rw [after_bind, after_query]
  simp only
  rw [show FileRepo.findByName ctx.tenantId held.parentId held.name
    (movedPart held bytes { d with store := s }).store = none from findByName_alone alone]
  simp only
  obtain ⟨inserted, done, tables⟩ := @insert_alone held s now
    ⟨ctx.tenantId, ctx.userId, held.parentId, held.name, .file, held.mimeType, held.totalSize,
      some (sha256 bytes), some held.storageKey⟩ rfl alone
  obtain ⟨last, removed, empty, member⟩ := delete_alone rfl own tables
  rw [after_bind, after_statement,
    show FileRepo.insert _ (freshId held) now (movedPart held bytes { d with store := s }).store = _
      from done]
  simp only
  rw [after_statement, show UploadRepo.delete ctx.tenantId held.id inserted = _ from removed]
  simp only
  rw [after_pure]
  refine ⟨⟨_, rfl⟩, ?_, _, member, rfl, rfl, held.storageKey, rfl, ?_⟩
  · unfold UploadRepo.get
    rw [empty]
    rfl
  · exact Function.update_self ..

end

/-! ### Errors of a finalization -/

section
variable {ctx : RequestCtx} {sha256 : Octets → Str} {fails : FinalStep → Bool}
  {up : UploadSession} {bytes : Octets} {gen : Generated} {d : State} {e : DriveError}

/-- An error of the first two steps changes nothing. -/
theorem finalizeUnder_early (first : fails .read = true ∨ fails .rename = true)
    (there : d.disk ⟨up.storageKey, true⟩ = some bytes) :
    ((finalizeUnder ctx sha256 fails up gen).outcome d).2 = d := by
  have still : After (finalizeUnder ctx sha256 fails up gen) d fun _ d' => d' = d := by
    unfold finalizeUnder orOutage
    by_cases reads : fails .read = true
    · rw [if_pos reads, after_bind, after_throw]
    · rw [if_neg reads, after_bind, after_readFile there]
      simp only
      rw [if_pos (first.resolve_left reads), after_bind, after_throw]
  exact still

theorem not_retryable {now : Int} {held : UploadSession} {d' : State}
    (known : UploadRepo.get ctx.tenantId up.id d'.store = some held)
    (gone : d'.disk ⟨held.storageKey, true⟩ = none) : ¬Retryable ctx sha256 up bytes now d' := by
  rintro ⟨_, s, same, chunk, later, _, completed⟩
  obtain ⟨⟨offset, done⟩, _⟩ := completed
  obtain ⟨e, failed⟩ := @patchUpload_stranded ctx sha256 later { d' with store := s } held up.id
    chunk (same.trans known) gone
  cases failed.symm.trans done

/-- Where the last bytes are there and the finalization fails, the upload can be completed later if
and only if it failed to read or to rename the part file. -/
theorem finalize_retryable_iff
    (known : UploadRepo.get ctx.tenantId up.id d.store =
      some { up with offsetBytes := up.totalSize })
    (there : d.disk ⟨up.storageKey, true⟩ = some bytes) (early : gen.now < up.expiresAt)
    (failed : ((finalizeUnder ctx sha256 fails up gen).outcome d).1 = .error e) :
    Retryable ctx sha256 up bytes gen.now ((finalizeUnder ctx sha256 fails up gen).outcome d).2 ↔
      fails .read = true ∨ fails .rename = true := by
  constructor
  · intro retryable
    by_contra neither
    rw [not_or, Bool.not_eq_true, Bool.not_eq_true] at neither
    have stranded : Stranded up.storageKey d.store.uploads _ :=
      @finalizeUnder_stranded ctx sha256 fails up bytes gen d there neither.1 neither.2 e failed
    have known' : UploadRepo.get ctx.tenantId up.id
        ((finalizeUnder ctx sha256 fails up gen).outcome d).2.store =
          some { up with offsetBytes := up.totalSize } := by
      unfold UploadRepo.get
      rw [stranded.2]
      exact known
    exact not_retryable known' stranded.1 retryable
  · intro first
    rw [finalizeUnder_early first there]
    obtain ⟨s, alone⟩ := sessionAlone_store { up with offsetBytes := up.totalSize }
    have own : up.tenantId = ctx.tenantId := by
      have held := List.find?_some known
      unfold UploadRepo.held at held
      simpa using held
    refine ⟨.inl there, s, ?_, ?_⟩
    · rw [known]
      unfold UploadRepo.get
      rw [alone]
      simp [sessionAlone, UploadRepo.held, own]
    · exact @completes_alone ctx sha256 { up with offsetBytes := up.totalSize } bytes d s gen.now
        own rfl early there alone

end

/-! ### One byte for a name -/

def byteUpload : UploadSession := ⟨5, 1, 7, none, ['a'], none, 1, 0, 6, 100⟩

/-- The last byte has arrived, and a folder may have the name by now. -/
def byteArrived (folder : Bool) : State :=
  ⟨⟨{ emptyTables with
      files := if folder then [⟨8, 1, 7, none, ['a'], .folder, none, 0, none, none, 0, none, none⟩]
        else []
      uploads := [{ byteUpload with offsetBytes := 1 }] },
    by cases folder <;> decide, by cases folder <;> decide⟩,
    Function.update (fun _ => none) ⟨6, true⟩ (some [65])⟩

theorem byteArrived_part (folder : Bool) :
    (byteArrived folder).disk ⟨byteUpload.storageKey, true⟩ = some [65] := rfl

/-- The renaming fails, and the upload can be completed later. -/
theorem rename_retryable :
    Retryable ⟨1, 7⟩ noHash byteUpload [65] 0
      ((finalizeUnder ⟨1, 7⟩ noHash (· = .rename) byteUpload ⟨9, 0, 0⟩).outcome
        (byteArrived false)).2 :=
  (@finalize_retryable_iff ⟨1, 7⟩ noHash (· = .rename) byteUpload [65] ⟨9, 0, 0⟩
    (byteArrived false) .io rfl (byteArrived_part false) (by decide) (by decide)).mpr (.inr rfl)

/-- A folder has taken the name: the session stays complete, and its bytes are gone. -/
theorem folder_collision_loses :
    ((finalizeUpload ⟨1, 7⟩ noHash byteUpload ⟨9, 0, 0⟩).outcome (byteArrived true)).1 =
      .error (.conflict "folder name collision".toList) ∧
    UploadRepo.get 1 5 ((finalizeUpload ⟨1, 7⟩ noHash byteUpload ⟨9, 0, 0⟩).outcome
      (byteArrived true)).2.store = some { byteUpload with offsetBytes := 1 } ∧
    ((finalizeUpload ⟨1, 7⟩ noHash byteUpload ⟨9, 0, 0⟩).outcome (byteArrived true)).2.disk
      ⟨6, true⟩ = none ∧
    ((finalizeUpload ⟨1, 7⟩ noHash byteUpload ⟨9, 0, 0⟩).outcome (byteArrived true)).2.disk
      ⟨6, false⟩ = none ∧
    ¬Retryable ⟨1, 7⟩ noHash byteUpload [65] 0
      ((finalizeUpload ⟨1, 7⟩ noHash byteUpload ⟨9, 0, 0⟩).outcome (byteArrived true)).2 := by
  refine ⟨rfl, rfl, rfl, rfl, ?_⟩
  exact not_retryable
    (show UploadRepo.get 1 5 _ = some { byteUpload with offsetBytes := 1 } from rfl) rfl

end Expresso.Drive
