import Expresso.Drive.Operations
import Expresso.Drive.Statements
import Expresso.Transition.Runs

/-! The folders over runs of requests: every way up ends as long as nothing is moved below
itself. -/

namespace Expresso.Drive
open Text Transition Tree

/-! ### Parents in the tables -/

def parentOf (files : List DriveFile) (id : Uuid) : Option Uuid :=
  (rowOf files id).bind (·.parentId)

theorem parentOf_mem {s : Store} {id p : Uuid} (known : parentOf s.files id = some p) :
    id ∈ s.files.map (·.id) ∧ p ∈ s.files.map (·.id) := by
  obtain ⟨f, found, above⟩ := Option.bind_eq_some_iff.mp known
  obtain ⟨member, rfl⟩ := (rowOf_eq_some_iff s.unique.1).mp found
  exact ⟨List.mem_map_of_mem member, s.referenced.1 f member p (by simp [above])⟩

/-- The way up from every row ends. -/
def Grounded (s : Store) : Prop := Forest (parentOf s.files)

/-! ### Parents after them -/

theorem parentOf_append {files : List DriveFile} {row : DriveFile}
    (fresh : row.id ∉ files.map (·.id)) :
    parentOf (files ++ [row]) = reparent (parentOf files) (· = row.id) row.parentId := by
  funext id
  unfold parentOf rowOf reparent
  rw [List.find?_append]
  by_cases own : id = row.id
  · have absent : rowOf files id = none := rowOf_eq_none (own ▸ fresh)
    rw [rowOf] at absent
    rw [absent, if_pos own]
    simp [own]
  · rw [if_neg own]
    have other : ¬row.id = id := fun same => own same.symm
    simp [other]

theorem grounded_insertRow {row : DriveFile} {s s' : Store} (grounded : Grounded s)
    (done : FileRepo.insertRow row s = .ok s') : Grounded s' := by
  obtain ⟨same, fresh, known⟩ := insertRow_files done
  unfold Grounded
  rw [congrArg Tables.files same]
  show Forest (parentOf (s.files ++ [row]))
  rw [parentOf_append fresh, forest_reparent_iff grounded]
  rintro q above _ rfl below
  have member := known q above
  obtain ⟨c, child⟩ := below.child fun same => fresh (same ▸ member)
  exact fresh (parentOf_mem child).2

theorem rowOf_map {files : List DriveFile} {change : DriveFile → DriveFile}
    (keepsId : ∀ f, (change f).id = f.id) (id : Uuid) :
    rowOf (files.map change) id = (rowOf files id).map change := by
  unfold rowOf
  rw [List.find?_map]
  congr 2
  funext f
  simp [keepsId]

theorem grounded_update {selected : DriveFile → Bool} {change : DriveFile → DriveFile}
    (keepsId : ∀ f, (change f).id = f.id) (keepsParent : ∀ f, (change f).parentId = f.parentId)
    {s s' : Store} {rows : List DriveFile} (grounded : Grounded s)
    (done : FileRepo.update selected change s = .ok (s', rows)) : Grounded s' := by
  unfold Grounded
  rw [congrArg Tables.files (update_files done)]
  have same : parentOf (s.files.map fun f => if selected f then change f else f) =
      parentOf s.files := by
    funext id
    unfold parentOf
    rw [rowOf_map fun f => by split <;> simp [keepsId]]
    cases rowOf s.files id with
    | none => rfl
    | some f =>
      show (if selected f then change f else f).parentId = f.parentId
      split <;> simp [keepsParent]
  exact same ▸ grounded

def Selected (selected : DriveFile → Bool) (s : Store) (id : Uuid) : Prop :=
  (rowOf s.files id).any selected = true

instance (selected : DriveFile → Bool) (s : Store) : DecidablePred (Selected selected s) :=
  fun _ => inferInstanceAs (Decidable (_ = true))

theorem grounded_moved_iff {selected : DriveFile → Bool} {newParentId : Option Uuid} {now : Int}
    {s s' : Store} {rows : List DriveFile} (grounded : Grounded s)
    (done : FileRepo.update selected (FileRepo.moved newParentId now) s = .ok (s', rows)) :
    Grounded s' ↔ ∀ q, newParentId = some q → ∀ id, Selected selected s id →
      ¬Below (parentOf s.files) q id := by
  rw [← forest_reparent_iff grounded]
  unfold Grounded
  rw [congrArg Tables.files (update_files done)]
  have same : parentOf (s.files.map fun f =>
      if selected f then FileRepo.moved newParentId now f else f) =
      reparent (parentOf s.files) (Selected selected s) newParentId := by
    funext id
    unfold parentOf
    rw [rowOf_map fun f => by split <;> rfl]
    by_cases chosen : Selected selected s id
    · rw [reparent_moved chosen]
      unfold Selected at chosen
      revert chosen
      cases rowOf s.files id with
      | none => exact fun chosen => nomatch chosen
      | some f =>
        intro chosen
        show (if selected f then FileRepo.moved newParentId now f else f).parentId = newParentId
        rw [if_pos (show selected f = true from chosen)]
        rfl
    · rw [reparent_other chosen]
      unfold Selected at chosen
      show _ = (rowOf s.files id).bind _
      revert chosen
      cases rowOf s.files id with
      | none => exact fun _ => rfl
      | some f =>
        intro chosen
        show (if selected f then FileRepo.moved newParentId now f else f).parentId = f.parentId
        rw [if_neg (show ¬selected f = true from chosen)]
  rw [← same]

theorem grounded_pruned {selected : DriveFile → Bool} {s s' : Store} (grounded : Grounded s)
    (tables : s'.toTables = FileRepo.pruned selected s) : Grounded s' := by
  have files := congrArg Tables.files tables
  apply Forest.pruned grounded
  intro id
  unfold parentOf
  cases after : rowOf s'.files id with
  | none => exact .inl rfl
  | some f =>
    obtain ⟨member, isId⟩ := (rowOf_eq_some_iff s'.unique.1).mp after
    rw [files] at member
    have before := (rowOf_eq_some_iff s.unique.1).mpr
      ⟨(FileRepo.mem_pruned_files.mp member).1, isId⟩
    rw [before]
    exact .inr rfl

theorem grounded_bulkCopyFiles {tenantId ownerId : Uuid} {newParentId : Option Uuid} {now : Int}
    {sources : List (Uuid × Uuid)} {s s' : Store} {rows : List DriveFile} (grounded : Grounded s)
    (done : FileRepo.bulkCopyFiles tenantId ownerId newParentId now sources s = .ok (s', rows)) :
    Grounded s' := by
  induction sources generalizing s rows with
  | nil =>
    cases done
    exact grounded
  | cons source rest ih =>
    unfold FileRepo.bulkCopyFiles at done
    split at done
    · exact ih grounded done
    · obtain ⟨s₁, inserted, later⟩ := bind_eq_ok_iff.mp done
      obtain ⟨⟨s₂, rows₂⟩, copied, same⟩ := bind_eq_ok_iff.mp later
      cases same
      exact ih (grounded_insertRow grounded inserted) copied

/-! ### Requests -/

variable {ctx : RequestCtx} {gen : Generated} {ids : List Uuid} {id : Uuid}
  {name : Str} {parentId : Option Uuid} {now v : Int}

def StateGrounded (d : State) : Prop := Grounded d.store

theorem keeps_writeFile {blob : Blob} {bytes : Octets} :
    Keeps StateGrounded (writeFile blob bytes) := fun _ grounded => grounded

theorem keeps_removeFile {blob : Blob} : Keeps StateGrounded (removeFile blob) :=
  fun _ grounded => grounded

theorem keeps_insert {f : FileRepo.NewFile} :
    Keeps StateGrounded (statement (FileRepo.insert f id now)) := by
  apply keeps_statement
  intro d s row grounded done
  obtain ⟨s', inserted, same⟩ := map_eq_ok_iff.mp done
  cases same
  exact grounded_insertRow grounded inserted

theorem keeps_update (change : DriveFile → DriveFile) {selected : DriveFile → Bool}
    (keepsId : ∀ f, (change f).id = f.id) (keepsParent : ∀ f, (change f).parentId = f.parentId) :
    Keeps StateGrounded (statement (FileRepo.update selected change)) :=
  keeps_statement fun _ _ _ grounded done => grounded_update keepsId keepsParent grounded done

theorem keeps_updateOne (change : DriveFile → DriveFile) {selected : DriveFile → Bool}
    (keepsId : ∀ f, (change f).id = f.id) (keepsParent : ∀ f, (change f).parentId = f.parentId) :
    Keeps StateGrounded (statement (FileRepo.updateOne id selected change)) := by
  apply keeps_statement
  intro d s row grounded done
  obtain ⟨rows, updated⟩ := updateOne_update done
  exact grounded_update keepsId keepsParent grounded updated

theorem keeps_versions {f : Store → Except DriveError Store}
    (files : ∀ s s', f s = .ok s' → s'.files = s.files) :
    Keeps StateGrounded (statement fun s => (f s).map (·, ())) := by
  apply keeps_statement
  intro d s a grounded done
  obtain ⟨s', changed, same⟩ := map_eq_ok_iff.mp done
  have sameFiles := files d.store s' changed
  cases same
  show Forest (parentOf s.files)
  rw [sameFiles]
  exact grounded

theorem keeps_archive {existing : DriveFile} {createdBy : Uuid} :
    Keeps StateGrounded (archive ctx existing createdBy) := by
  unfold archive
  split
  · exact .pure ()
  · apply (keeps_query _).bind
    intro nextNo
    apply keeps_versions
    intro s s' done
    unfold VersionRepo.insert at done
    have files := congrArg Tables.files (commit_ok_iff.mp (mapError_ok.mp done))
    exact files

theorem keeps_mkdir : Keeps StateGrounded (mkdir ctx name parentId gen) := by
  unfold mkdir
  apply (keeps_query _).bind
  intro fname
  exact keeps_insert

theorem keeps_upload {sha256 : Octets → Str} {form : UploadForm} :
    Keeps StateGrounded (upload ctx sha256 form gen) := by
  unfold upload
  split
  · exact .throw _
  · apply (keeps_query _).bind
    intro fname
    apply keeps_writeFile.bind
    intro _
    apply (keeps_query _).bind
    intro sibling
    split
    · split_ifs
      · apply (keeps_orRemove (keeps_query _) keeps_removeFile).bind
        intro _
        apply keeps_archive.bind
        intro _
        exact keeps_orRemove
          (keeps_updateOne (FileRepo.withContent _ _) (fun _ => rfl) fun _ => rfl)
          keeps_removeFile
      · exact keeps_removeFile.bind fun _ => .throw _
    · exact keeps_orRemove keeps_insert keeps_removeFile

theorem keeps_copyFile {newName : Option Str} :
    Keeps StateGrounded (copyFile ctx id newName parentId gen) := by
  unfold copyFile
  apply (keeps_query _).bind
  intro newName
  apply keeps_statement
  intro d s row grounded done
  unfold FileRepo.copyFile at done
  split at done
  · cases done
  · obtain ⟨s', inserted, same⟩ := map_eq_ok_iff.mp done
    cases same
    exact grounded_insertRow grounded inserted

theorem keeps_bulkCopy {newId : Nat → Uuid} :
    Keeps StateGrounded (bulkCopy ctx ids parentId newId now) := by
  unfold bulkCopy
  apply (keeps_query _).bind
  intro _
  apply keeps_statement
  intro d s rows grounded done
  exact grounded_bulkCopyFiles grounded done

theorem keeps_delete {α : Type} {f : Store → Except DriveError (Store × α)}
    (deletes : ∀ s, ∃ selected s' a, s'.toTables = FileRepo.pruned selected s ∧
      f s = .ok (s', a)) :
    Keeps StateGrounded (statement f) := by
  apply keeps_statement
  intro d s a grounded done
  obtain ⟨selected, s', b, tables, deleted⟩ := deletes d.store
  cases done.symm.trans deleted
  exact grounded_pruned grounded tables

theorem keeps_bulkTrash : Keeps StateGrounded (bulkTrash ctx ids now) := by
  unfold bulkTrash
  apply (keeps_query _).bind
  intro _
  exact (keeps_update (FileRepo.trashed now) (fun _ => rfl) fun _ => rfl).bind fun _ => .pure _

theorem keeps_bulkRestore : Keeps StateGrounded (bulkRestore ctx ids now) := by
  unfold bulkRestore
  apply (keeps_query _).bind
  intro _
  exact (keeps_update (FileRepo.restored now) (fun _ => rfl) fun _ => rfl).bind fun _ => .pure _

theorem keeps_deleteFile {permanent : Bool} :
    Keeps StateGrounded (deleteFile ctx id permanent now) := by
  unfold deleteFile
  apply (keeps_query _).bind
  intro _
  split_ifs
  · apply (keeps_delete fun s => ⟨_, _, _, (FileRepo.purge_eq _ _ s).choose_spec⟩).bind
    intro key
    split
    · exact .throw _
    · exact keeps_removeFile
  · unfold FileRepo.softDelete
    apply (keeps_update (FileRepo.trashed now) (fun _ => rfl) fun _ => rfl).bind
    intro rows
    split_ifs
    · exact .throw _
    · exact .pure _

theorem keeps_restore : Keeps StateGrounded (restore ctx id now) := by
  unfold restore FileRepo.restore
  exact keeps_updateOne (FileRepo.restored now) (fun _ => rfl) fun _ => rfl

theorem keeps_purgeTrash {olderThanDays : Option Int} :
    Keeps StateGrounded (purgeTrash ctx olderThanDays now) := by
  unfold purgeTrash
  apply (keeps_delete fun s =>
    ⟨_, _, _, (FileRepo.purgeTrashedOlderThan_eq _ _ s).choose_spec⟩).bind
  intro keys
  exact (keeps_removeFiles fun _ => keeps_removeFile).bind fun _ => .pure _

theorem keeps_restoreVersion : Keeps StateGrounded (restoreVersion ctx id v now) := by
  unfold restoreVersion
  apply (keeps_query _).bind
  intro gated
  apply keeps_archive.bind
  intro _
  exact keeps_updateOne (FileRepo.withContent _ _) (fun _ => rfl) fun _ => rfl

theorem keeps_deleteVersion : Keeps StateGrounded (deleteVersion ctx id v) := by
  unfold deleteVersion
  apply (keeps_query _).bind
  intro version
  have removes : ∀ s s', VersionRepo.delete ctx.tenantId id v s = .ok s' → s'.files = s.files := by
    intro s s' done
    unfold VersionRepo.delete at done
    have files := congrArg Tables.files (commit_ok_iff.mp (mapError_ok.mp done))
    exact files
  exact (keeps_versions removes).bind fun _ => keeps_removeFile

theorem keeps_purgeExpired : Keeps StateGrounded (purgeExpired now) := by
  unfold purgeExpired
  apply (keeps_delete fun s => ⟨_, _, _, (FileRepo.purgeExpiredFiles_eq _ s).choose_spec⟩).bind
  intro keys
  exact keeps_removeFiles fun _ => keeps_removeFile

/-- No request but a move touches the parents of what is there. -/
theorem keeps_serve {sha256 : Octets → Str} {op : Operation}
    (still : ∀ ctx ids parentId now, op ≠ .bulkMove ctx ids parentId now)
    (fixed : ∀ ctx id parentId now, op ≠ .moveFile ctx id parentId now) :
    Keeps StateGrounded (serve sha256 op) := by
  cases op with
  | mkdir ctx name parentId gen => exact keeps_mkdir.bind fun _ => .pure _
  | upload ctx form gen => exact keeps_upload.bind fun _ => .pure _
  | copyFile ctx id name parentId gen => exact keeps_copyFile.bind fun _ => .pure _
  | bulkCopy ctx ids parentId newId now => exact keeps_bulkCopy.bind fun _ => .pure _
  | moveFile ctx id parentId now => exact absurd rfl (fixed ctx id parentId now)
  | bulkMove ctx ids parentId now => exact absurd rfl (still ctx ids parentId now)
  | bulkTrash ctx ids now => exact keeps_bulkTrash.bind fun _ => .pure _
  | bulkRestore ctx ids now => exact keeps_bulkRestore.bind fun _ => .pure _
  | deleteFile ctx id permanent now => exact keeps_deleteFile
  | restore ctx id now => exact keeps_restore.bind fun _ => .pure _
  | purgeTrash ctx olderThanDays now => exact keeps_purgeTrash.bind fun _ => .pure _
  | restoreVersion ctx id v now => exact keeps_restoreVersion.bind fun _ => .pure _
  | deleteVersion ctx id v => exact keeps_deleteVersion
  | purgeExpired now => exact keeps_purgeExpired

/-! ### Moves -/

/-- The gates of a move: write access to what it moves, and to a folder that it does not move. -/
def Admitted (ctx : RequestCtx) (ids : List Uuid) (parentId : Option Uuid) (s : Store) : Prop :=
  requireWriteAll ctx ids s = .ok () ∧ ∀ p, parentId = some p →
    (∃ target, getFolder ctx p s = .ok target) ∧ requireWrite ctx p s = .ok () ∧ p ∉ ids

def relocated (selected : DriveFile → Bool) (parentId : Option Uuid) (now : Int) (s : Store) :
    Tables :=
  { s.toTables with
    files := s.files.map fun f => if selected f then FileRepo.moved parentId now f else f }

/-- A move that nothing stops, to a folder at or below one that it moves. -/
def Entangled (ctx : RequestCtx) (ids : List Uuid) (parentId : Option Uuid) (now : Int)
    (s : Store) : Prop :=
  let selected := FileRepo.among ctx.tenantId ids true
  Admitted ctx ids parentId s ∧ (relocated selected parentId now s).Unique ∧
    ∃ q, parentId = some q ∧ ∃ id, Selected selected s id ∧ Below (parentOf s.files) q id

theorem getFolder_known {p : Uuid} {s : Store} {target : DriveFile}
    (found : getFolder ctx p s = .ok target) : target.id = p ∧ p ∈ s.files.map (·.id) := by
  obtain ⟨row, got, rest⟩ := bind_eq_ok_iff.mp found
  obtain ⟨_, same⟩ := check_bind_ok_iff.mp rest
  cases same
  obtain ⟨member, isId, _⟩ := get_ok got
  exact ⟨isId, isId ▸ List.mem_map_of_mem member⟩

theorem relocated_referenced {selected : DriveFile → Bool} {s : Store}
    (known : ∀ p, parentId = some p → p ∈ s.files.map (·.id)) :
    (relocated selected parentId now s).Referenced := by
  have ids : (relocated selected parentId now s).files.map (·.id) = s.files.map (·.id) := by
    unfold relocated
    rw [List.map_map]
    apply List.map_congr_left
    intro f _
    show (if selected f then FileRepo.moved parentId now f else f).id = f.id
    split <;> rfl
  unfold Tables.Referenced
  rw [ids]
  refine ⟨fun f member p above => ?_, s.referenced.2⟩
  obtain ⟨g, before, same⟩ := List.mem_map.mp member
  split_ifs at same
  · exact known p (by simpa [← same, FileRepo.moved] using above)
  · exact s.referenced.1 g before p (same ▸ above)

theorem update_moved (selected : DriveFile → Bool) (now : Int) {s : Store}
    (known : ∀ p, parentId = some p → p ∈ s.files.map (·.id)) :
    if (relocated selected parentId now s).Unique then
      ∃ s' rows, FileRepo.update selected (FileRepo.moved parentId now) s = .ok (s', rows)
    else ∃ e, FileRepo.update selected (FileRepo.moved parentId now) s = .error e := by
  unfold FileRepo.update
  show if _ then ∃ s' rows, ((commit (relocated selected parentId now s)).mapError _).map _ = _ else
    ∃ e, ((commit (relocated selected parentId now s)).mapError _).map _ = _
  unfold commit
  split_ifs with unique referenced
  · exact ⟨_, _, rfl⟩
  · exact absurd (relocated_referenced known) referenced
  · exact ⟨_, rfl⟩

theorem among_single {tenantId : Uuid} :
    FileRepo.among tenantId [id] true = liveIn tenantId id := by
  funext f
  unfold FileRepo.among liveIn
  cases deleted : f.deletedAt <;> simp [Bool.and_comm]

/-- Whether the folders survive a move to a destination that is there. -/
theorem grounded_after_move {selected : DriveFile → Bool} {d : State}
    (grounded : StateGrounded d)
    (known : ∀ p, parentId = some p → p ∈ d.store.files.map (·.id)) :
    After (statement (FileRepo.update selected (FileRepo.moved parentId now))) d
        (fun _ => StateGrounded) ↔
      ¬((relocated selected parentId now d.store).Unique ∧ ∃ q, parentId = some q ∧
        ∃ id, Selected selected d.store id ∧ Below (parentOf d.store.files) q id) := by
  rw [after_statement]
  have updated := update_moved selected now known
  split_ifs at updated with unique
  · obtain ⟨s', rows, done⟩ := updated
    rw [done]
    show Grounded s' ↔ _
    rw [grounded_moved_iff grounded done]
    constructor
    · intro clear ⟨_, q, isTarget, id, member, below⟩
      exact clear q isTarget id member below
    · intro clear q isTarget id member below
      exact clear ⟨unique, q, isTarget, id, member, below⟩
  · obtain ⟨e, failed⟩ := updated
    rw [failed]
    exact ⟨fun _ both => unique both.1, fun _ => grounded⟩

/-- A move of one row fails where there is none, and changes nothing there. -/
theorem grounded_after_updateOne {selected : DriveFile → Bool}
    {change : DriveFile → DriveFile} {d : State} :
    After (statement (FileRepo.updateOne id selected change)) d (fun _ => StateGrounded) ↔
      After (statement (FileRepo.update selected change)) d (fun _ => StateGrounded) := by
  rw [after_statement, after_statement]
  unfold FileRepo.updateOne
  cases updated : FileRepo.update selected change d.store with
  | error e => rfl
  | ok result =>
    obtain ⟨s', rows⟩ := result
    cases rows with
    | cons row rest => rfl
    | nil =>
      show Forest (parentOf d.store.files) ↔ Forest (parentOf s'.files)
      obtain ⟨_, _, same⟩ := map_eq_ok_iff.mp updated
      have none : d.store.files.filter selected = [] := List.map_eq_nil_iff.mp (Prod.mk.inj same).2
      have files : s'.files = d.store.files := by
        calc s'.files
          _ = d.store.files.map fun f => if selected f then change f else f :=
            congrArg Tables.files (update_files updated)
          _ = d.store.files.map fun f => f := by
            apply List.map_congr_left
            intro f member
            exact if_neg (List.filter_eq_nil_iff.mp none f member)
          _ = d.store.files := List.map_id' _
      rw [files]

theorem bulkMoveGates_iff {s : Store} :
    bulkMoveGates ctx ids parentId s = .ok () ↔
      checkIds ids = .ok () ∧ Admitted ctx ids parentId s := by
  unfold bulkMoveGates Admitted
  rw [check_bind_ok_iff, check_bind_ok_iff]
  apply and_congr_right
  intro _
  apply and_congr_right
  intro _
  cases parentId with
  | none => exact ⟨fun _ _ above => (nomatch above), fun _ => rfl⟩
  | some p =>
    constructor
    · intro passed q same
      cases same
      obtain ⟨target, found, rest⟩ := bind_eq_ok_iff.mp passed
      obtain ⟨writes, outside⟩ := check_bind_ok_iff.mp rest
      split_ifs at outside with inside
      exact ⟨⟨target, found⟩, writes, (getFolder_known found).1 ▸ inside⟩
    · intro passed
      obtain ⟨⟨target, found⟩, writes, outside⟩ := passed p rfl
      apply bind_eq_ok_iff.mpr
      refine ⟨target, found, check_bind_ok_iff.mpr ⟨writes, ?_⟩⟩
      rw [(getFolder_known found).1, if_neg outside]
      rfl

theorem moveGates_iff {s : Store} :
    moveGates ctx id parentId s = .ok () ↔ Admitted ctx [id] parentId s := by
  have single : requireWriteAll ctx [id] s = requireWrite ctx id s := by
    show (requireWrite ctx id s >>= fun _ => pure ()) = _
    exact bind_pure _
  unfold moveGates Admitted
  rw [check_bind_ok_iff, single]
  apply and_congr_right
  intro _
  cases parentId with
  | none => exact ⟨fun _ _ above => (nomatch above), fun _ => rfl⟩
  | some p =>
    constructor
    · intro passed q same
      cases same
      obtain ⟨target, found, rest⟩ := bind_eq_ok_iff.mp passed
      split_ifs at rest with own
      exact ⟨⟨target, found⟩, rest, by simpa [(getFolder_known found).1] using own⟩
    · intro passed
      obtain ⟨⟨target, found⟩, writes, outside⟩ := passed p rfl
      apply bind_eq_ok_iff.mpr
      refine ⟨target, found, ?_⟩
      rw [(getFolder_known found).1, if_neg (by simpa using outside)]
      exact writes

theorem grounded_after_bulkMove {d : State} (grounded : StateGrounded d) :
    After (bulkMove ctx ids parentId now) d (fun _ => StateGrounded) ↔
      ¬(checkIds ids = .ok () ∧ Entangled ctx ids parentId now d.store) := by
  unfold bulkMove Entangled
  rw [after_bind, after_query]
  cases gates : bulkMoveGates ctx ids parentId d.store with
  | error e =>
    constructor
    · intro _ ⟨bounded, admitted, _⟩
      have passed := bulkMoveGates_iff.2 ⟨bounded, admitted⟩
      cases gates.symm.trans passed
    · exact fun _ => grounded
  | ok _ =>
    obtain ⟨bounded, admitted⟩ := bulkMoveGates_iff.1 gates
    show After (statement (FileRepo.update _ _)) d _ ↔ _
    rw [grounded_after_move grounded fun p above =>
      let ⟨_, target⟩ := (admitted.2 p above).1
      (getFolder_known target).2]
    simp only [bounded, admitted, true_and]

theorem grounded_after_moveFile {d : State} (grounded : StateGrounded d) :
    After (moveFile ctx id parentId now) d (fun _ => StateGrounded) ↔
      ¬Entangled ctx [id] parentId now d.store := by
  unfold moveFile Entangled
  rw [after_bind, after_query]
  cases gates : moveGates ctx id parentId d.store with
  | error e =>
    constructor
    · intro _ ⟨admitted, _⟩
      cases gates.symm.trans (moveGates_iff.2 admitted)
    · exact fun _ => grounded
  | ok _ =>
    have admitted := moveGates_iff.1 gates
    show After (statement (FileRepo.updateOne _ _ _)) d _ ↔ _
    rw [grounded_after_updateOne, grounded_after_move grounded fun p above =>
      let ⟨_, target⟩ := (admitted.2 p above).1
      (getFolder_known target).2]
    simp only [admitted, true_and, among_single]

/-! ### Walks -/

/-- The query for the ancestors of a row and the walk over the files below it come to an end. -/
def WalksEnd (s : Store) : Prop :=
  (∀ tenantId id, (AclRepo.chain s.files tenantId (s.files.length + 1) id).isSome) ∧
  ∀ before tenantId id path,
    (FileRepo.collectFilesRecursive before tenantId s (s.files.length + 1) id path).isSome

theorem chain_ends {s : Store} {tenantId : Uuid} {steps : Nat}
    (ends : climb (parentOf s.files) steps id = none) :
    (AclRepo.chain s.files tenantId steps id).isSome := by
  induction steps generalizing id with
  | zero => cases ends
  | succ steps ih =>
    unfold AclRepo.chain
    split
    · rfl
    · next f found =>
      split
      · rfl
      · next p above =>
        have held := List.find?_some found
        simp only [Bool.and_eq_true, decide_eq_true_eq] at held
        have row := (rowOf_eq_some_iff s.unique.1).mpr ⟨List.mem_of_find?_eq_some found, held.1⟩
        have known : parentOf s.files id = some p := by
          unfold parentOf
          rw [row]
          exact above
        rw [climb, known] at ends
        rw [Option.isSome_map]
        exact ih ends

theorem mapM_isSome {α β : Type} {f : α → Option β} {l : List α}
    (each : ∀ a ∈ l, (f a).isSome) : (l.mapM f).isSome := by
  induction l with
  | nil => rfl
  | cons a rest ih =>
    obtain ⟨b, done⟩ := Option.isSome_iff_exists.mp (each a (by simp))
    obtain ⟨bs, later⟩ := Option.isSome_iff_exists.mp
      (ih fun c member => each c (List.mem_cons_of_mem a member))
    rw [List.mapM_cons, done, later]
    rfl

theorem collect_ends {s : Store} {before : DriveFile → DriveFile → Bool} {tenantId : Uuid}
    {bound steps : Nat} (bounded : ∀ id, climb (parentOf s.files) bound id = none) (depth : Nat)
    (deep : (climb (parentOf s.files) depth id).isSome) (enough : depth + steps = bound)
    (path : Str) :
    (FileRepo.collectFilesRecursive before tenantId s steps id path).isSome := by
  induction steps generalizing id depth path with
  | zero =>
    rw [show depth = bound from enough, bounded id] at deep
    cases deep
  | succ steps ih =>
    unfold FileRepo.collectFilesRecursive
    rw [Option.isSome_map]
    apply mapM_isSome
    intro child member
    have held := List.mem_filter.mp (List.mem_mergeSort.mp member)
    simp only [Bool.and_eq_true, decide_eq_true_eq] at held
    have known : parentOf s.files child.id = some id := by
      unfold parentOf
      rw [(rowOf_eq_some_iff s.unique.1).mpr ⟨held.1, rfl⟩]
      exact held.2.2
    cases kind : child.kind with
    | file =>
      rfl
    | folder =>
      show (FileRepo.collectFilesRecursive before tenantId s steps child.id _).isSome
      apply ih (depth + 1)
      · rw [Nat.add_comm, climb_add, climb, known]
        exact deep
      · omega

theorem walksEnd {s : Store} (grounded : Grounded s) : WalksEnd s := by
  have bounded : ∀ id, climb (parentOf s.files) (s.files.length + 1) id = none := by
    intro id
    have listed : ∀ a b, parentOf s.files a = some b → a ∈ s.files.map (·.id) :=
      fun a b known => (parentOf_mem known).1
    have ends := Forest.climb_bounded grounded listed id
    rwa [List.length_map] at ends
  exact ⟨fun tenantId id => chain_ends (bounded id), fun before tenantId id path =>
    collect_ends bounded 0 rfl (Nat.zero_add _) path⟩

/-! ### Runs -/

/-- A move of a folder to itself or below. -/
def Entangles (d : State) : Operation → Prop
  | .moveFile ctx id parentId now => Entangled ctx [id] parentId now d.store
  | .bulkMove ctx ids parentId now =>
      checkIds ids = .ok () ∧ Entangled ctx ids parentId now d.store
  | _ => False

theorem grounded_served_iff (sha256 : Octets → Str) {d : State} (grounded : StateGrounded d)
    (op : Operation) : ¬Entangles d op ↔ StateGrounded (served sha256 d op) := by
  by_cases single : ∃ ctx id parentId now, op = .moveFile ctx id parentId now
  · obtain ⟨ctx, id, parentId, now, rfl⟩ := single
    calc ¬Entangled ctx [id] parentId now d.store
      _ ↔ After (moveFile ctx id parentId now) d fun _ => StateGrounded :=
        (grounded_after_moveFile grounded).symm
      _ ↔ StateGrounded (served sha256 d (.moveFile ctx id parentId now)) :=
        (after_discard _ _).symm
  · by_cases bulk : ∃ ctx ids parentId now, op = .bulkMove ctx ids parentId now
    · obtain ⟨ctx, ids, parentId, now, rfl⟩ := bulk
      calc ¬(checkIds ids = .ok () ∧ Entangled ctx ids parentId now d.store)
        _ ↔ After (bulkMove ctx ids parentId now) d fun _ => StateGrounded :=
          (grounded_after_bulkMove grounded).symm
        _ ↔ StateGrounded (served sha256 d (.bulkMove ctx ids parentId now)) :=
          (after_discard _ _).symm
    · have fixed : ∀ ctx id parentId now, op ≠ .moveFile ctx id parentId now :=
        fun ctx id parentId now same => single ⟨ctx, id, parentId, now, same⟩
      have still : ∀ ctx ids parentId now, op ≠ .bulkMove ctx ids parentId now :=
        fun ctx ids parentId now same => bulk ⟨ctx, ids, parentId, now, same⟩
      have clear : ¬Entangles d op := by
        cases op with
        | moveFile ctx id parentId now => exact absurd rfl (fixed ctx id parentId now)
        | bulkMove ctx ids parentId now => exact absurd rfl (still ctx ids parentId now)
        | _ => exact id
      exact ⟨fun _ => keeps_serve still fixed d grounded, fun _ => clear⟩

/-- The folders stay a forest, and the walks over them end, in a run as long as nothing in it is
moved to itself or below. -/
theorem folders_forest (sha256 : Octets → Str) (d : State) (grounded : Grounded d.store)
    (ops : List Operation) :
    EachStep (served sha256) (fun d op => ¬Entangles d op) d ops ↔
      Throughout (served sha256) (fun d => Grounded d.store ∧ WalksEnd d.store) d ops := by
  have initial : StateGrounded d := grounded
  have decides : EachStep (served sha256) (fun d op => ¬Entangles d op) d ops ↔
      Throughout (served sha256) StateGrounded d ops :=
    @eachStep_iff_throughout _ _ (served sha256) StateGrounded (fun d op => ¬Entangles d op)
      (fun d op holds => grounded_served_iff sha256 holds op) d initial ops
  rw [decides]
  constructor
  · exact Throughout.imp fun d holds => ⟨holds, walksEnd holds⟩
  · exact Throughout.imp fun d holds => holds.1

theorem grounded_empty : Grounded emptyState.store := fun _ => rooted_of_root rfl

/-- A folder with a folder in it, and the inner one is moved to the roots. -/
theorem folders_forest_move :
    EachStep (served noHash) (fun d op => ¬Entangles d op) emptyState
      [.mkdir ⟨1, 7⟩ ['a'] none ⟨10, 0, 0⟩, .mkdir ⟨1, 7⟩ ['b'] (some 10) ⟨11, 0, 1⟩,
        .moveFile ⟨1, 7⟩ 11 none 2] ∧
    Throughout (served noHash) (fun d => Grounded d.store ∧ WalksEnd d.store) emptyState
      [.mkdir ⟨1, 7⟩ ['a'] none ⟨10, 0, 0⟩, .mkdir ⟨1, 7⟩ ['b'] (some 10) ⟨11, 0, 1⟩,
        .moveFile ⟨1, 7⟩ 11 none 2] := by
  have clear : EachStep (served noHash) (fun d op => ¬Entangles d op) emptyState
      [.mkdir ⟨1, 7⟩ ['a'] none ⟨10, 0, 0⟩, .mkdir ⟨1, 7⟩ ['b'] (some 10) ⟨11, 0, 1⟩,
        .moveFile ⟨1, 7⟩ 11 none 2] :=
    ⟨id, id, fun entangled => (nomatch entangled.2.2.choose_spec.1), trivial⟩
  exact ⟨clear, (folders_forest noHash emptyState grounded_empty _).mp clear⟩

theorem not_grounded_of_cycle {s : Store} {a b : Uuid} (up : parentOf s.files a = some b)
    (back : parentOf s.files b = some a) : ¬Grounded s := by
  intro grounded
  apply (grounded a).not_below up
  exact Below.up back (.refl a)

/-- The outer folder is moved into the inner one. -/
theorem folder_moved_below :
    Grounded emptyState.store ∧
    ¬Throughout (served noHash) (fun d => Grounded d.store) emptyState
      [.mkdir ⟨1, 7⟩ ['a'] none ⟨10, 0, 0⟩, .mkdir ⟨1, 7⟩ ['b'] (some 10) ⟨11, 0, 1⟩,
        .moveFile ⟨1, 7⟩ 10 (some 11) 2] := by
  refine ⟨grounded_empty, fun holds => ?_⟩
  have cycle : ∀ d : State, d = [Operation.mkdir ⟨1, 7⟩ ['a'] none ⟨10, 0, 0⟩,
      .mkdir ⟨1, 7⟩ ['b'] (some 10) ⟨11, 0, 1⟩,
      .moveFile ⟨1, 7⟩ 10 (some 11) 2].foldl (served noHash) emptyState →
      parentOf d.store.files 10 = some 11 ∧ parentOf d.store.files 11 = some 10 := by
    rintro _ rfl
    decide
  exact not_grounded_of_cycle (cycle _ rfl).1 (cycle _ rfl).2 holds.2.2.2

end Expresso.Drive
