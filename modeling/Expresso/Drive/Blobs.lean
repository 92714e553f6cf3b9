import Expresso.Drive.Operations
import Expresso.Drive.Statements

/-! The blobs of the rows over runs of requests. Copies and restored versions share a blob; a
removal unlinks the blob of what it removes, shared or not. -/

namespace Expresso.Drive
open Text Transition

/-- Whether a row of a file or of a version holds a key. -/
def Held (t : Tables) (key : Uuid) : Prop :=
  (∃ f ∈ t.files, f.storageKey = some key) ∨ ∃ v ∈ t.versions, v.storageKey = key

/-- Every key that a row holds names a blob on the disk. -/
def Sound (d : State) : Prop :=
  ∀ key, Held d.store.toTables key → (d.disk ⟨key, false⟩).isSome

variable {d : State} {s s' : Store} {key : Uuid}

theorem Sound.of_held (sound : Sound d)
    (held : ∀ key, Held s.toTables key → Held d.store.toTables key) :
    Sound { d with store := s } :=
  fun key holds => sound key (held key holds)

/-! ### The keys after a statement -/

theorem held_insertRow {row : DriveFile} (done : FileRepo.insertRow row s = .ok s')
    (holds : Held s'.toTables key) : Held s.toTables key ∨ row.storageKey = some key := by
  rw [(insertRow_files done).1] at holds
  rcases holds with ⟨f, member, same⟩ | version
  · rcases List.mem_append.mp member with before | new
    · exact .inl (.inl ⟨f, before, same⟩)
    · exact .inr (List.mem_singleton.mp new ▸ same)
  · exact .inl (.inr version)

theorem held_update {selected : DriveFile → Bool} {change : DriveFile → DriveFile}
    {rows : List DriveFile} (done : FileRepo.update selected change s = .ok (s', rows))
    (holds : Held s'.toTables key) :
    Held s.toTables key ∨ ∃ f ∈ s.files, (change f).storageKey = some key := by
  rw [update_files done] at holds
  rcases holds with ⟨f, member, same⟩ | version
  · obtain ⟨g, before, rfl⟩ := List.mem_map.mp member
    split_ifs at same
    · exact .inr ⟨g, before, same⟩
    · exact .inl (.inl ⟨g, before, same⟩)
  · exact .inl (.inr version)

theorem held_version {v : FileVersion} (done : VersionRepo.insert v s = .ok s')
    (holds : Held s'.toTables key) : Held s.toTables key ∨ v.storageKey = key := by
  unfold VersionRepo.insert at done
  rw [commit_ok_iff.mp (mapError_ok.mp done)] at holds
  rcases holds with row | ⟨w, member, same⟩
  · exact .inl (.inl row)
  · rcases List.mem_append.mp member with before | new
    · exact .inl (.inr ⟨w, before, same⟩)
    · exact .inr (List.mem_singleton.mp new ▸ same)

theorem held_pruned {selected : DriveFile → Bool}
    (holds : Held (FileRepo.pruned selected s) key) : Held s.toTables key := by
  rcases holds with ⟨f, member, same⟩ | ⟨v, member, same⟩
  · exact .inl ⟨f, (List.mem_filter.mp member).1, same⟩
  · exact .inr ⟨v, (List.mem_filter.mp member).1, same⟩

theorem held_without {tenantId fileId : Uuid} {versionNo : Int}
    (holds : Held (VersionRepo.without tenantId fileId versionNo s) key) :
    Held s.toTables key := by
  rcases holds with row | ⟨v, member, same⟩
  · exact .inl row
  · exact .inr ⟨v, (List.mem_filter.mp member).1, same⟩

/-- A copy holds no key that its source does not hold. -/
theorem held_bulkCopyFiles {tenantId ownerId : Uuid} {newParentId : Option Uuid} {now : Int}
    {sources : List (Uuid × Uuid)} {rows : List DriveFile}
    (done : FileRepo.bulkCopyFiles tenantId ownerId newParentId now sources s = .ok (s', rows))
    (holds : Held s'.toTables key) : Held s.toTables key := by
  induction sources generalizing s rows with
  | nil =>
    cases done
    exact holds
  | cons source rest ih =>
    unfold FileRepo.bulkCopyFiles at done
    split at done
    · exact ih done
    · next src found =>
      obtain ⟨s₁, inserted, later⟩ := bind_eq_ok_iff.mp done
      obtain ⟨⟨s₂, rows₂⟩, copied, same⟩ := bind_eq_ok_iff.mp later
      cases same
      rcases held_insertRow inserted (ih copied) with before | own
      · exact before
      · exact .inl ⟨src, List.mem_of_find?_eq_some found, own⟩

/-! ### Blobs that are removed -/

theorem after_removeFiles {blobs : List Blob} {right : Except DriveError Unit → State → Prop} :
    After (removeFiles blobs) d right ↔
      right (.ok ()) { d with disk := fun blob => if blob ∈ blobs then none else d.disk blob } := by
  induction blobs generalizing d with
  | nil => simp [removeFiles]
  | cons blob rest ih =>
    unfold removeFiles
    rw [after_bind, after_removeFile]
    show After (removeFiles rest) _ right ↔ _
    rw [ih]
    have same : (fun other => if other ∈ rest then none
          else Function.update d.disk blob none other) =
        fun other => if other ∈ blob :: rest then none else d.disk other := by
      funext other
      by_cases own : other = blob
      · simp [own]
      · simp [own]
    rw [same]

theorem mem_blobsOf {keys : List (Option Uuid)} :
    (⟨key, false⟩ : Blob) ∈ blobsOf keys ↔ some key ∈ keys := by
  unfold blobsOf
  simp

/-- Blobs can go exactly when none of their keys is held any more. -/
theorem sound_removed_iff (keys : List (Option Uuid)) (sound : Sound d)
    (held : ∀ key, Held s.toTables key → Held d.store.toTables key) :
    Sound ⟨s, fun blob => if blob ∈ blobsOf keys then none else d.disk blob⟩ ↔
      ∀ key, some key ∈ keys → ¬Held s.toTables key := by
  constructor
  · intro after key listed holds
    have there : (if (⟨key, false⟩ : Blob) ∈ blobsOf keys then none else d.disk _).isSome :=
      after key holds
    rw [if_pos (mem_blobsOf.2 listed)] at there
    cases there
  · intro clear key holds
    show (if (⟨key, false⟩ : Blob) ∈ blobsOf keys then none else d.disk _).isSome
    rw [if_neg fun listed => clear key (mem_blobsOf.1 listed) holds]
    exact sound key (held key holds)

/-! ### Requests that remove nothing -/

variable {α : Type} {ctx : RequestCtx} {gen : Generated} {ids : List Uuid} {id : Uuid}
  {name : Str} {parentId : Option Uuid} {now v : Int}

theorem keeps_held {f : Store → Except DriveError (Store × α)}
    (held : ∀ s s' a, f s = .ok (s', a) → ∀ key, Held s'.toTables key → Held s.toTables key) :
    Keeps Sound (statement f) :=
  keeps_statement fun d s a sound done => sound.of_held (held d.store s a done)

theorem keeps_keys {selected : DriveFile → Bool} (change : DriveFile → DriveFile)
    (keepsKey : ∀ f, (change f).storageKey = f.storageKey) :
    Keeps Sound (statement (FileRepo.update selected change)) := by
  apply keeps_held
  intro s s' rows done key holds
  rcases held_update done holds with before | ⟨f, member, same⟩
  · exact before
  · exact .inl ⟨f, member, (keepsKey f).symm.trans same⟩

theorem keeps_keysOne {selected : DriveFile → Bool} (change : DriveFile → DriveFile)
    (keepsKey : ∀ f, (change f).storageKey = f.storageKey) :
    Keeps Sound (statement (FileRepo.updateOne id selected change)) := by
  apply keeps_held
  intro s s' row done key holds
  obtain ⟨rows, updated⟩ := updateOne_update done
  rcases held_update updated holds with before | ⟨f, member, same⟩
  · exact before
  · exact .inl ⟨f, member, (keepsKey f).symm.trans same⟩

theorem sound_mkdir : Keeps Sound (mkdir ctx name parentId gen) := by
  unfold mkdir
  apply (keeps_query _).bind
  intro fname
  apply keeps_held
  intro s s' row done key holds
  obtain ⟨after, inserted, same⟩ := map_eq_ok_iff.mp done
  cases same
  rcases held_insertRow inserted holds with before | own
  · exact before
  · cases own

theorem sound_copyFile {newName : Option Str} :
    Keeps Sound (copyFile ctx id newName parentId gen) := by
  unfold copyFile
  apply (keeps_query _).bind
  intro fname
  apply keeps_held
  intro s s' row done key holds
  unfold FileRepo.copyFile at done
  split at done
  · cases done
  · next src found =>
    obtain ⟨after, inserted, same⟩ := map_eq_ok_iff.mp done
    cases same
    rcases held_insertRow inserted holds with before | own
    · exact before
    · exact .inl ⟨src, List.mem_of_find?_eq_some found, own⟩

theorem sound_bulkCopy {newId : Nat → Uuid} : Keeps Sound (bulkCopy ctx ids parentId newId now) := by
  unfold bulkCopy
  apply (keeps_query _).bind
  intro _
  apply keeps_held
  intro s s' rows done key holds
  exact held_bulkCopyFiles done holds

theorem sound_bulkMove : Keeps Sound (bulkMove ctx ids parentId now) := by
  unfold bulkMove
  apply (keeps_query _).bind
  intro _
  exact keeps_keys (FileRepo.moved parentId now) fun _ => rfl

theorem sound_moveFile : Keeps Sound (moveFile ctx id parentId now) := by
  unfold moveFile
  apply (keeps_query _).bind
  intro _
  exact keeps_keysOne (FileRepo.moved parentId now) fun _ => rfl

theorem sound_bulkTrash : Keeps Sound (bulkTrash ctx ids now) := by
  unfold bulkTrash
  apply (keeps_query _).bind
  intro _
  exact (keeps_keys (FileRepo.trashed now) fun _ => rfl).bind fun _ => .pure _

theorem sound_bulkRestore : Keeps Sound (bulkRestore ctx ids now) := by
  unfold bulkRestore
  apply (keeps_query _).bind
  intro _
  exact (keeps_keys (FileRepo.restored now) fun _ => rfl).bind fun _ => .pure _

theorem sound_restore : Keeps Sound (restore ctx id now) :=
  keeps_keysOne (FileRepo.restored now) fun _ => rfl

/-! ### New content -/

/-- A version of a file holds a key that the file holds already. -/
theorem after_archive {existing : DriveFile} {createdBy : Uuid}
    (known : ∀ k, existing.storageKey = some k → Held d.store.toTables k) :
    After (archive ctx existing createdBy) d fun _ d' =>
      (∀ k, Held d'.store.toTables k ↔ Held d.store.toTables k) ∧ d'.disk = d.disk := by
  unfold archive
  split
  · exact ⟨fun _ => Iff.rfl, rfl⟩
  · next prevKey isKey =>
    rw [after_bind, after_query]
    show After (statement _) d _
    rw [after_statement]
    split
    · next s a done =>
      refine ⟨fun k => ?_, rfl⟩
      obtain ⟨s', inserted, same⟩ := map_eq_ok_iff.mp done
      cases same
      constructor
      · intro holds
        rcases held_version inserted holds with before | own
        · exact before
        · exact known k (isKey.trans (congrArg some own))
      · intro holds
        unfold VersionRepo.insert at inserted
        show Held s.toTables k
        rw [commit_ok_iff.mp (mapError_ok.mp inserted)]
        rcases holds with row | ⟨w, member, same⟩
        · exact .inl row
        · exact .inr ⟨w, List.mem_append_left _ member, same⟩
    · exact ⟨fun _ => Iff.rfl, rfl⟩

/-- An upload that is under way: its blob is there, and no row holds it yet. -/
structure Pending (key : Uuid) (d : State) : Prop where
  sound : Sound d
  fresh : ¬Held d.store.toTables key
  there : (d.disk ⟨key, false⟩).isSome

theorem Pending.congr {d' : State} (pending : Pending key d)
    (held : ∀ k, Held d'.store.toTables k ↔ Held d.store.toTables k) (disk : d'.disk = d.disk) :
    Pending key d' where
  sound k holds := disk ▸ pending.sound k ((held k).mp holds)
  fresh holds := pending.fresh ((held key).mp holds)
  there := disk ▸ pending.there

theorem Pending.removed (pending : Pending key d) :
    Sound { d with disk := Function.update d.disk ⟨key, false⟩ none } := by
  intro k holds
  have other : k ≠ key := fun same => pending.fresh (same ▸ holds)
  show (Function.update d.disk ⟨key, false⟩ none ⟨k, false⟩).isSome
  rw [Function.update_of_ne fun same => other (Blob.mk.inj same).1]
  exact pending.sound k holds

theorem pending_written (bytes : Octets) (sound : Sound d) (fresh : ¬Held d.store.toTables key) :
    Pending key { d with disk := Function.update d.disk ⟨key, false⟩ (some bytes) } where
  sound k holds := by
    have other : k ≠ key := fun same => fresh (same ▸ holds)
    show (Function.update d.disk ⟨key, false⟩ (some bytes) ⟨k, false⟩).isSome
    rw [Function.update_of_ne fun same => other (Blob.mk.inj same).1]
    exact sound k holds
  fresh := fresh
  there := by
    show (Function.update d.disk ⟨key, false⟩ (some bytes) ⟨key, false⟩).isSome
    rw [Function.update_self]
    rfl

/-- The last statement of an upload. -/
theorem Pending.statement {f : Store → Except DriveError (Store × α)}
    (adds : ∀ s s' a, f s = .ok (s', a) → ∀ k, Held s'.toTables k → Held s.toTables k ∨ k = key)
    (pending : Pending key d) :
    After (orRemove ⟨key, false⟩ (statement f)) d fun _ => Sound := by
  rw [after_orRemove, after_statement]
  split
  · next s a done =>
    intro k holds
    rcases adds d.store s a done k holds with before | rfl
    · exact pending.sound k before
    · exact pending.there
  · exact pending.removed

/-- The new content of a file is held after the swap, and nothing else that was not. -/
theorem held_updateContent {tenantId : Uuid} {content : FileRepo.Content} {row : DriveFile}
    (done : FileRepo.updateContent tenantId id content now s = .ok (s', row))
    (holds : Held s'.toTables key) : Held s.toTables key ∨ key = content.storageKey := by
  obtain ⟨rows, updated⟩ := updateOne_update done
  rcases held_update updated holds with before | ⟨f, _, same⟩
  · exact .inl before
  · exact .inr (Option.some.inj same).symm

theorem held_found {tenantId : Uuid} {fname : Str} {existing : DriveFile}
    (found : FileRepo.findByName tenantId parentId fname s = some existing)
    (known : existing.storageKey = some key) : Held s.toTables key :=
  .inl ⟨existing, List.mem_of_find?_eq_some found, known⟩

theorem sound_overwrite {existing : DriveFile} (content : FileRepo.Content)
    (known : ∀ k, existing.storageKey = some k → Held d.store.toTables k)
    (pending : Pending content.storageKey d) :
    After (do
      orRemove ⟨content.storageKey, false⟩ (query (requireWrite ctx existing.id))
      archive ctx existing existing.ownerUserId
      orRemove ⟨content.storageKey, false⟩
        (statement (FileRepo.updateContent ctx.tenantId existing.id content now))) d
      fun _ => Sound := by
  rw [after_bind, after_orRemove, after_query]
  cases requireWrite ctx existing.id d.store with
  | error e => exact pending.removed
  | ok _ =>
    show After (archive ctx existing existing.ownerUserId >>= _) d _
    rw [after_bind]
    apply (after_archive known).imp
    intro result d' ⟨held, disk⟩
    have pending' := pending.congr held disk
    cases result with
    | error e => exact pending'.sound
    | ok _ =>
      apply pending'.statement
      intro s s' row done k holds
      exact held_updateContent done holds

theorem sound_upload {sha256 : Octets → Str} {form : UploadForm} (sound : Sound d)
    (fresh : ¬Held d.store.toTables gen.key) :
    After (upload ctx sha256 form gen) d fun _ => Sound := by
  unfold upload
  split
  · exact sound
  · next bytes _ =>
    rw [after_bind, after_query]
    cases uploadGates ctx form bytes d.store with
    | error e => exact sound
    | ok fname =>
      show After (writeFile _ bytes >>= _) d _
      rw [after_bind, after_writeFile]
      show After (query _ >>= _) _ _
      rw [after_bind, after_query]
      have pending := pending_written bytes sound fresh
      cases found : FileRepo.findByName ctx.tenantId form.parentId fname d.store with
      | none =>
        apply pending.statement
        intro s s' row done k holds
        obtain ⟨after, inserted, same⟩ := map_eq_ok_iff.mp done
        cases same
        rcases held_insertRow inserted holds with before | own
        · exact .inl before
        · exact .inr (Option.some.inj own).symm
      | some existing =>
        show After (if existing.kind = .file then _ else _) _ _
        split_ifs
        · exact sound_overwrite ⟨gen.key, bytes.length, some (sha256 bytes), form.mime⟩
            (fun k known => held_found found known) pending
        · exact pending.removed

theorem restoreGates_held {current : DriveFile} {target : FileVersion}
    (passed : restoreGates ctx id v s = .ok (current, target)) :
    current ∈ s.files ∧ target ∈ s.versions := by
  obtain ⟨row, got, rest⟩ := bind_eq_ok_iff.mp passed
  obtain ⟨_, rest⟩ := check_bind_ok_iff.mp rest
  obtain ⟨version, found, same⟩ := bind_eq_ok_iff.mp rest
  cases same
  exact ⟨(get_ok got).1, List.mem_of_find?_eq_some (orThrow_ok_iff.mp found)⟩

theorem sound_restoreVersion : Keeps Sound (restoreVersion ctx id v now) := by
  intro d sound
  unfold restoreVersion
  rw [after_bind, after_query]
  cases gates : restoreGates ctx id v d.store with
  | error e => exact sound
  | ok gated =>
    obtain ⟨current, target⟩ := gated
    obtain ⟨row, version⟩ := restoreGates_held gates
    show After (archive ctx current ctx.userId >>= _) d _
    rw [after_bind]
    apply (after_archive fun k isKey => .inl ⟨current, row, isKey⟩).imp
    intro result d' ⟨held, disk⟩
    have sound' : Sound d' := fun k holds => disk ▸ sound k ((held k).mp holds)
    cases result with
    | error e => exact sound'
    | ok _ =>
      show After (statement _) d' _
      rw [after_statement]
      split
      · next s row done =>
        apply sound'.of_held
        intro k holds
        rcases held_updateContent done holds with before | own
        · exact before
        · exact (held k).mpr (.inr ⟨target, version, own.symm⟩)
      · exact sound'

/-! ### Removals -/

theorem sound_unlinked_iff (sound : Sound d)
    (held : ∀ k, Held s.toTables k → Held d.store.toTables k) :
    Sound ⟨s, Function.update d.disk ⟨key, false⟩ none⟩ ↔ ¬Held s.toTables key := by
  have one := sound_removed_iff [some key] sound held
  have disk : (fun blob => if blob ∈ blobsOf [some key] then none else d.disk blob) =
      Function.update d.disk ⟨key, false⟩ none := by
    funext blob
    by_cases own : blob = ⟨key, false⟩
    · rw [own, Function.update_self]
      exact if_pos (mem_blobsOf.mpr (by simp))
    · rw [Function.update_of_ne own]
      exact if_neg fun listed => own (by simpa [blobsOf] using listed)
  rw [disk] at one
  rw [one]
  constructor
  · exact fun clear => clear key (by simp)
  · intro clear k listed
    rw [List.mem_singleton, Option.some.injEq] at listed
    rwa [listed]

/-- A purge that would unlink the blob of a row that it leaves. -/
def SharesKey (selected : DriveFile → Bool) (s : Store) : Prop :=
  ∃ key, some key ∈ FileRepo.keysOf selected s ∧ Held (FileRepo.pruned selected s) key

theorem sound_purge_iff {selected : DriveFile → Bool} (sound : Sound d)
    (tables : s.toTables = FileRepo.pruned selected d.store) :
    After (removeFiles (blobsOf (FileRepo.keysOf selected d.store))) { d with store := s }
      (fun _ => Sound) ↔ ¬SharesKey selected d.store := by
  have held : ∀ k, Held s.toTables k → Held d.store.toTables k := by
    intro k holds
    rw [tables] at holds
    exact held_pruned holds
  rw [after_removeFiles]
  apply (sound_removed_iff _ sound held).trans
  unfold SharesKey
  rw [tables]
  simp only [not_exists, not_and]

theorem sound_purgeTrash_iff {olderThanDays : Option Int} (sound : Sound d) :
    After (purgeTrash ctx olderThanDays now) d (fun _ => Sound) ↔
      ¬SharesKey (FileRepo.trashedBefore ctx.tenantId (cutoff olderThanDays now)) d.store := by
  obtain ⟨s, tables, done⟩ :=
    FileRepo.purgeTrashedOlderThan_eq ctx.tenantId (cutoff olderThanDays now) d.store
  unfold purgeTrash
  rw [after_bind, after_statement, done]
  show After (removeFiles _ >>= _) _ _ ↔ _
  rw [after_discard]
  exact sound_purge_iff sound tables

theorem sound_purgeExpired_iff (sound : Sound d) :
    After (purgeExpired now) d (fun _ => Sound) ↔ ¬SharesKey (FileRepo.expired now) d.store := by
  obtain ⟨s, tables, done⟩ := FileRepo.purgeExpiredFiles_eq now d.store
  unfold purgeExpired
  rw [after_bind, after_statement, done]
  exact sound_purge_iff sound tables

theorem sound_deleteVersion_iff (sound : Sound d) :
    After (deleteVersion ctx id v) d (fun _ => Sound) ↔
      ∀ version, deleteVersionGates ctx id v d.store = .ok version →
        ¬Held (VersionRepo.without ctx.tenantId id v d.store) version.storageKey := by
  unfold deleteVersion
  rw [after_bind, after_query]
  cases gates : deleteVersionGates ctx id v d.store with
  | error e => exact ⟨fun _ version passed => (nomatch passed), fun _ => sound⟩
  | ok version =>
    obtain ⟨s, done, tables⟩ := VersionRepo.delete_ok ctx.tenantId id v d.store
    show After (statement _ >>= _) d _ ↔ _
    rw [after_bind, after_statement, done]
    show Sound ⟨s, Function.update d.disk ⟨version.storageKey, false⟩ none⟩ ↔ _
    have held : ∀ k, Held s.toTables k → Held d.store.toTables k := by
      intro k holds
      rw [tables] at holds
      exact held_without holds
    rw [sound_unlinked_iff sound held, tables]
    constructor
    · intro clear other same
      cases same
      exact clear
    · exact fun clear => clear version rfl

/-- Write access is given on live rows only. -/
theorem requireWrite_live (passed : requireWrite ctx id s = .ok ()) :
    ∃ f ∈ s.files, liveIn ctx.tenantId id f = true := by
  unfold requireWrite AclRepo.accessLevel FileRepo.find at passed
  cases found : s.files.find? (liveIn ctx.tenantId id) with
  | none =>
    rw [found] at passed
    cases passed
  | some f => exact ⟨f, List.mem_of_find?_eq_some found, List.find?_some found⟩

/-- A row that may be written is not in the trash, so that a permanent deletion finds nothing. -/
theorem keysOf_trashedIn (passed : requireWrite ctx id s = .ok ()) :
    FileRepo.keysOf (FileRepo.trashedIn ctx.tenantId id) s = [] := by
  obtain ⟨f, member, live⟩ := requireWrite_live passed
  unfold FileRepo.keysOf
  rw [List.map_eq_nil_iff, List.filter_eq_nil_iff]
  intro g inside trashed
  unfold liveIn at live
  unfold FileRepo.trashedIn FileRepo.among at trashed
  simp only [Bool.and_eq_true, decide_eq_true_eq, List.contains_cons, List.contains_nil,
    Bool.or_false, beq_iff_eq] at live trashed
  have same := List.inj_on_of_nodup_map s.unique.1 member inside
    (live.1.1.trans trashed.1.2.symm)
  rw [← same, live.2] at trashed
  exact absurd trashed.2 (by simp)

theorem sound_deleteFile {permanent : Bool} : Keeps Sound (deleteFile ctx id permanent now) := by
  intro d sound
  unfold deleteFile
  rw [after_bind, after_query]
  cases passed : requireWrite ctx id d.store with
  | error e => exact sound
  | ok _ =>
    show After (if permanent = true then _ else _) d _
    split_ifs
    · obtain ⟨s, tables, done⟩ := FileRepo.purge_eq ctx.tenantId id d.store
      rw [keysOf_trashedIn passed] at done
      rw [after_bind, after_statement, done]
      apply sound.of_held
      intro k holds
      rw [tables] at holds
      exact held_pruned holds
    · unfold FileRepo.softDelete
      apply (keeps_keys (FileRepo.trashed now) fun _ => rfl).bind _ d sound
      intro rows
      split_ifs
      · exact .throw _
      · exact .pure _

/-! ### Runs -/

/-- A request that unlinks the blob of a row that stays. -/
def Unlinks (d : State) : Operation → Prop
  | .deleteVersion ctx id v => ∃ version, deleteVersionGates ctx id v d.store = .ok version ∧
      Held (VersionRepo.without ctx.tenantId id v d.store) version.storageKey
  | .purgeTrash ctx olderThanDays now =>
      SharesKey (FileRepo.trashedBefore ctx.tenantId (cutoff olderThanDays now)) d.store
  | .purgeExpired now => SharesKey (FileRepo.expired now) d.store
  | _ => False

/-- The key that is generated for an upload is a new one. -/
def NewKey (d : State) : Operation → Prop
  | .upload _ _ gen => ¬Held d.store.toTables gen.key
  | _ => True

theorem sound_served_iff (sha256 : Octets → Str) (sound : Sound d) (op : Operation)
    (fresh : NewKey d op) : ¬Unlinks d op ↔ Sound (served sha256 d op) := by
  cases op with
  | mkdir ctx name parentId gen =>
    exact ⟨fun _ => (after_discard _ _).mpr (sound_mkdir d sound), fun _ => id⟩
  | upload ctx form gen =>
    exact ⟨fun _ => (after_discard _ _).mpr (sound_upload sound fresh), fun _ => id⟩
  | copyFile ctx id' name parentId gen =>
    exact ⟨fun _ => (after_discard _ _).mpr (sound_copyFile d sound), fun _ => id⟩
  | bulkCopy ctx ids parentId newId now =>
    exact ⟨fun _ => (after_discard _ _).mpr (sound_bulkCopy d sound), fun _ => id⟩
  | moveFile ctx id' parentId now =>
    exact ⟨fun _ => (after_discard _ _).mpr (sound_moveFile d sound), fun _ => id⟩
  | bulkMove ctx ids parentId now =>
    exact ⟨fun _ => (after_discard _ _).mpr (sound_bulkMove d sound), fun _ => id⟩
  | bulkTrash ctx ids now =>
    exact ⟨fun _ => (after_discard _ _).mpr (sound_bulkTrash d sound), fun _ => id⟩
  | bulkRestore ctx ids now =>
    exact ⟨fun _ => (after_discard _ _).mpr (sound_bulkRestore d sound), fun _ => id⟩
  | deleteFile ctx id' permanent now =>
    exact ⟨fun _ => sound_deleteFile d sound, fun _ => id⟩
  | restore ctx id' now =>
    exact ⟨fun _ => (after_discard _ _).mpr (sound_restore d sound), fun _ => id⟩
  | purgeTrash ctx olderThanDays now =>
    exact (sound_purgeTrash_iff sound).symm.trans (after_discard _ _).symm
  | restoreVersion ctx id' v now =>
    exact ⟨fun _ => (after_discard _ _).mpr (sound_restoreVersion d sound), fun _ => id⟩
  | deleteVersion ctx id' v =>
    apply Iff.trans _ (sound_deleteVersion_iff sound).symm
    unfold Unlinks
    simp only [not_exists, not_and]
  | purgeExpired now => exact (sound_purgeExpired_iff sound).symm

/-- Every key that a row holds keeps its blob in a run as long as nothing unlinks the blob of a
row that stays. -/
theorem blobs_kept (sha256 : Octets → Str) (d : State) (sound : Sound d) (ops : List Operation)
    (fresh : EachStep (served sha256) NewKey d ops) :
    EachStep (served sha256) (fun d op => ¬Unlinks d op) d ops ↔
      Throughout (served sha256) Sound d ops :=
  @eachStep_iff_throughout_of _ _ (served sha256) Sound NewKey (fun d op => ¬Unlinks d op)
    (fun _ op holds new => sound_served_iff sha256 holds op new) d sound ops fresh

theorem sound_empty : Sound emptyState := by
  rintro key (⟨f, member, _⟩ | ⟨v, member, _⟩) <;> cases member

/-- A file, its copy, and the file in the trash. -/
theorem blobs_kept_copy :
    EachStep (served noHash) NewKey emptyState
      [.upload ⟨1, 7⟩ ⟨none, some ['a'], none, some [1], true⟩ ⟨10, 100, 0⟩,
        .copyFile ⟨1, 7⟩ 10 (some ['b']) none ⟨11, 0, 1⟩, .deleteFile ⟨1, 7⟩ 10 false 2] ∧
    Throughout (served noHash) Sound emptyState
      [.upload ⟨1, 7⟩ ⟨none, some ['a'], none, some [1], true⟩ ⟨10, 100, 0⟩,
        .copyFile ⟨1, 7⟩ 10 (some ['b']) none ⟨11, 0, 1⟩, .deleteFile ⟨1, 7⟩ 10 false 2] := by
  have fresh : EachStep (served noHash) NewKey emptyState
      [.upload ⟨1, 7⟩ ⟨none, some ['a'], none, some [1], true⟩ ⟨10, 100, 0⟩,
        .copyFile ⟨1, 7⟩ 10 (some ['b']) none ⟨11, 0, 1⟩, .deleteFile ⟨1, 7⟩ 10 false 2] := by
    refine ⟨?_, trivial, trivial, trivial⟩
    rintro (⟨f, member, _⟩ | ⟨v, member, _⟩) <;> cases member
  exact ⟨fresh, (blobs_kept noHash emptyState sound_empty _ fresh).mp ⟨id, id, id, trivial⟩⟩

/-- The file is purged from the trash, and its copy loses the blob. -/
theorem copy_loses_blob :
    Sound emptyState ∧ ¬Throughout (served noHash) Sound emptyState
      [.upload ⟨1, 7⟩ ⟨none, some ['a'], none, some [1], true⟩ ⟨10, 100, 0⟩,
        .copyFile ⟨1, 7⟩ 10 (some ['b']) none ⟨11, 0, 1⟩, .deleteFile ⟨1, 7⟩ 10 false 2,
        .purgeTrash ⟨1, 7⟩ none (40 * day)] := by
  refine ⟨sound_empty, fun holds => ?_⟩
  have lost : ∀ d : State, d = [Operation.upload ⟨1, 7⟩ ⟨none, some ['a'], none, some [1], true⟩
        ⟨10, 100, 0⟩, .copyFile ⟨1, 7⟩ 10 (some ['b']) none ⟨11, 0, 1⟩,
      .deleteFile ⟨1, 7⟩ 10 false 2, .purgeTrash ⟨1, 7⟩ none (40 * day)].foldl
        (served noHash) emptyState →
      d.store.files.map (·.storageKey) = [some 100] ∧ d.disk ⟨100, false⟩ = none := by
    rintro _ rfl
    decide
  have unsound : ∀ d : State, d.store.files.map (·.storageKey) = [some 100] →
      d.disk ⟨100, false⟩ = none → ¬Sound d := by
    intro d keys gone sound
    have member : some 100 ∈ d.store.files.map (·.storageKey) := by
      rw [keys]
      exact List.mem_singleton.mpr rfl
    obtain ⟨f, inside, same⟩ := List.mem_map.mp member
    have there := sound 100 (.inl ⟨f, inside, same⟩)
    rw [gone] at there
    cases there
  exact unsound _ (lost _ rfl).1 (lost _ rfl).2 holds.2.2.2.2

end Expresso.Drive
