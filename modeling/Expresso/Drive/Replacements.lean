import Expresso.Drive.Uploads
import Expresso.Drive.Operations
import Expresso.Drive.Statements

/-! Replacements of the content of files, statement by statement: each is a transaction of its
own, and those of several requests come in any order. The quota and the lock are looked up before
the row, and can only refuse a request. -/

namespace Expresso.Drive
open Text Transition

/-- A request with the content that it brings. The blob is written before the row is read. -/
inductive Replacement where
  | upload (ctx : RequestCtx) (parentId : Option Uuid) (name : Str) (content : FileRepo.Content)
      (newId : Uuid)
  | put (ctx : RequestCtx) (id : Uuid) (content : FileRepo.Content)
  | finalize (ctx : RequestCtx) (up : UploadSession) (sha256 : Str) (newId : Uuid)
  | restore (ctx : RequestCtx) (id : Uuid) (v : Int)

namespace Replacement

def ctx : Replacement → RequestCtx
  | upload ctx _ _ _ _ => ctx
  | put ctx _ _ => ctx
  | finalize ctx _ _ _ => ctx
  | restore ctx _ _ => ctx

/-- The live row that gets the content. -/
def find (s : Store) : Replacement → Except DriveError (Option DriveFile)
  | upload ctx parentId name _ _ => .ok (FileRepo.findByName ctx.tenantId parentId name s)
  | put ctx id _ => (FileRepo.get ctx.tenantId id s).map some
  | finalize ctx up _ _ => .ok (FileRepo.findByName ctx.tenantId up.parentId up.name s)
  | restore ctx id _ => (FileRepo.get ctx.tenantId id s).map some

/-- The gate on that row. -/
def check (existing : DriveFile) (s : Store) : Replacement → Except DriveError Unit
  | upload ctx _ _ _ _ =>
      if existing.kind = .file then requireWrite ctx existing.id s
      else .error (.conflict "a folder with this name already exists".toList)
  | put _ _ _ =>
      if existing.kind = .file then .ok () else .error (.badRequest "not a file".toList)
  | finalize _ _ _ _ =>
      if existing.kind = .file then .ok ()
      else .error (.conflict "folder name collision".toList)
  | restore ctx id _ => requireWrite ctx id s

/-- The new content, which a restored version lends to the row. -/
def choose (existing : DriveFile) (s : Store) : Replacement → Except DriveError FileRepo.Content
  | upload _ _ _ content _ => .ok content
  | put _ _ content => .ok { content with mimeType := content.mimeType <|> existing.mimeType }
  | finalize _ up sha256 _ => .ok ⟨up.storageKey, up.totalSize, some sha256, up.mimeType⟩
  | restore ctx id v => (getVersion ctx id v s).map fun target =>
      ⟨target.storageKey, target.sizeBytes, target.sha256, target.mimeType⟩

/-- The file that is made where there is none of the name. -/
def newFile : Replacement → Option (FileRepo.NewFile × Uuid)
  | upload ctx parentId name content newId =>
      some (⟨ctx.tenantId, ctx.userId, parentId, name, .file, content.mimeType, content.sizeBytes,
        content.sha256, some content.storageKey⟩, newId)
  | finalize ctx up sha256 newId =>
      some (⟨ctx.tenantId, ctx.userId, up.parentId, up.name, .file, up.mimeType, up.totalSize,
        some sha256, some up.storageKey⟩, newId)
  | _ => none

/-- Who made the version of the content that goes. -/
def createdBy (existing : DriveFile) : Replacement → Uuid
  | restore ctx _ _ => ctx.userId
  | _ => existing.ownerUserId

/-- Where a request stands: what it does next, and what it has read. -/
inductive Stage where
  | finding
  | checking (existing : DriveFile)
  | choosing (existing : DriveFile)
  | numbering (existing : DriveFile) (content : FileRepo.Content)
  | archiving (existing : DriveFile) (content : FileRepo.Content) (versionNo : Int)
  | swapping (existing : DriveFile) (content : FileRepo.Content)
  | inserting
  | closing
  | answered (success : Bool)
  deriving DecidableEq

def finished : Replacement → Stage
  | finalize _ _ _ _ => .closing
  | _ => .answered true

/-- A statement that is refused ends the request. -/
def orFail {α : Type} (s : Store) (result : Except DriveError (Store × α)) (next : Stage) :
    Store × Stage :=
  match result with
  | .ok (s', _) => (s', next)
  | .error _ => (s, .answered false)

def orStop {α : Type} (result : Except DriveError α) (next : α → Stage) : Stage :=
  match result with
  | .ok a => next a
  | .error _ => .answered false

/-- One statement of a request. -/
def step (r : Replacement) (now : Int) (stage : Stage) (s : Store) : Store × Stage :=
  match stage with
  | .finding => (s, orStop (r.find s) fun row => match row with
      | some existing => .checking existing
      | none => .inserting)
  | .checking existing => (s, orStop (r.check existing s) fun _ => .choosing existing)
  | .choosing existing => (s, orStop (r.choose existing s) fun content =>
      if existing.storageKey.isSome then .numbering existing content
      else .swapping existing content)
  | .numbering existing content =>
      (s, .archiving existing content (VersionRepo.nextNo r.ctx.tenantId existing.id s))
  | .archiving existing content versionNo => match existing.storageKey with
      | none => (s, .swapping existing content)
      | some prevKey => orFail s ((VersionRepo.insert ⟨existing.id, r.ctx.tenantId, versionNo,
          prevKey, existing.sizeBytes, existing.sha256, existing.mimeType,
          r.createdBy existing⟩ s).map (·, ())) (.swapping existing content)
  | .swapping existing content =>
      orFail s (FileRepo.updateContent r.ctx.tenantId existing.id content now s) r.finished
  | .inserting => match r.newFile with
      | none => (s, .answered false)
      | some (f, newId) => orFail s (FileRepo.insert f newId now s) r.finished
  | .closing => match r with
      | finalize ctx up _ _ =>
          orFail s (UploadRepo.delete ctx.tenantId up.id s) (.answered true)
      | _ => (s, .answered true)
  | .answered success => (s, .answered success)

end Replacement

open Replacement

/-- The tables, and where every request stands. -/
structure World (ι : Type) where
  store : Store
  stage : ι → Stage

variable {ι : Type} [DecidableEq ι]

/-- One request makes its next statement, at some time. -/
def World.step (requests : ι → Replacement) (w : World ι) (turn : ι × Int) : World ι :=
  let after := (requests turn.1).step turn.2 (w.stage turn.1) w.store
  ⟨after.1, Function.update w.stage turn.1 after.2⟩

/-! ### Keys of a file -/

def Live (s : Store) (fileId key : Uuid) : Prop :=
  ∃ f ∈ s.files, f.id = fileId ∧ f.storageKey = some key

def Recorded (s : Store) (fileId key : Uuid) : Prop :=
  ∃ v ∈ s.versions, v.fileId = fileId ∧ v.storageKey = key

instance (s : Store) (fileId key : Uuid) : Decidable (Live s fileId key) :=
  inferInstanceAs (Decidable (∃ f ∈ s.files, _))

instance (s : Store) (fileId key : Uuid) : Decidable (Recorded s fileId key) :=
  inferInstanceAs (Decidable (∃ v ∈ s.versions, _))

/-- No key that was live is lost. -/
def KeepsKeys (s s' : Store) : Prop :=
  ∀ fileId key, Live s fileId key → Live s' fileId key ∨ Recorded s' fileId key

/-- The request is about to swap a live content that it has not read, and that is neither recorded
nor its own. -/
def Overtaken (requests : ι → Replacement) (w : World ι) (turn : ι × Int) : Prop :=
  ∃ existing content, w.stage turn.1 = .swapping existing content ∧
    ∃ f ∈ w.store.files, liveIn (requests turn.1).ctx.tenantId existing.id f = true ∧
      ∃ key, f.storageKey = some key ∧ existing.storageKey ≠ some key ∧
        content.storageKey ≠ key ∧ ¬Recorded w.store existing.id key

variable {requests : ι → Replacement} {w : World ι} {turn : ι × Int} {s s' : Store}
  {fileId key : Uuid}

/-! ### One statement -/

/-- Rows of files and of versions are added. -/
structure Grows (s s' : Store) : Prop where
  files : ∀ f ∈ s.files, f ∈ s'.files
  versions : ∀ v ∈ s.versions, v ∈ s'.versions

theorem Grows.refl (s : Store) : Grows s s := ⟨fun _ => id, fun _ => id⟩

theorem Grows.keepsKeys (grows : Grows s s') : KeepsKeys s s' :=
  fun _ _ ⟨f, member, live⟩ => .inl ⟨f, grows.files f member, live⟩

theorem Recorded.grows (versions : ∀ v ∈ s.versions, v ∈ s'.versions)
    (recorded : Recorded s fileId key) : Recorded s' fileId key :=
  let ⟨v, member, same⟩ := recorded
  ⟨v, versions v member, same⟩

theorem insert_version {v : FileVersion} (done : VersionRepo.insert v s = .ok s') :
    s'.files = s.files ∧ s'.versions = s.versions ++ [v] := by
  unfold VersionRepo.insert at done
  have tables := commit_ok_iff.mp (mapError_ok.mp done)
  have files := congrArg Tables.files tables
  have versions := congrArg Tables.versions tables
  exact ⟨files, versions⟩

theorem insert_recorded {v : FileVersion} (done : VersionRepo.insert v s = .ok s') :
    Recorded s' v.fileId v.storageKey := by
  refine ⟨v, ?_, rfl, rfl⟩
  rw [(insert_version done).2]
  exact List.mem_append_right _ (List.mem_singleton.mpr rfl)

/-- The rows after a swap. -/
theorem updateContent_tables {tenantId id : Uuid} {content : FileRepo.Content} {now : Int}
    {row : DriveFile} (done : FileRepo.updateContent tenantId id content now s = .ok (s', row)) :
    (s'.files = s.files.map fun f =>
      if liveIn tenantId id f then FileRepo.withContent content now f else f) ∧
      s'.versions = s.versions := by
  obtain ⟨rows, updated⟩ := updateOne_update done
  have tables := update_files updated
  have files := congrArg Tables.files tables
  have versions := congrArg Tables.versions tables
  exact ⟨files, versions⟩

/-- A request that does not swap only adds rows. -/
theorem step_grows {r : Replacement} {now : Int} {stage : Stage}
    (noSwap : ∀ existing content, stage ≠ .swapping existing content) :
    Grows s (r.step now stage s).1 := by
  cases stage with
  | archiving existing content versionNo =>
    show Grows s (match existing.storageKey with
      | none => _
      | some prevKey => _ : Store × Stage).1
    cases existing.storageKey with
    | none => exact .refl s
    | some prevKey =>
      show Grows s (orFail s ((VersionRepo.insert _ s).map (·, ())) _).1
      unfold orFail
      split
      · next s' _ done =>
        obtain ⟨after, inserted, same⟩ := map_eq_ok_iff.mp done
        cases same
        obtain ⟨files, versions⟩ := insert_version inserted
        exact ⟨fun f member => files ▸ member, fun v member =>
          versions ▸ List.mem_append_left _ member⟩
      · exact .refl s
  | swapping existing content => exact absurd rfl (noSwap existing content)
  | inserting =>
    show Grows s (match r.newFile with
      | none => _
      | some (f, newId) => _ : Store × Stage).1
    cases r.newFile with
    | none => exact .refl s
    | some new =>
      show Grows s (orFail s (FileRepo.insert new.1 new.2 now s) _).1
      unfold orFail
      split
      · next s' _ done =>
        obtain ⟨after, inserted, same⟩ := map_eq_ok_iff.mp done
        cases same
        have tables := (insertRow_files inserted).1
        have files := congrArg Tables.files tables
        have versions := congrArg Tables.versions tables
        exact ⟨fun f member => files ▸ List.mem_append_left _ member, fun v member =>
          versions ▸ member⟩
      · exact .refl s
  | closing =>
    cases r with
    | finalize ctx up sha256 newId =>
      show Grows s (orFail s (UploadRepo.delete ctx.tenantId up.id s) _).1
      unfold orFail
      split
      · next s' _ done =>
        obtain ⟨after, committed, same⟩ := map_eq_ok_iff.mp done
        cases same
        have tables := commit_ok_iff.mp (mapError_ok.mp committed)
        have files := congrArg Tables.files tables
        have versions := congrArg Tables.versions tables
        exact ⟨fun f member => files ▸ member, fun v member => versions ▸ member⟩
      · exact .refl s
    | _ => exact .refl s
  | _ => exact .refl s

/-- A request that is about to swap has recorded what it read. -/
def Archived (w : World ι) : Prop :=
  ∀ i existing content key, w.stage i = .swapping existing content →
    existing.storageKey = some key → Recorded w.store existing.id key

theorem step_versions {r : Replacement} {now : Int} {stage : Stage} :
    ∀ v ∈ s.versions, v ∈ (r.step now stage s).1.versions := by
  by_cases swaps : ∃ existing content, stage = .swapping existing content
  · obtain ⟨existing, content, rfl⟩ := swaps
    intro v member
    show v ∈ (orFail s (FileRepo.updateContent r.ctx.tenantId existing.id content now s) _).1.versions
    unfold orFail
    split
    · next s' row done => exact (updateContent_tables done).2 ▸ member
    · exact member
  · exact (step_grows fun existing content same => swaps ⟨existing, content, same⟩).versions

theorem orStop_eq {α : Type} {result : Except DriveError α} {next : α → Stage} {stage : Stage}
    (stops : orStop result next = stage) (going : stage ≠ .answered false) :
    ∃ a, result = .ok a ∧ next a = stage := by
  cases result with
  | ok a => exact ⟨a, rfl, stops⟩
  | error e => exact absurd stops.symm going

/-- A request comes to its swap with a row that has no key, or by recording the key. -/
theorem step_swapping {r : Replacement} {now : Int} {stage : Stage} {existing : DriveFile}
    {content : FileRepo.Content} (comes : (r.step now stage s).2 = .swapping existing content)
    (known : existing.storageKey = some key) :
    Recorded (r.step now stage s).1 existing.id key := by
  cases stage with
  | finding =>
    obtain ⟨row, _, next⟩ := orStop_eq comes nofun
    cases row <;> cases next
  | checking row =>
    obtain ⟨_, _, next⟩ := orStop_eq comes nofun
    cases next
  | choosing row =>
    obtain ⟨chosen, _, next⟩ := orStop_eq comes nofun
    split_ifs at next with holds
    cases next
    rw [known] at holds
    exact absurd rfl holds
  | numbering row chosen => cases comes
  | archiving row chosen versionNo =>
    revert comes
    show (match row.storageKey with
      | none => _
      | some prevKey => _ : Store × Stage).2 = _ → Recorded (match row.storageKey with
      | none => _
      | some prevKey => _ : Store × Stage).1 _ _
    cases read : row.storageKey with
    | none =>
      intro comes
      cases comes
      cases read.symm.trans known
    | some prevKey =>
      show (orFail s ((VersionRepo.insert _ s).map (·, ())) _).2 = _ →
        Recorded (orFail s ((VersionRepo.insert _ s).map (·, ())) _).1 _ _
      unfold orFail
      split
      · next s' _ done =>
        intro comes
        obtain ⟨after, inserted, same⟩ := map_eq_ok_iff.mp done
        cases same
        cases comes
        cases read.symm.trans known
        exact insert_recorded inserted
      · exact fun comes => nomatch comes
  | swapping row chosen =>
    have comes : (orFail s (FileRepo.updateContent _ _ _ _ s) r.finished).2 = _ := comes
    unfold orFail at comes
    split at comes
    · cases r <;> cases comes
    · cases comes
  | inserting =>
    have comes : (match r.newFile with
      | none => (s, .answered false)
      | some (f, newId) => orFail s (FileRepo.insert f newId now s) r.finished
        : Store × Stage).2 = _ := comes
    cases made : r.newFile with
    | none =>
      rw [made] at comes
      cases comes
    | some new =>
      rw [made] at comes
      have comes : (orFail s (FileRepo.insert new.1 new.2 now s) r.finished).2 = _ := comes
      unfold orFail at comes
      split at comes
      · cases r <;> cases comes
      · cases comes
  | closing =>
    cases r with
    | finalize ctx up sha256 newId =>
      have comes : (orFail s (UploadRepo.delete ctx.tenantId up.id s) (.answered true)).2 = _ :=
        comes
      unfold orFail at comes
      split at comes <;> cases comes
    | _ => cases comes
  | answered success => cases comes

theorem World.step_own : (w.step requests turn).stage turn.1 =
    ((requests turn.1).step turn.2 (w.stage turn.1) w.store).2 :=
  Function.update_self _ _ _

theorem World.step_other {i : ι} (other : i ≠ turn.1) :
    (w.step requests turn).stage i = w.stage i :=
  Function.update_of_ne other _ _

theorem archived_step (archived : Archived w) : Archived (w.step requests turn) := by
  intro i existing content key swaps known
  by_cases own : i = turn.1
  · subst own
    have comes : ((requests turn.1).step turn.2 (w.stage turn.1) w.store).2 =
        .swapping existing content := by
      rw [← swaps]
      exact World.step_own.symm
    exact step_swapping comes known
  · have before : w.stage i = .swapping existing content := by
      rw [← swaps]
      exact (World.step_other own).symm
    exact (archived i existing content key before known).grows step_versions

/-- A step keeps the live keys exactly when it does not swap one that nobody has recorded. -/
theorem step_keeps_iff (archived : Archived w) :
    ¬Overtaken requests w turn ↔ KeepsKeys w.store (w.step requests turn).store := by
  by_cases swaps : ∃ existing content, w.stage turn.1 = .swapping existing content
  · obtain ⟨existing, content, stage⟩ := swaps
    have after : (w.step requests turn).store = (orFail w.store (FileRepo.updateContent
        (requests turn.1).ctx.tenantId existing.id content turn.2 w.store)
          (requests turn.1).finished).1 := by
      show ((requests turn.1).step turn.2 (w.stage turn.1) w.store).1 = _
      rw [stage]
      rfl
    rw [after]
    constructor
    · intro current fileId key ⟨f, member, isFile, live⟩
      unfold orFail
      split
      · next s' row done =>
        obtain ⟨files, versions⟩ := updateContent_tables done
        by_cases hit : liveIn (requests turn.1).ctx.tenantId existing.id f = true
        · have isExisting : fileId = existing.id := by
            have held := hit
            simp only [liveIn, Bool.and_eq_true, decide_eq_true_eq] at held
            exact isFile.symm.trans held.1.1
          by_cases same : content.storageKey = key
          · refine .inl ⟨FileRepo.withContent content turn.2 f, ?_, isFile, congrArg some same⟩
            rw [files]
            exact List.mem_map.mpr ⟨f, member, if_pos hit⟩
          · refine .inr (Recorded.grows (fun v inside => versions ▸ inside) ?_)
            rw [isExisting]
            by_contra unrecorded
            have read : existing.storageKey ≠ some key := fun known =>
              unrecorded (archived turn.1 existing content key stage known)
            exact current ⟨existing, content, stage, f, member, hit, key, live, read, same,
              unrecorded⟩
        · refine .inl ⟨f, ?_, isFile, live⟩
          rw [files]
          exact List.mem_map.mpr ⟨f, member, if_neg hit⟩
      · exact .inl ⟨f, member, isFile, live⟩
    · intro keeps ⟨row, chosen, same, f, member, hit, key, live, _, other, unrecorded⟩
      cases stage.symm.trans same
      obtain ⟨s', row, done⟩ := updateContent_ok content turn.2 member hit
      rw [done] at keeps
      obtain ⟨files, versions⟩ := updateContent_tables done
      have isFile : f.id = existing.id := by
        have held := hit
        simp only [liveIn, Bool.and_eq_true, decide_eq_true_eq] at held
        exact held.1.1
      rcases keeps existing.id key ⟨f, member, isFile, live⟩ with ⟨g, inside, isG, still⟩ | recorded
      · rw [show (orFail w.store (.ok (s', row)) _ : Store × Stage).1 = s' from rfl, files] at inside
        obtain ⟨before, known, rfl⟩ := List.mem_map.mp inside
        have keepsId : (if liveIn (requests turn.1).ctx.tenantId existing.id before = true then
            FileRepo.withContent content turn.2 before else before).id = before.id := by
          split <;> rfl
        have one : before = f := List.inj_on_of_nodup_map w.store.unique.1 known member
          ((keepsId.symm.trans isG).trans isFile.symm)
        rw [one, if_pos hit] at still
        exact other (Option.some.inj still)
      · exact unrecorded (Recorded.grows (fun v inside => versions ▸ inside) recorded)
  · have noSwap : ∀ existing content, w.stage turn.1 ≠ .swapping existing content :=
      fun existing content same => swaps ⟨existing, content, same⟩
    constructor
    · exact fun _ => (step_grows noSwap).keepsKeys
    · exact fun _ ⟨existing, content, same, _⟩ => noSwap existing content same

/-! ### Runs -/

/-- No key is lost that was live or recorded. -/
def KeepsAll (s s' : Store) : Prop :=
  ∀ fileId key, Live s fileId key ∨ Recorded s fileId key →
    Live s' fileId key ∨ Recorded s' fileId key

theorem keepsAll_iff (versions : ∀ v ∈ s.versions, v ∈ s'.versions) :
    KeepsAll s s' ↔ KeepsKeys s s' := by
  constructor
  · exact fun keeps fileId key live => keeps fileId key (.inl live)
  · intro keeps fileId key known
    rcases known with live | recorded
    · exact keeps fileId key live
    · exact .inr (recorded.grows versions)

theorem run_versions (turns : List (ι × Int)) :
    ∀ v ∈ w.store.versions, v ∈ (turns.foldl (World.step requests) w).store.versions := by
  induction turns generalizing w with
  | nil => exact fun v => id
  | cons turn rest ih => exact fun v member => ih v (step_versions v member)

/-- In an interleaving of replacements every key that was ever live stays live or recorded,
exactly if no request swaps a content that it has not read and that nobody has recorded. -/
theorem versions_kept (requests : ι → Replacement) (w : World ι) (archived : Archived w)
    (turns : List (ι × Int)) :
    EachStep (World.step requests) (fun w turn => ¬Overtaken requests w turn) w turns ↔
      ∀ before during after, turns = before ++ during ++ after →
        KeepsKeys (before.foldl (World.step requests) w).store
          ((before ++ during).foldl (World.step requests) w).store := by
  have steps : EachStep (World.step requests) (fun w turn => ¬Overtaken requests w turn) w turns ↔
      EachStep (World.step requests)
        (fun w turn => KeepsAll w.store (w.step requests turn).store) w turns := by
    induction turns generalizing w with
    | nil => exact Iff.rfl
    | cons turn rest ih =>
      apply and_congr _ (ih (w.step requests turn) (archived_step archived))
      exact (step_keeps_iff archived).trans (keepsAll_iff step_versions).symm
  have between := @eachStep_iff_between _ _ (World.step requests)
    (fun w w' : World ι => KeepsAll w.store w'.store) (fun w fileId key => id)
    (fun u v x first second fileId key known => second fileId key (first fileId key known)) w turns
  rw [steps, between]
  apply forall_congr'
  intro before
  apply forall_congr'
  intro during
  apply forall_congr'
  intro after
  apply imp_congr_right
  intro _
  rw [List.foldl_append]
  exact keepsAll_iff (run_versions during)

/-! ### Two savings at once -/

/-- A file with a content, and two requests that are about to start. -/
def twoSaves : World Bool where
  store := ⟨{ emptyTables with
    files := [⟨10, 1, 7, none, ['a'], .file, none, 1, none, some 100, 0, none, none⟩] },
    by decide, by decide⟩
  stage := fun _ => .finding

def saves (first : Bool) : Replacement :=
  .put ⟨1, 7⟩ 10 ⟨if first then 101 else 102, 1, none, none⟩

theorem archived_twoSaves : Archived twoSaves := fun _ _ _ _ swaps => nomatch swaps

/-- Both have read the row. -/
theorem versions_kept_reading : Archived twoSaves ∧
    ∀ before during after, [(true, 0), (false, 0)] = before ++ during ++ after →
      KeepsKeys (before.foldl (World.step saves) twoSaves).store
        ((before ++ during).foldl (World.step saves) twoSaves).store :=
  ⟨archived_twoSaves, (versions_kept saves twoSaves archived_twoSaves [(true, 0), (false, 0)]).mp
    ⟨fun ⟨_, _, swaps, _⟩ => (nomatch swaps), fun ⟨_, _, swaps, _⟩ => (nomatch swaps), trivial⟩⟩

/-- Both record the old content, and the second one to swap drops that of the first. -/
theorem second_save_drops_first :
    let turns : List (Bool × Int) := [(true, 0), (false, 0), (true, 0), (false, 0), (true, 0),
      (false, 0), (true, 0), (true, 0), (false, 0), (false, 0), (true, 0)]
    let before := turns.foldl (World.step saves) twoSaves
    let after := before.step saves (false, 0)
    before.stage true = .answered true ∧ after.stage false = .answered true ∧
      Live before.store 10 101 ∧ ¬Live after.store 10 101 ∧ ¬Recorded after.store 10 101 := by
  decide

end Expresso.Drive
