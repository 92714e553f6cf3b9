import Expresso.Drive.Wopi
import Expresso.Drive.Operations
import Expresso.Drive.Statements

/-! Lock exclusion: what happens to an unexpired lock in a run of requests, and to the content
under it. -/

namespace Expresso.Drive
open Text Transition Wopi

/-- A request of an office client: a lock request, or new content. -/
structure WopiCall where
  claims : Option RequestCtx
  id : Uuid
  headers : Wopi.Headers
  body : Option Octets
  gen : Generated

def WopiCall.serve (sha256 : Octets → Str) (call : WopiCall) : Handler (Option PutResponse) :=
  match call.body with
  | none => do
      let _ ← wopiPost call.claims call.id call.headers call.gen.now
      pure none
  | some body => do
      let response ← putFile sha256 call.claims call.id call.headers body call.gen
      pure (some response)

def wopiServed (sha256 : Octets → Str) (d : State) (call : WopiCall) : State :=
  ((call.serve sha256).outcome d).2

/-- The request carries the token, as the lock or as the old lock that it replaces. -/
def WopiCall.Presents (call : WopiCall) (token : Str) : Prop :=
  call.headers.lock = some token ∨ call.headers.oldLock = some token

/-- Access tokens are issued to users of the file's own tenant. -/
def Issued (d : State) (call : WopiCall) : Prop :=
  ∀ ctx, call.claims = some ctx → ∀ f ∈ d.store.files, f.id = call.id → ctx.tenantId = f.tenantId

/-- Every lock has a token and belongs to the tenant of its file. -/
def LocksSound (s : Store) : Prop :=
  ∀ lock ∈ s.locks, lock.lockToken ≠ [] ∧
    ∀ f ∈ s.files, f.id = lock.fileId → lock.tenantId = f.tenantId

/-- At no time is there more than one unexpired lock of a file. -/
def OneLock (d : State) : Prop :=
  ∀ fileId (now : Int),
    (d.store.locks.filter fun lock => lock.fileId = fileId && now < lock.expiresAt).length ≤ 1

/-- What a request may do under an unexpired lock: change the lock if it presents its token, and
store content if it presents it. -/
def Excludes (sha256 : Octets → Str) (d : State) (call : WopiCall) : Prop :=
  (∀ lock ∈ d.store.locks, call.gen.now < lock.expiresAt →
    lock ∉ (wopiServed sha256 d call).store.locks →
    call.id = lock.fileId ∧ call.Presents lock.lockToken) ∧
  ∀ lock ∈ d.store.locks, lock.fileId = call.id → call.gen.now < lock.expiresAt →
    call.body.isSome → call.headers.lock ≠ some lock.lockToken →
    (∀ version row, ((call.serve sha256).outcome d).1 ≠ .ok (some (.stored version row))) ∧
      wopiServed sha256 d call = d

variable {d : State} {s s' : Store} {lock : WopiLock}

theorem one_lock (d : State) : OneLock d := by
  intro fileId now
  have unique := d.store.unique.2.2.2.2.2.2
  have single : ((d.store.locks.filter fun lock =>
      lock.fileId = fileId && now < lock.expiresAt).map (·.fileId)).Nodup :=
    unique.sublist (List.filter_sublist.map _)
  have all : ∀ lock ∈ d.store.locks.filter fun lock =>
      lock.fileId = fileId && now < lock.expiresAt, lock.fileId = fileId := by
    intro lock member
    have held := (List.mem_filter.mp member).2
    simp only [Bool.and_eq_true, decide_eq_true_eq] at held
    exact held.1
  generalize (d.store.locks.filter fun lock =>
    lock.fileId = fileId && now < lock.expiresAt) = held at single all ⊢
  match held with
  | [] => exact Nat.zero_le 1
  | [_] => exact Nat.le_refl 1
  | first :: second :: rest =>
    have same : first.fileId = second.fileId :=
      (all first (by simp)).trans (all second (by simp)).symm
    have distinct := (List.nodup_cons.mp single).1
    exact absurd (List.mem_map.mpr ⟨second, by simp, same.symm⟩) distinct

/-! ### Statements -/

theorem lock_unique {other : WopiLock} (first : lock ∈ s.locks) (second : other ∈ s.locks)
    (same : lock.fileId = other.fileId) : lock = other :=
  List.inj_on_of_nodup_map s.unique.2.2.2.2.2.2 first second same

/-- What a lock statement of a file does to the locks. -/
structure LockStep (ctx : RequestCtx) (fileId : Uuid) (now : Int) (presented : Str → Prop)
    (s s' : Store) : Prop where
  files : s'.files = s.files
  added : ∀ lock ∈ s'.locks, lock ∈ s.locks ∨
    (lock.lockToken ≠ [] ∧ lock.fileId = fileId ∧ lock.tenantId = ctx.tenantId)
  kept : ∀ lock ∈ s.locks, now < lock.expiresAt → lock ∉ s'.locks →
    fileId = lock.fileId ∧ presented lock.lockToken

theorem tokenFits_ne_nil {token : Str} (fits : WopiLockRepo.tokenFits token = true) :
    token ≠ [] := by
  rintro rfl
  cases fits

theorem replaceLock_tables (done : WopiLockRepo.replaceLock lock s = .ok s') :
    s'.files = s.files ∧
      s'.locks = s.locks.map fun l => if l.fileId = lock.fileId then lock else l := by
  unfold WopiLockRepo.replaceLock at done
  have tables := commit_ok_iff.mp (mapError_ok.mp done)
  have files := congrArg Tables.files tables
  have locks := congrArg Tables.locks tables
  exact ⟨files, locks⟩

/-- A replaced row was the only one of its file. -/
theorem lockStep_replaced {ctx : RequestCtx} {fileId : Uuid} {now : Int}
    {presented : Str → Prop} {new : WopiLock} (done : WopiLockRepo.replaceLock new s = .ok s')
    (old : lock ∈ s.locks) (own : lock.fileId = fileId) (sameFile : new.fileId = lock.fileId)
    (sameTenant : new.tenantId = ctx.tenantId) (named : new.lockToken ≠ [])
    (allowed : now < lock.expiresAt → presented lock.lockToken) :
    LockStep ctx fileId now presented s s' := by
  obtain ⟨files, locks⟩ := replaceLock_tables done
  refine ⟨files, ?_, ?_⟩
  · intro l member
    rw [locks] at member
    obtain ⟨before, inside, rfl⟩ := List.mem_map.mp member
    split_ifs
    · exact .inr ⟨named, sameFile.trans own, sameTenant⟩
    · exact .inl inside
  · intro l member live gone
    have same : l.fileId = lock.fileId := by
      by_contra other
      apply gone
      rw [locks]
      exact List.mem_map.mpr ⟨l, member, if_neg fun equal => other (equal.trans sameFile)⟩
    rw [lock_unique member old same] at live ⊢
    exact ⟨own.symm, allowed live⟩

theorem lockStep_acquire {ctx : RequestCtx} {fileId userId : Uuid} {token : Str} {now : Int}
    {outcome : WopiLockRepo.AcquireOutcome}
    (done : WopiLockRepo.acquireOrRefresh ctx.tenantId fileId token userId now s =
      .ok (s', outcome)) : LockStep ctx fileId now (· = token) s s' := by
  unfold WopiLockRepo.acquireOrRefresh at done
  split_ifs at done with unfit
  have fits : WopiLockRepo.tokenFits token = true := by simpa using unfit
  split at done
  · obtain ⟨after, committed, same⟩ := map_eq_ok_iff.mp done
    have tables := commit_ok_iff.mp (mapError_ok.mp committed)
    have files := congrArg Tables.files tables
    have locks := congrArg Tables.locks tables
    cases same
    refine ⟨files, ?_, ?_⟩
    · intro l member
      rw [locks] at member
      rcases List.mem_append.mp member with before | new
      · exact .inl before
      · rw [List.mem_singleton.mp new]
        exact .inr ⟨tokenFits_ne_nil fits, rfl, rfl⟩
    · intro l member _ gone
      rw [locks] at gone
      exact absurd (List.mem_append_left _ member) gone
  · next lock found =>
    have member := List.mem_of_find?_eq_some found
    have own : lock.fileId = fileId := by simpa using List.find?_some found
    by_cases foreign : lock.tenantId ≠ ctx.tenantId
    · rw [if_pos foreign] at done
      cases done
    · rw [if_neg foreign] at done
      by_cases free : lock.expiresAt ≤ now ∨ lock.lockToken = token
      · rw [if_pos free] at done
        obtain ⟨after, replaced, same⟩ := map_eq_ok_iff.mp done
        cases same
        apply lockStep_replaced replaced member own rfl (not_not.mp foreign) (tokenFits_ne_nil fits)
        intro live
        rcases free with expired | equal
        · omega
        · exact equal
      · rw [if_neg free] at done
        cases done
        exact ⟨rfl, fun l inside => .inl inside, fun l inside _ gone => absurd inside gone⟩

theorem active_iff {tenantId fileId : Uuid} {now : Int} :
    WopiLockRepo.active tenantId fileId now lock = true ↔
      lock.tenantId = tenantId ∧ lock.fileId = fileId ∧ now < lock.expiresAt := by
  unfold WopiLockRepo.active
  simp [and_assoc]

theorem lockStep_relock {ctx : RequestCtx} {fileId userId : Uuid} {old token : Str} {now : Int}
    {outcome : WopiLockRepo.AcquireOutcome}
    (done : WopiLockRepo.unlockAndRelock ctx.tenantId fileId old token userId now s =
      .ok (s', outcome)) : LockStep ctx fileId now (· = old) s s' := by
  unfold WopiLockRepo.unlockAndRelock at done
  split at done
  · cases done
    exact ⟨rfl, fun l inside => .inl inside, fun l inside _ gone => absurd inside gone⟩
  · next lock found =>
    have member := List.mem_of_find?_eq_some found
    have held := List.find?_some found
    simp only [Bool.and_eq_true, active_iff, decide_eq_true_eq] at held
    split_ifs at done with fits
    obtain ⟨after, replaced, same⟩ := map_eq_ok_iff.mp done
    cases same
    exact lockStep_replaced replaced member held.1.2.1 rfl held.1.1 (tokenFits_ne_nil fits)
      fun _ => held.2

theorem lockStep_release {ctx : RequestCtx} {fileId : Uuid} {token : Str} {now : Int}
    {removed : Bool}
    (done : WopiLockRepo.release ctx.tenantId fileId token now s = .ok (s', removed)) :
    LockStep ctx fileId now (· = token) s s' := by
  unfold WopiLockRepo.release at done
  obtain ⟨after, committed, same⟩ := map_eq_ok_iff.mp done
  have tables := commit_ok_iff.mp (mapError_ok.mp committed)
  have files := congrArg Tables.files tables
  have locks := congrArg Tables.locks tables
  cases same
  refine ⟨files, ?_, ?_⟩
  · intro l member
    rw [locks] at member
    exact .inl (List.mem_filter.mp member).1
  · intro l member live gone
    rw [locks] at gone
    have selected :
        (WopiLockRepo.active ctx.tenantId fileId now l && l.lockToken = token) = true := by
      by_contra other
      exact gone (List.mem_filter.mpr ⟨member, (Bool.not_eq_true' _).mpr (by simpa using other)⟩)
    simp only [Bool.and_eq_true, active_iff, decide_eq_true_eq] at selected
    exact ⟨selected.1.2.1.symm, selected.2⟩

/-! ### Lock requests -/

variable {claims : Option RequestCtx} {ctx : RequestCtx} {id : Uuid} {headers : Wopi.Headers}
  {now : Int} {sha256 : Octets → Str}

theorem LockStep.imp {presented weaker : Str → Prop} (step : LockStep ctx id now presented s s')
    (weakens : ∀ token, presented token → weaker token) : LockStep ctx id now weaker s s' where
  files := step.files
  added := step.added
  kept lock member live gone :=
    let ⟨own, shown⟩ := step.kept lock member live gone
    ⟨own, weakens _ shown⟩

/-- A lock request does nothing, or one lock statement of an authorized user. -/
def LockMove (claims : Option RequestCtx) (id : Uuid) (headers : Wopi.Headers) (now : Int)
    (d d' : State) : Prop :=
  d' = d ∨ ∃ ctx, claims = some ctx ∧ LockStep ctx id now
    (fun token => headers.lock = some token ∨ headers.oldLock = some token) d.store d'.store

theorem lockMove_statement {α : Type} {f : Store → Except DriveError (Store × α)} {token : Str}
    {header : Option Str} (authorized : claims = some ctx) (named : token ≠ [])
    (carried : token = header.getD []) (shown : header = headers.lock ∨ header = headers.oldLock)
    (steps : ∀ s' a, f d.store = .ok (s', a) → LockStep ctx id now (· = token) d.store s') :
    After (statement f) d fun _ => LockMove claims id headers now d := by
  rw [after_statement]
  split
  · next s' a done =>
    refine .inr ⟨ctx, authorized, (steps s' a done).imp fun other same => ?_⟩
    rw [same]
    have present : header = some token := by
      cases header with
      | none => exact absurd carried named
      | some shown => rw [carried]; rfl
    rcases shown with first | second
    · exact .inl (first ▸ present)
    · exact .inr (second ▸ present)
  · exact .inl rfl

theorem requireLock_ok {token : Str} (passed : requireLock token = .ok ()) : token ≠ [] := by
  unfold requireLock at passed
  split_ifs at passed with empty
  exact empty

theorem lockMove_wopiPost : After (wopiPost claims id headers now) d
    fun _ => LockMove claims id headers now d := by
  unfold wopiPost
  rw [after_bind, after_query]
  cases authorized : claims with
  | none => exact .inl rfl
  | some ctx =>
    show After (if _ then _ else _) d _
    split_ifs
    · exact .inl rfl
    · rw [after_bind, after_query]
      cases passed : requireLock (headers.lock.getD []) with
      | error e => exact .inl rfl
      | ok _ =>
        dsimp only
        split_ifs with relocks
        · rw [after_discard]
          exact lockMove_statement rfl relocks rfl (.inr rfl) fun _ _ done => lockStep_relock done
        · rw [after_discard]
          exact lockMove_statement rfl (requireLock_ok passed) rfl (.inl rfl)
            fun _ _ done => lockStep_acquire done
    · rw [after_bind, after_query]
      cases passed : requireLock (headers.lock.getD []) with
      | error e => exact .inl rfl
      | ok _ =>
        show After (statement _ >>= _) d _
        rw [after_discard]
        exact lockMove_statement rfl (requireLock_ok passed) rfl (.inl rfl)
          fun _ _ done => lockStep_acquire done
    · rw [after_bind, after_query]
      cases passed : requireLock (headers.lock.getD []) with
      | error e => exact .inl rfl
      | ok _ =>
        show After (statement _ >>= _) d _
        rw [after_bind]
        have moved := @lockMove_statement d (some ctx) ctx id headers now _
          (WopiLockRepo.release ctx.tenantId id (headers.lock.getD []) now) _ headers.lock rfl
          (requireLock_ok passed) rfl (.inl rfl) fun _ _ done => lockStep_release done
        apply moved.imp
        intro result d' done
        cases result with
        | error e => exact done
        | ok removed => cases removed <;> exact done
    · exact .inl rfl

/-! ### New content -/

/-- The locks stay, and no row gets another tenant. -/
def SameLocks (s : Store) (d : State) : Prop :=
  d.store.locks = s.locks ∧
    ∀ f ∈ d.store.files, ∃ g ∈ s.files, g.id = f.id ∧ g.tenantId = f.tenantId

theorem keeps_putFile {body : Octets} {gen : Generated} :
    Keeps (SameLocks s) (putFile sha256 claims id headers body gen) := by
  unfold putFile
  apply (keeps_query _).bind
  intro ctx
  apply (keeps_query _).bind
  intro activeLock
  split_ifs
  · exact .pure _
  · apply (keeps_query _).bind
    intro existing
    have writes : Keeps (SameLocks s) (writeFile ⟨gen.key, false⟩ body) := fun _ same => same
    apply writes.bind
    intro _
    have archives : Keeps (SameLocks s) (archive ctx existing existing.ownerUserId) := by
      unfold archive
      split
      · exact .pure ()
      · apply (keeps_query _).bind
        intro nextNo
        apply keeps_statement
        intro d s' a same done
        obtain ⟨after, inserted, equal⟩ := map_eq_ok_iff.mp done
        unfold VersionRepo.insert at inserted
        have tables := commit_ok_iff.mp (mapError_ok.mp inserted)
        have files := congrArg Tables.files tables
        have locks := congrArg Tables.locks tables
        cases equal
        exact ⟨locks.trans same.1, fun f member => same.2 f (files ▸ member)⟩
    apply archives.bind
    intro _
    have updates : Keeps (SameLocks s) (statement (FileRepo.updateContent ctx.tenantId existing.id
        ⟨gen.key, body.length, some (sha256 body), headers.contentType <|> existing.mimeType⟩
        gen.now)) := by
      apply keeps_statement
      intro d s' row same done
      obtain ⟨rows, updated⟩ := updateOne_update done
      have tables := update_files updated
      have locks := congrArg Tables.locks tables
      refine ⟨locks.trans same.1, fun f member => ?_⟩
      rw [congrArg Tables.files tables] at member
      obtain ⟨g, before, rfl⟩ := List.mem_map.mp member
      obtain ⟨h, inside, isId, isTenant⟩ := same.2 g before
      refine ⟨h, inside, ?_⟩
      split_ifs <;> exact ⟨isId, isTenant⟩
    exact (keeps_orRemove updates fun _ same => same).bind fun _ => .pure _

/-- Without the token of the lock nothing is stored, and nothing changes. -/
theorem putFile_mismatch {body : Octets} {gen : Generated} (member : lock ∈ d.store.locks)
    (own : lock.fileId = id) (live : gen.now < lock.expiresAt) (named : lock.lockToken ≠ [])
    (issued : ∀ ctx, claims = some ctx → ctx.tenantId = lock.tenantId)
    (mismatch : headers.lock ≠ some lock.lockToken) :
    After (putFile sha256 claims id headers body gen) d fun result d' =>
      (∀ version row, result ≠ .ok (.stored version row)) ∧ d' = d := by
  unfold putFile
  rw [after_bind, after_query]
  cases checked : checkBody claims body with
  | error e => exact ⟨fun _ _ => nofun, rfl⟩
  | ok ctx =>
    show After (query _ >>= _) d _
    rw [after_bind, after_query]
    have sameTenant : lock.tenantId = ctx.tenantId := by
      obtain ⟨user, authorized, rest⟩ := bind_eq_ok_iff.mp checked
      obtain ⟨_, same⟩ := check_bind_ok_iff.mp rest
      cases same
      cases claims with
      | none => cases authorized
      | some user =>
        cases authorized
        exact (issued _ rfl).symm
    have found : WopiLockRepo.fetchActive ctx.tenantId id gen.now d.store = some lock := by
      unfold WopiLockRepo.fetchActive
      cases held : d.store.locks.find? (WopiLockRepo.active ctx.tenantId id gen.now) with
      | none =>
        have dead := List.find?_eq_none.mp held lock member
        exact absurd (active_iff.mpr ⟨sameTenant, own, live⟩) dead
      | some other =>
        have isActive := active_iff.mp (List.find?_some held)
        rw [lock_unique (List.mem_of_find?_eq_some held) member (isActive.2.1.trans own.symm)]
    show After (if _ then _ else _) d _
    rw [found, if_pos]
    · exact ⟨fun _ _ => nofun, rfl⟩
    · show decide (headers.lock.getD [] ≠ lock.lockToken) = true
      apply decide_eq_true
      intro same
      cases shown : headers.lock with
      | none =>
        rw [shown] at same
        exact named same.symm
      | some token =>
        rw [shown] at same
        exact mismatch (shown.trans (congrArg some same))

/-! ### Runs -/

theorem locksSound_step {presented : Str → Prop} (sound : LocksSound s)
    (issued : ∀ f ∈ s.files, f.id = id → ctx.tenantId = f.tenantId)
    (step : LockStep ctx id now presented s s') : LocksSound s' := by
  intro lock member
  rcases step.added lock member with before | ⟨named, own, tenant⟩
  · rw [step.files]
    exact sound lock before
  · rw [step.files]
    refine ⟨named, fun f inside same => ?_⟩
    rw [tenant]
    exact issued f inside (same.trans own)

theorem locksSound_same (sound : LocksSound s) (same : SameLocks s d) : LocksSound d.store := by
  intro lock member
  rw [same.1] at member
  refine ⟨(sound lock member).1, fun f inside own => ?_⟩
  obtain ⟨g, before, isId, isTenant⟩ := same.2 f inside
  exact ((sound lock member).2 g before (isId.trans own)).trans isTenant

/-- The tenant of a lock is that of its file, and so of every user who is let in. -/
theorem issued_lock {call : WopiCall} (sound : LocksSound d.store) (issued : Issued d call)
    (member : lock ∈ d.store.locks) (own : lock.fileId = call.id) {user : RequestCtx}
    (authorized : call.claims = some user) : user.tenantId = lock.tenantId := by
  obtain ⟨f, inside, isFile⟩ := List.mem_map.mp (d.store.referenced.2.2.2.2.2 lock member)
  rw [issued user authorized f inside (isFile.trans own), (sound lock member).2 f inside isFile]

theorem wopi_step (sha256 : Octets → Str) (d : State) (call : WopiCall)
    (sound : LocksSound d.store) (issued : Issued d call) :
    LocksSound (wopiServed sha256 d call).store ∧ Excludes sha256 d call := by
  unfold Excludes wopiServed WopiCall.serve
  cases content : call.body with
  | none =>
    have moved : LockMove call.claims call.id call.headers call.gen.now d
        ((wopiPost call.claims call.id call.headers call.gen.now >>= fun _ =>
          pure none : Handler (Option PutResponse)).outcome d).2 :=
      (after_discard _ _).mpr lockMove_wopiPost
    refine ⟨?_, ?_, fun _ _ _ _ isPut => (nomatch isPut)⟩
    · rcases moved with same | ⟨ctx, authorized, step⟩
      · show LocksSound (Action.outcome _ d).2.store
        rw [same]
        exact sound
      · exact locksSound_step sound (issued ctx authorized) step
    · intro lock member live gone
      rcases moved with same | ⟨ctx, authorized, step⟩
      · rw [same] at gone
        exact absurd member gone
      · exact step.kept lock member live gone
  | some body =>
    have same : SameLocks d.store ((putFile sha256 call.claims call.id call.headers body
        call.gen >>= fun response => pure (some response) :
          Handler (Option PutResponse)).outcome d).2 :=
      (after_discard _ _).mpr
        (keeps_putFile d ⟨rfl, fun f member => ⟨f, member, rfl, rfl⟩⟩)
    refine ⟨locksSound_same sound same, ?_, ?_⟩
    · intro lock member live gone
      rw [same.1] at gone
      exact absurd member gone
    · intro lock member own live _ mismatch
      have refused : After (putFile sha256 call.claims call.id call.headers body call.gen) d _ :=
        putFile_mismatch member own live (sound lock member).1
          (fun user => issued_lock sound issued member own) mismatch
      show After (putFile sha256 call.claims call.id call.headers body call.gen >>= fun response =>
        pure (some response)) d fun result d' =>
          (∀ version row, result ≠ .ok (some (.stored version row))) ∧ d' = d
      rw [after_bind]
      apply refused.imp
      intro result d' ⟨nothing, still⟩
      cases result with
      | error e => exact ⟨fun _ _ => nofun, still⟩
      | ok response =>
        refine ⟨fun version row same => ?_, still⟩
        exact nothing version row (congrArg _ (Option.some.inj (Except.ok.inj same)))

/-- In every run of requests there is at most one unexpired lock of a file, it changes only with
its token, and without the token no content is stored under it. -/
theorem lock_exclusion (sha256 : Octets → Str) (d : State) (sound : LocksSound d.store)
    (calls : List WopiCall) (issued : EachStep (wopiServed sha256) Issued d calls) :
    Throughout (wopiServed sha256) OneLock d calls ∧
      EachStep (wopiServed sha256) (Excludes sha256) d calls := by
  constructor
  · exact @EachStep.throughout _ _ (wopiServed sha256) OneLock Issued
      (fun _ _ _ _ => one_lock _) d (one_lock d) calls issued
  · exact @EachStep.of_invariant _ _ (wopiServed sha256) (fun d => LocksSound d.store) Issued
      (Excludes sha256) (fun d call holds met => wopi_step sha256 d call holds met) d sound calls
      issued

/-- A file under an unexpired lock. -/
def lockedState : State where
  store := ⟨{ emptyTables with
    files := [⟨10, 1, 7, none, ['a'], .file, none, 1, none, some 100, 0, none, none⟩]
    locks := [⟨10, 1, ['t'], 7, 0, WopiLockRepo.lockTtl⟩] }, by decide, by decide⟩
  disk := fun _ => none

/-- Another client asks for the lock, and then puts content without the token. -/
theorem lock_exclusion_two :
    let calls : List WopiCall :=
      [⟨some ⟨1, 8⟩, 10, ⟨some "LOCK".toList, some ['u'], none, none⟩, none, ⟨0, 0, 5⟩⟩,
        ⟨some ⟨1, 8⟩, 10, ⟨none, none, none, none⟩, some [1], ⟨0, 101, 6⟩⟩]
    Throughout (wopiServed noHash) OneLock lockedState calls ∧
      EachStep (wopiServed noHash) (Excludes noHash) lockedState calls := by
  intro calls
  apply lock_exclusion noHash lockedState
  · intro lock member
    cases List.mem_singleton.mp (show lock ∈ [_] from member)
    refine ⟨nofun, fun f inside same => ?_⟩
    cases List.mem_singleton.mp (show f ∈ [_] from inside)
    rfl
  · have tenants : ∀ d : State, (∀ f ∈ d.store.files, f.id = 10 → 1 = f.tenantId) →
        ∀ call : WopiCall, call.claims = some ⟨1, 8⟩ → call.id = 10 → Issued d call := by
      intro d held call user own ctx authorized f inside same
      cases user.symm.trans authorized
      exact held f inside (same.trans own)
    refine ⟨tenants _ ?_ _ rfl rfl, tenants _ ?_ _ rfl rfl, trivial⟩ <;> decide

end Expresso.Drive
