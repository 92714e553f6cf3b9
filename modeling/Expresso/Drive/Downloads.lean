import Expresso.Drive.Operations
import Expresso.Transition.Runs
import Mathlib.Data.Finset.Card

/-! Public downloads of shared files, statement by statement, in any order and between revocations
and changes of the files. -/

namespace Expresso.Drive
open Text Transition

/-! ### `drive_shares` -/

/-- A row as the public endpoint reads it. -/
structure ResolvedShare where
  id : Uuid
  tenantId : Uuid
  fileId : Uuid
  tokenHash : Str
  expiresAt : Int
  revokedAt : Option Int
  passwordHash : Option Str
  passwordSalt : Option Str
  maxDownloads : Option Int
  downloadCount : Int
  deriving DecidableEq

def ResolvedShare.capped (share : ResolvedShare) : Prop :=
  ∀ m, share.maxDownloads = some m → share.downloadCount ≤ m

/-- The rows. No count is above its cap. -/
structure Shares where
  rows : List ResolvedShare
  unique : (rows.map (·.id)).Nodup
  capped : ∀ share ∈ rows, share.capped

namespace Shares

/-- Whether `drive_share_consume` takes a row. -/
def consumable (id : Uuid) (now : Int) (share : ResolvedShare) : Bool :=
  share.id = id && share.revokedAt.isNone && now < share.expiresAt &&
    share.maxDownloads.all (share.downloadCount < ·)

def consumed (id : Uuid) (now : Int) (share : ResolvedShare) : ResolvedShare :=
  if consumable id now share then { share with downloadCount := share.downloadCount + 1 } else share

def revoked (tenantId id : Uuid) (now : Int) (share : ResolvedShare) : ResolvedShare :=
  if share.id = id && share.tenantId = tenantId && share.revokedAt.isNone then
    { share with revokedAt := some now }
  else share

theorem consumed_capped {id : Uuid} {now : Int} {share : ResolvedShare} (capped : share.capped) :
    (consumed id now share).capped := by
  unfold consumed
  split_ifs with takes
  · intro m limit
    unfold consumable at takes
    simp only [Bool.and_eq_true] at takes
    have below := takes.2
    rw [show share.maxDownloads = some m from limit] at below
    exact Int.add_one_le_of_lt (of_decide_eq_true below)
  · exact capped

/-- An update of every row that changes neither ids nor lifts a count above its cap. -/
def update (change : ResolvedShare → ResolvedShare) (ids : ∀ share, (change share).id = share.id)
    (caps : ∀ share, share.capped → (change share).capped) (shares : Shares) : Shares where
  rows := shares.rows.map change
  unique := by
    rw [List.map_map]
    exact (List.map_congr_left fun share _ => ids share) ▸ shares.unique
  capped := by
    intro share member
    obtain ⟨before, inside, rfl⟩ := List.mem_map.mp member
    exact caps before (shares.capped before inside)

def tryConsumeDownload (id : Uuid) (now : Int) (shares : Shares) : Shares × Option Int :=
  (shares.update (consumed id now) (fun share => by unfold consumed; split <;> rfl)
      (fun _ => consumed_capped),
    (shares.rows.find? (consumable id now)).map (·.downloadCount + 1))

def revoke (tenantId id : Uuid) (now : Int) (shares : Shares) : Shares :=
  shares.update (revoked tenantId id now) (fun share => by unfold revoked; split <;> rfl)
    (fun share capped => by unfold revoked; split <;> exact capped)

def resolve (tokenHash : Str) (shares : Shares) : Option ResolvedShare :=
  shares.rows.find? (·.tokenHash = tokenHash)

/-- `ON DELETE CASCADE`. -/
def ofFiles (ids : List Uuid) (shares : Shares) : Shares where
  rows := shares.rows.filter (·.fileId ∈ ids)
  unique := shares.unique.sublist (List.filter_sublist.map _)
  capped := fun share member => shares.capped share (List.mem_filter.mp member).1

end Shares

/-! ### Requests -/

structure DownloadRequest where
  token : Str
  password : Option Str

/-- The hash of a token, and whether a password matches a hash with its salt. -/
structure Hashing where
  digest : Str → Str
  verifyPassword : Str → Str → Str → Bool

inductive DownloadStage where
  | resolving
  | consuming (share : ResolvedShare)
  | fetching (share : ResolvedShare)
  | reading (share : ResolvedShare) (key : Uuid)
  | served (share : ResolvedShare) (bytes : Octets)
  | refused (e : DriveError)
  deriving DecidableEq

namespace DownloadRequest

variable (hashing : Hashing)

/-- What a resolved share and its password let through. -/
def gates (r : DownloadRequest) (now : Int) (resolved : Option ResolvedShare) :
    Except DriveError ResolvedShare := do
  let share ← orThrow resolved .forbidden
  require (share.revokedAt.isNone ∧ now ≤ share.expiresAt) .forbidden
  match share.passwordHash, share.passwordSalt with
  | some hash, some salt =>
      require (r.password.any fun cand => hashing.verifyPassword cand hash salt) .unauthorized
      pure share
  | _, _ => pure share

def step (r : DownloadRequest) (now : Int) (stage : DownloadStage) (shares : Shares) (d : State) :
    Shares × DownloadStage :=
  match stage with
  | .resolving => (shares, match r.gates hashing now (shares.resolve (hashing.digest r.token)) with
      | .ok share => if share.maxDownloads.isSome then .consuming share else .fetching share
      | .error e => .refused e)
  | .consuming share =>
      let (shares', count) := shares.tryConsumeDownload share.id now
      (shares', match count with
        | none => .refused .forbidden
        | some _ => .fetching share)
  | .fetching share => (shares, match FileRepo.get share.tenantId share.fileId d.store with
      | .error e => .refused e
      | .ok file =>
          if file.kind = .file then match file.storageKey with
            | some key => .reading share key
            | none => .refused (.badRequest "file has no content".toList)
          else .refused (.badRequest "share target is a folder".toList))
  | .reading share key => (shares, match d.disk ⟨key, false⟩ with
      | some bytes => .served share bytes
      | none => .refused .io)
  | .served share bytes => (shares, .served share bytes)
  | .refused e => (shares, .refused e)

end DownloadRequest

/-- The shares, the files and their blobs, and where every request stands. -/
structure ShareWorld (ι : Type) where
  shares : Shares
  drive : State
  stage : ι → DownloadStage

/-- A step of a download, a revocation, or whatever else changes the files and their blobs. -/
inductive ShareEvent (ι : Type) where
  | download (i : ι) (now : Int)
  | revoke (tenantId id : Uuid) (now : Int)
  | change (drive : State)

variable {ι : Type} [DecidableEq ι]

def ShareWorld.step (hashing : Hashing) (requests : ι → DownloadRequest) (w : ShareWorld ι) :
    ShareEvent ι → ShareWorld ι
  | .download i now =>
      let after := (requests i).step hashing now (w.stage i) w.shares w.drive
      { w with shares := after.1, stage := Function.update w.stage i after.2 }
  | .revoke tenantId id now => { w with shares := w.shares.revoke tenantId id now }
  | .change drive =>
      { w with shares := w.shares.ofFiles (drive.store.files.map (·.id)), drive := drive }

/-! ### The rows over a step -/

/-- A row is as it was, but for its count and its revocation, which only go on. -/
structure Later (before after : ResolvedShare) : Prop where
  id : after.id = before.id
  tenantId : after.tenantId = before.tenantId
  expiresAt : after.expiresAt = before.expiresAt
  maxDownloads : after.maxDownloads = before.maxDownloads
  count : before.downloadCount ≤ after.downloadCount
  revoked : before.revokedAt.isSome → after.revokedAt.isSome

theorem Later.refl (share : ResolvedShare) : Later share share :=
  ⟨rfl, rfl, rfl, rfl, Int.le_refl _, fun holds => holds⟩

theorem later_consumed (id : Uuid) (now : Int) (share : ResolvedShare) :
    Later share (Shares.consumed id now share) := by
  unfold Shares.consumed
  split_ifs
  · refine ⟨rfl, rfl, rfl, rfl, ?_, fun holds => holds⟩
    show share.downloadCount ≤ share.downloadCount + 1
    omega
  · exact .refl share

theorem later_revoked (tenantId id : Uuid) (now : Int) (share : ResolvedShare) :
    Later share (Shares.revoked tenantId id now share) := by
  unfold Shares.revoked
  split_ifs
  · exact ⟨rfl, rfl, rfl, rfl, Int.le_refl _, fun _ => rfl⟩
  · exact .refl share

/-- Every row after a step comes from one before it. -/
theorem step_later (hashing : Hashing) (requests : ι → DownloadRequest) (w : ShareWorld ι)
    (event : ShareEvent ι) :
    ∀ after ∈ (w.step hashing requests event).shares.rows, ∃ before ∈ w.shares.rows,
      Later before after := by
  intro after member
  cases event with
  | download i now =>
    cases stage : w.stage i with
    | consuming share =>
      have inside : after ∈ w.shares.rows.map (Shares.consumed share.id now) := by
        unfold ShareWorld.step at member
        simp only [stage] at member
        exact member
      obtain ⟨before, known, rfl⟩ := List.mem_map.mp inside
      exact ⟨before, known, later_consumed share.id now before⟩
    | _ =>
      unfold ShareWorld.step at member
      simp only [stage] at member
      exact ⟨after, member, .refl after⟩
  | revoke tenantId id now =>
    obtain ⟨before, known, rfl⟩ := List.mem_map.mp member
    exact ⟨before, known, later_revoked tenantId id now before⟩
  | change drive => exact ⟨after, (List.mem_filter.mp member).1, .refl after⟩

/-! ### The requests over a step -/

/-- The share that a request has resolved. -/
def DownloadStage.share : DownloadStage → Option ResolvedShare
  | .consuming share => some share
  | .fetching share => some share
  | .reading share _ => some share
  | .served share _ => some share
  | _ => none

/-- Past the consumption of a share. -/
def DownloadStage.past (id : Uuid) : DownloadStage → Prop
  | .fetching share => share.id = id
  | .reading share _ => share.id = id
  | .served share _ => share.id = id
  | _ => False

def DownloadStage.serves (id : Uuid) : DownloadStage → Prop
  | .served share _ => share.id = id
  | _ => False

variable {hashing : Hashing} {requests : ι → DownloadRequest} {w : ShareWorld ι} {i : ι}
  {id : Uuid} {now m base : Int}

theorem gates_ok {r : DownloadRequest} {resolved : Option ResolvedShare} {share : ResolvedShare}
    (passed : r.gates hashing now resolved = .ok share) : resolved = some share := by
  obtain ⟨found, known, rest⟩ := bind_eq_ok_iff.mp passed
  obtain ⟨_, rest⟩ := check_bind_ok_iff.mp rest
  rw [orThrow_ok_iff.mp known]
  split at rest
  · obtain ⟨_, last⟩ := check_bind_ok_iff.mp rest
    cases last
    rfl
  · cases rest
    rfl

/-- A request goes on with the share that it has, or with a row. -/
theorem step_share {shares : Shares} {d : State} {stage : DownloadStage} {share : ResolvedShare}
    {r : DownloadRequest} (goes : (r.step hashing now stage shares d).2.share = some share) :
    stage.share = some share ∨ share ∈ shares.rows := by
  cases stage with
  | resolving =>
    right
    simp only [DownloadRequest.step] at goes
    cases passed : r.gates hashing now (shares.resolve (hashing.digest r.token)) with
    | error e =>
      rw [passed] at goes
      cases goes
    | ok found =>
      rw [passed] at goes
      simp only at goes
      split_ifs at goes
      · cases goes
        exact List.mem_of_find?_eq_some (gates_ok passed)
      · cases goes
        exact List.mem_of_find?_eq_some (gates_ok passed)
  | consuming own =>
    left
    simp only [DownloadRequest.step] at goes
    split at goes
    · cases goes
    · exact goes
  | fetching own =>
    left
    simp only [DownloadRequest.step] at goes
    repeat' split at goes
    all_goals first | cases goes; done | exact goes
  | reading own key =>
    left
    simp only [DownloadRequest.step] at goes
    split at goes
    · exact goes
    · cases goes
  | served own bytes => exact .inl goes
  | refused e => cases goes

/-- A request comes past the consumption of a share by consuming it, or if it has no cap. -/
theorem step_past {shares : Shares} {d : State} {stage : DownloadStage} {r : DownloadRequest}
    (goes : (r.step hashing now stage shares d).2.past id) :
    stage.past id ∨
      (∃ share ∈ shares.rows, share.id = id ∧ share.maxDownloads = none) ∨
      ∃ share, stage = .consuming share ∧ share.id = id ∧
        ∃ row ∈ shares.rows, Shares.consumable id now row = true := by
  cases stage with
  | resolving =>
    right
    left
    simp only [DownloadRequest.step] at goes
    cases passed : r.gates hashing now (shares.resolve (hashing.digest r.token)) with
    | error e =>
      rw [passed] at goes
      cases goes
    | ok found =>
      rw [passed] at goes
      simp only at goes
      split_ifs at goes with cap
      · cases goes
      · exact ⟨found, List.mem_of_find?_eq_some (gates_ok passed), goes, by simpa using cap⟩
  | consuming own =>
    right
    right
    simp only [DownloadRequest.step, Shares.tryConsumeDownload] at goes
    cases found : shares.rows.find? (Shares.consumable own.id now) with
    | none =>
      rw [found] at goes
      cases goes
    | some row =>
      rw [found] at goes
      have same : own.id = id := goes
      exact ⟨own, rfl, same, row, List.mem_of_find?_eq_some found, same ▸ List.find?_some found⟩
  | fetching own =>
    left
    simp only [DownloadRequest.step] at goes
    repeat' split at goes
    all_goals first | cases goes; done | exact goes
  | reading own key =>
    left
    simp only [DownloadRequest.step] at goes
    split at goes
    · exact goes
    · cases goes
  | served own bytes => exact .inl goes
  | refused e => cases goes

/-! ### The cap -/

/-- So many requests are past the consumption of a share as its count has gone up. -/
structure Counted (id : Uuid) (m base : Int) (w : ShareWorld ι) : Prop where
  cap : ∀ share ∈ w.shares.rows, share.id = id → share.maxDownloads = some m
  count : ∀ past : Finset ι, (∀ i ∈ past, (w.stage i).past id) → base + past.card ≤ m ∧
    ∀ share ∈ w.shares.rows, share.id = id → base + past.card ≤ share.downloadCount

omit [DecidableEq ι] in
theorem counted_start {share : ResolvedShare} (member : share ∈ w.shares.rows)
    (limit : share.maxDownloads = some m) (begins : ∀ i, w.stage i = .resolving) :
    Counted share.id m share.downloadCount w := by
  have one : ∀ other ∈ w.shares.rows, other.id = share.id → other = share := fun other inside same =>
    List.inj_on_of_nodup_map w.shares.unique inside member same
  refine ⟨fun other inside same => one other inside same ▸ limit, ?_⟩
  intro past each
  have none : past = ∅ := by
    rw [Finset.eq_empty_iff_forall_notMem]
    intro i inside
    have isPast := each i inside
    rw [begins i] at isPast
    exact isPast
  rw [none, Finset.card_empty]
  refine ⟨?_, ?_⟩
  · have below := w.shares.capped share member m limit
    omega
  · intro other inside same
    rw [one other inside same]
    omega

omit [DecidableEq ι] in
/-- A step after which no further request is past the consumption. -/
theorem Counted.keep {w' : ShareWorld ι} (counted : Counted id m base w)
    (rows : ∀ after ∈ w'.shares.rows, ∃ before ∈ w.shares.rows, Later before after)
    {past : Finset ι} (each : ∀ i ∈ past, (w.stage i).past id) :
    base + past.card ≤ m ∧
      ∀ share ∈ w'.shares.rows, share.id = id → base + past.card ≤ share.downloadCount := by
  obtain ⟨below, counts⟩ := counted.count past each
  refine ⟨below, ?_⟩
  intro after member own
  obtain ⟨before, inside, later⟩ := rows after member
  exact (counts before inside (later.id.symm.trans own)).trans later.count

theorem counted_download {i : ι} (counted : Counted id m base w) {past : Finset ι}
    (each : ∀ k ∈ past, ((w.step hashing requests (.download i now)).stage k).past id) :
    base + past.card ≤ m ∧ ∀ share ∈ (w.step hashing requests (.download i now)).shares.rows,
      share.id = id → base + past.card ≤ share.downloadCount := by
  have later := step_later hashing requests w (.download i now)
  have others : ∀ k ∈ past, k ≠ i → (w.stage k).past id := by
    intro k inside different
    have isPast := each k inside
    have same : (w.step hashing requests (.download i now)).stage k = w.stage k :=
      Function.update_of_ne different _ _
    exact same ▸ isPast
  by_cases goes : i ∈ past → (w.stage i).past id
  · apply counted.keep later
    intro k inside
    by_cases own : k = i
    · rw [own] at inside ⊢
      exact goes inside
    · exact others k inside own
  · obtain ⟨inside, waits⟩ := Classical.not_imp.mp goes
    have comes : ((requests i).step hashing now (w.stage i) w.shares w.drive).2.past id := by
      have isPast := each i inside
      have own : (w.step hashing requests (.download i now)).stage i =
        ((requests i).step hashing now (w.stage i) w.shares w.drive).2 := Function.update_self _ _ _
      exact own ▸ isPast
    rcases step_past comes with before | ⟨share, known, own, uncapped⟩ |
        ⟨share, stage, own, row, known, takes⟩
    · exact absurd before waits
    · cases uncapped.symm.trans (counted.cap share known own)
    · have rest : ∀ k ∈ past.erase i, (w.stage k).past id := fun k erased =>
        others k (Finset.mem_of_mem_erase erased) (Finset.ne_of_mem_erase erased)
      obtain ⟨_, counts⟩ := counted.count (past.erase i) rest
      have card : (past.erase i).card + 1 = past.card := Finset.card_erase_add_one inside
      have isRow : row.id = id := by
        unfold Shares.consumable at takes
        simp only [Bool.and_eq_true, decide_eq_true_eq] at takes
        exact takes.1.1.1
      have below : row.downloadCount < m := by
        unfold Shares.consumable at takes
        rw [counted.cap row known isRow] at takes
        simp only [Bool.and_eq_true] at takes
        exact of_decide_eq_true takes.2
      have before := counts row known isRow
      refine ⟨by omega, ?_⟩
      intro after member same
      have consumed : after ∈ w.shares.rows.map (Shares.consumed share.id now) := by
        unfold ShareWorld.step at member
        simp only [stage] at member
        exact member
      obtain ⟨old, present, rfl⟩ := List.mem_map.mp consumed
      have one : old = row := List.inj_on_of_nodup_map w.shares.unique present known
        (((later_consumed share.id now old).id.symm.trans same).trans isRow.symm)
      rw [one, own]
      unfold Shares.consumed
      rw [if_pos takes]
      show base + past.card ≤ row.downloadCount + 1
      omega

theorem counted_step (counted : Counted id m base w) (event : ShareEvent ι) :
    Counted id m base (w.step hashing requests event) := by
  have later := step_later hashing requests w event
  refine ⟨?_, ?_⟩
  · intro after member own
    obtain ⟨before, inside, goes⟩ := later after member
    rw [goes.maxDownloads]
    exact counted.cap before inside (goes.id.symm.trans own)
  · intro past each
    cases event with
    | download i now => exact counted_download counted each
    | revoke tenantId other now => exact counted.keep later each
    | change drive => exact counted.keep later each

/-! ### Revocation and expiry -/

/-- What a request has resolved is as in the row, where there still is one. -/
def Agrees (w : ShareWorld ι) : Prop :=
  ∀ i share, (w.stage i).share = some share → ∀ row ∈ w.shares.rows, row.id = share.id →
    row.tenantId = share.tenantId ∧ row.expiresAt = share.expiresAt

theorem agrees_step (agrees : Agrees w) (event : ShareEvent ι) :
    Agrees (w.step hashing requests event) := by
  intro i share resolved after member own
  obtain ⟨before, inside, later⟩ := step_later hashing requests w event after member
  have origin : (w.stage i).share = some share ∨ share ∈ w.shares.rows := by
    cases event with
    | download k now =>
      by_cases same : i = k
      · rw [same] at resolved ⊢
        have own : (w.step hashing requests (.download k now)).stage k =
            ((requests k).step hashing now (w.stage k) w.shares w.drive).2 :=
          Function.update_self _ _ _
        exact step_share (own ▸ resolved)
      · have kept : (w.step hashing requests (.download k now)).stage i = w.stage i :=
          Function.update_of_ne same _ _
        exact .inl (kept ▸ resolved)
    | revoke tenantId id now => exact .inl resolved
    | change drive => exact .inl resolved
  rw [later.tenantId, later.expiresAt]
  have isOwn : before.id = share.id := later.id.symm.trans own
  rcases origin with known | row
  · exact agrees i share known before inside isOwn
  · rw [List.inj_on_of_nodup_map w.shares.unique inside row isOwn]
    exact ⟨rfl, rfl⟩

theorem run_later (events : List (ShareEvent ι)) :
    ∀ after ∈ (events.foldl (ShareWorld.step hashing requests) w).shares.rows,
      ∃ before ∈ w.shares.rows, Later before after := by
  induction events generalizing w with
  | nil => exact fun after member => ⟨after, member, .refl after⟩
  | cons event rest ih =>
    intro after member
    obtain ⟨middle, inside, second⟩ := ih after member
    obtain ⟨before, known, first⟩ := step_later hashing requests w event middle inside
    exact ⟨before, known, second.id.trans first.id, second.tenantId.trans first.tenantId,
      second.expiresAt.trans first.expiresAt, second.maxDownloads.trans first.maxDownloads,
      first.count.trans second.count, fun revoked => second.revoked (first.revoked revoked)⟩

/-- A share stays revoked. -/
theorem revoked_after {events : List (ShareEvent ι)} {tenantId : Uuid} {time : Int}
    (revokes : ShareEvent.revoke tenantId id time ∈ events) :
    ∀ row ∈ (events.foldl (ShareWorld.step hashing requests) w).shares.rows, row.id = id →
      row.tenantId = tenantId → row.revokedAt.isSome := by
  obtain ⟨before, after, rfl⟩ := List.append_of_mem revokes
  rw [List.foldl_append, List.foldl_cons]
  intro row member own tenant
  obtain ⟨first, inside, later⟩ := run_later after row member
  obtain ⟨old, _, rfl⟩ := List.mem_map.mp inside
  apply later.revoked
  have change := later_revoked tenantId id time old
  have isOwn : old.id = id := (change.id.symm.trans later.id.symm).trans own
  have isTenant : old.tenantId = tenantId :=
    (change.tenantId.symm.trans later.tenantId.symm).trans tenant
  unfold Shares.revoked
  split_ifs with chosen
  · rfl
  · simpa [isOwn, isTenant, ← Option.isSome_iff_ne_none] using chosen

theorem refused_stays {e : DriveError} (events : List (ShareEvent ι))
    (refused : w.stage i = .refused e) :
    (events.foldl (ShareWorld.step hashing requests) w).stage i = .refused e := by
  induction events generalizing w with
  | nil => exact refused
  | cons event rest ih =>
    apply ih
    cases event with
    | download k now =>
      by_cases same : i = k
      · rw [← same]
        refine (Function.update_self _ _ _).trans ?_
        rw [refused]
        rfl
      · exact (Function.update_of_ne same _ _).trans refused
    | revoke tenantId id now => exact refused
    | change drive => exact refused

/-- A consumption that finds its share revoked or expired is refused. -/
theorem consume_refused {share : ResolvedShare} (stage : w.stage i = .consuming share)
    (dead : ∀ row ∈ w.shares.rows, row.id = share.id → row.revokedAt.isSome ∨ row.expiresAt ≤ now) :
    (w.step hashing requests (.download i now)).stage i = .refused .forbidden := by
  have none : w.shares.rows.find? (Shares.consumable share.id now) = none := by
    rw [List.find?_eq_none]
    intro row member takes
    unfold Shares.consumable at takes
    simp only [Bool.and_eq_true, decide_eq_true_eq] at takes
    rcases dead row member takes.1.1.1 with revoked | expired
    · rw [Option.isNone_iff_eq_none.mp takes.1.1.2] at revoked
      cases revoked
    · exact absurd takes.1.2 (Int.not_lt.mpr expired)
  refine (Function.update_self _ _ _).trans ?_
  rw [stage]
  simp only [DownloadRequest.step, Shares.tryConsumeDownload, none]
  rfl

/-! ### Runs -/

/-- No more downloads of a share are served than its cap leaves, and none whose consumption comes
after a revocation or after the expiry. -/
theorem share_downloads (hashing : Hashing) (requests : ι → DownloadRequest) (w : ShareWorld ι)
    (begins : ∀ i, w.stage i = .resolving) (events : List (ShareEvent ι)) :
    Throughout (ShareWorld.step hashing requests) (fun w' =>
      ∀ share ∈ w.shares.rows, ∀ m, share.maxDownloads = some m → ∀ served : Finset ι,
        (∀ i ∈ served, (w'.stage i).serves share.id) → share.downloadCount + served.card ≤ m)
      w events ∧
    ∀ before i now after share, events = before ++ .download i now :: after →
      (before.foldl (ShareWorld.step hashing requests) w).stage i = .consuming share →
      (∃ time, .revoke share.tenantId share.id time ∈ before) ∨ share.expiresAt ≤ now →
      (events.foldl (ShareWorld.step hashing requests) w).stage i = .refused .forbidden := by
  constructor
  · rw [throughout_iff]
    intro before after _ share member m limit served each
    have counted : Counted share.id m share.downloadCount
        (before.foldl (ShareWorld.step hashing requests) w) :=
      List.foldlRecOn before _ (counted_start member limit begins)
        fun w' holds event _ => counted_step holds event
    apply (counted.count served _).1
    intro i inside
    have serves := each i inside
    revert serves
    cases (before.foldl (ShareWorld.step hashing requests) w).stage i with
    | served share bytes => exact id
    | _ => exact nofun
  · rintro before i now after share rfl stage dead
    have agrees : Agrees (before.foldl (ShareWorld.step hashing requests) w) := by
      refine List.foldlRecOn before _ ?_ fun w' holds event _ => agrees_step holds event
      intro k other resolved
      rw [begins k] at resolved
      cases resolved
    rw [List.foldl_append, List.foldl_cons]
    apply refused_stays
    apply consume_refused stage
    intro row member own
    obtain ⟨tenant, expires⟩ := agrees i share (by rw [stage]; rfl) row member own
    rcases dead with ⟨time, revokes⟩ | expired
    · exact .inl (revoked_after revokes row member own tenant)
    · exact .inr (expires ▸ expired)

/-! ### A share of one download -/

def sharedOnce : ShareWorld Bool where
  shares := ⟨[⟨30, 1, 10, ['t'], 100, none, none, none, some 1, 0⟩], by decide, by
    intro share member m limit
    rw [List.mem_singleton.mp member] at limit ⊢
    cases limit
    decide⟩
  drive := ⟨⟨{ emptyTables with
    files := [⟨10, 1, 7, none, ['a'], .file, none, 1, none, some 200, 0, none, none⟩] },
    by decide, by decide⟩, fun _ => some [5]⟩
  stage := fun _ => .resolving

def plainHashing : Hashing := ⟨fun token => token, fun cand hash _ => cand = hash⟩

def downloads (_ : Bool) : DownloadRequest := ⟨['t'], none⟩

/-- Both resolve it before one of them consumes it. -/
def bothResolve : List (ShareEvent Bool) :=
  [.download true 0, .download false 0] ++ List.replicate 3 (.download true 1) ++
    [.download false 2]

theorem share_downloads_once :
    ((bothResolve.foldl (ShareWorld.step plainHashing downloads) sharedOnce).stage true).serves 30 ∧
    Throughout (ShareWorld.step plainHashing downloads) (fun w' =>
      ∀ share ∈ sharedOnce.shares.rows, ∀ m, share.maxDownloads = some m → ∀ served : Finset Bool,
        (∀ i ∈ served, (w'.stage i).serves share.id) → share.downloadCount + served.card ≤ m)
      sharedOnce bothResolve := by
  refine ⟨?_, (share_downloads plainHashing downloads sharedOnce (fun _ => rfl) bothResolve).1⟩
  have stage : (bothResolve.foldl (ShareWorld.step plainHashing downloads) sharedOnce).stage true =
      .served ⟨30, 1, 10, ['t'], 100, none, none, none, some 1, 0⟩ [5] := by
    decide
  rw [stage]
  rfl

end Expresso.Drive
