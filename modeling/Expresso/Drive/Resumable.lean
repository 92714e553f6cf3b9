import Expresso.Drive.Patches

/-! The content of a finished upload, over every interleaving of its requests. -/

namespace Expresso.Drive
open Text Transition

/-- About to make the file. -/
def PatchStage.ending : PatchStage → Bool
  | .promoting _ => true
  | .moving _ _ => true
  | _ => false

theorem PatchStage.ending_iff {st : PatchStage} :
    st.ending = true ↔ ∃ up, st = .promoting up ∨ ∃ sha, st = .moving up sha := by
  cases st with
  | promoting up => exact iff_of_true rfl ⟨up, .inl rfl⟩
  | moving up sha => exact iff_of_true rfl ⟨up, .inr ⟨sha, rfl⟩⟩
  | _ => simp [PatchStage.ending]

/-- Past the renaming, and not refused. -/
def PatchStage.making : PatchStage → Bool
  | .recording _ _ _ => true
  | .finalized => true
  | _ => false

/-- The session row that a request goes by. -/
def PatchStage.session : PatchStage → Option UploadSession
  | .opening up => some up
  | .writing up => some up
  | .advancing up => some up
  | .promoting up => some up
  | .moving up _ => some up
  | .recording up _ _ => some up
  | _ => none

def PatchStage.past (st : PatchStage) : Prop :=
  st = .accepted ∨ st.ending = true ∨ st.making = true

variable {ι : Type} {id : Uuid} {requests : ι → PatchRequest} {w : UploadWorld ι}
  {i : ι} {total : Nat}

/-- What holds between any two steps: the accepted bytes are the start of the file, and every
request whose bytes they are is answered with success, or is about to make the file, or has made
it, or found it made. -/
structure Orderly (id : Uuid) (requests : ι → PatchRequest) (total : Nat) (w : UploadWorld ι) :
    Prop where
  rows : ∀ up ∈ w.store.uploads, up.id = id →
    up.offsetBytes = (acceptedBytes requests w).length ∧ up.totalSize = total
  accepted : w.bytes.take (acceptedBytes requests w).length = acceptedBytes requests w
  fits : w.bytes.length ≤ total
  bounded : (acceptedBytes requests w).length ≤ total
  chained : Chained (fun i => (requests i).offset) (fun i => (requests i).body) 0 w.log
  distinct : w.log.Nodup
  sessions : ∀ i up, (w.stage i).session = some up → up.totalSize = total ∧
    up.offsetBytes = (requests i).offset ∧ (requests i).offset + (requests i).body.length ≤ total
  logged : ∀ i ∈ w.log, (w.stage i).past ∨ (w.stage i = .refused ∧ w.place ≠ .part)
  known : ∀ i, (w.stage i).past → i ∈ w.log
  complete : ∀ i, (w.stage i).ending = true ∨ (w.stage i).making = true →
    (acceptedBytes requests w).length = total
  single : w.place = .part → ∀ i, (w.stage i).making = false
  sole : ∀ j, (w.stage j).making = true → ∀ i ∈ w.log, i ≠ j →
    w.stage i = .accepted ∨ (requests i).body = []

theorem orderly_new (new : NewUpload id w) : ∃ total, Orderly id requests total w := by
  obtain ⟨row, bytes, place, stage, log⟩ := new
  obtain ⟨up, member, own, start, long⟩ := row
  have empty : acceptedBytes requests w = [] := by
    unfold acceptedBytes
    rw [log]
    rfl
  have reads : ∀ i, (w.stage i).ending = false ∧ (w.stage i).making = false := by
    intro i
    rw [stage i]
    exact ⟨rfl, rfl⟩
  refine ⟨up.totalSize.toNat, ?_, ?_, ?_, ?_, ?_, ?_, ?_, ?_, ?_, ?_, ?_, ?_⟩
  · intro other inside same
    have one : other = up := List.inj_on_of_nodup_map w.store.unique.2.2.2.2.2.1 inside member
      (same.trans own.symm)
    rw [one, empty, start]
    exact ⟨rfl, (Int.toNat_of_nonneg long).symm⟩
  · rw [empty]
    rfl
  · rw [bytes]
    exact Nat.zero_le _
  · rw [empty]
    exact Nat.zero_le _
  · rw [log]
    trivial
  · rw [log]
    exact .nil
  · intro i up known
    rw [stage i] at known
    cases known
  · intro i member
    rw [log] at member
    cases member
  · intro i past
    rw [stage i] at past
    rcases past with same | ends | makes
    · cases same
    · cases ends
    · cases makes
  · intro i either
    rw [(reads i).1, (reads i).2] at either
    rcases either with ends | makes
    · cases ends
    · cases makes
  · exact fun _ i => (reads i).2
  · intro j makes
    rw [(reads j).2] at makes
    cases makes

/-- The content of a file that an orderly upload has made. -/
theorem Orderly.faithful (orderly : Orderly id requests total w) : Faithful requests w := by
  intro j made l once exactly' sorted
  have makes : (w.stage j).making = true := by rw [made]; rfl
  have whole : w.bytes = acceptedBytes requests w := by
    have full : (acceptedBytes requests w).length = total := orderly.complete j (.inr makes)
    rw [← orderly.accepted, full]
    exact (List.take_of_length_le orderly.fits).symm
  rw [whole]
  unfold acceptedBytes
  apply (joined_sorted orderly.chained orderly.distinct once _ sorted).symm
  intro i full
  rw [exactly' i]
  constructor
  · intro succeeded
    apply orderly.known i
    cases stage : w.stage i with
    | accepted => exact .inl rfl
    | finalized => exact .inr (.inr rfl)
    | _ =>
      rw [stage] at succeeded
      cases succeeded
  · intro member
    by_cases own : i = j
    · rw [own, made]
      trivial
    · rcases orderly.sole j makes i member own with accepted | empty
      · rw [accepted]
        trivial
      · exact absurd empty full

/-- The log has no request that is before the advance. -/
theorem Orderly.outside (orderly : Orderly id requests total w) (before : ¬(w.stage i).past)
    (going : w.stage i ≠ .refused) : i ∉ w.log := by
  intro member
  rcases orderly.logged i member with past | ⟨refused, _⟩
  · exact before past
  · exact going refused

variable [DecidableEq ι]

/-- A step that leaves the log as it is. -/
theorem Orderly.move (orderly : Orderly id requests total w) {h : Shared} {next : PatchStage}
    (rows : ∀ up ∈ h.store.uploads, up ∈ w.store.uploads)
    (accepted : h.bytes.take (acceptedBytes requests w).length = acceptedBytes requests w)
    (fits : h.bytes.length ≤ total) (place : h.place = w.place ∨ h.place ≠ .part)
    (session : ∀ up, next.session = some up → up.totalSize = total ∧
      up.offsetBytes = (requests i).offset ∧
      (requests i).offset + (requests i).body.length ≤ total)
    (logged : i ∈ w.log → next.past ∨ (next = .refused ∧ h.place ≠ .part))
    (known : next.past → i ∈ w.log)
    (complete : next.ending = true ∨ next.making = true →
      (acceptedBytes requests w).length = total)
    (single : h.place = .part → next.making = false)
    (sole : next.making = true → ∀ k ∈ w.log, k ≠ i →
      w.stage k = .accepted ∨ (requests k).body = [])
    (stays : i ∈ w.log → ∀ j, j ≠ i → (w.stage j).making = true →
      next = .accepted ∨ (requests i).body = []) :
    Orderly id requests total { h with stage := Function.update w.stage i next, log := w.log } := by
  have own : Function.update w.stage i next i = next := Function.update_self i next w.stage
  have other : ∀ k, k ≠ i → Function.update w.stage i next k = w.stage k :=
    fun k different => Function.update_of_ne different next w.stage
  refine ⟨fun up member => orderly.rows up (rows up member), accepted, fits, orderly.bounded,
    orderly.chained, orderly.distinct, ?_, ?_, ?_, ?_, ?_, ?_⟩
  · intro k up here
    by_cases same : k = i
    · rw [same] at here ⊢
      exact session up (own ▸ here)
    · exact orderly.sessions k up (other k same ▸ here)
  · intro k member
    by_cases same : k = i
    · rw [same] at member ⊢
      show (Function.update w.stage i next i).past ∨ (Function.update w.stage i next i = _ ∧ _)
      rw [own]
      exact logged member
    · show (Function.update w.stage i next k).past ∨ (Function.update w.stage i next k = _ ∧ _)
      rw [other k same]
      rcases orderly.logged k member with past | ⟨refused, away⟩
      · exact .inl past
      · refine .inr ⟨refused, ?_⟩
        rcases place with equal | moved
        · exact equal ▸ away
        · exact moved
  · intro k past
    by_cases same : k = i
    · rw [same] at past ⊢
      exact known (own ▸ past)
    · exact orderly.known k (other k same ▸ past)
  · intro k either
    by_cases same : k = i
    · rw [same] at either
      exact complete (own ▸ either)
    · exact orderly.complete k (other k same ▸ either)
  · intro isPart k
    by_cases same : k = i
    · rw [same]
      show (Function.update w.stage i next i).making = false
      rw [own]
      exact single isPart
    · show (Function.update w.stage i next k).making = false
      rw [other k same]
      rcases place with equal | moved
      · exact orderly.single (equal ▸ isPart) k
      · exact absurd isPart moved
  · intro j makes k member different
    by_cases first : j = i
    · rw [first] at makes different
      show Function.update w.stage i next k = _ ∨ _
      rw [other k different]
      exact sole (own ▸ makes) k member different
    · have before : (w.stage j).making = true := other j first ▸ makes
      by_cases second : k = i
      · rw [second] at member different ⊢
        show Function.update w.stage i next i = _ ∨ _
        rw [own]
        exact stays member j first before
      · show Function.update w.stage i next k = _ ∨ _
        rw [other k second]
        exact orderly.sole j before k member different

/-- A request that advances the offset over its own bytes. -/
theorem Orderly.advance (orderly : Orderly id requests total w) {up : UploadSession} {s : Store}
    {next : PatchStage} (stage : w.stage i = .advancing up)
    (next_eq : next = if up.offsetBytes + (requests i).body.length = up.totalSize then
      .promoting up else .accepted)
    (own : (w.bytes.drop up.offsetBytes.toNat).take (requests i).body.length = (requests i).body)
    (current : up.offsetBytes = (acceptedBytes requests w).length)
    (rows : ∀ row ∈ s.uploads, row.id = id →
      row.offsetBytes = up.offsetBytes + (requests i).body.length ∧ row.totalSize = total) :
    Orderly id requests total
      ⟨⟨s, w.bytes, w.place⟩, Function.update w.stage i next, w.log ++ [i]⟩ := by
  obtain ⟨size, offset, within⟩ := orderly.sessions i up (by rw [stage]; rfl)
  have isNew : i ∉ w.log := by
    intro member
    rcases orderly.logged i member with (same | ends | makes) | ⟨same, _⟩
    · cases stage.symm.trans same
    · rw [stage] at ends
      cases ends
    · rw [stage] at makes
      cases makes
    · cases stage.symm.trans same
  have offsetAt : (requests i).offset = (acceptedBytes requests w).length := by omega
  have grown : acceptedBytes requests
      ⟨⟨s, w.bytes, w.place⟩, Function.update w.stage i next, w.log ++ [i]⟩ =
        acceptedBytes requests w ++ (requests i).body := joined_snoc
  have length : (acceptedBytes requests
      ⟨⟨s, w.bytes, w.place⟩, Function.update w.stage i next, w.log ++ [i]⟩).length =
        (acceptedBytes requests w).length + (requests i).body.length := by
    rw [grown, List.length_append]
  have isOwn : Function.update w.stage i next i = next := Function.update_self i next w.stage
  have other : ∀ k, k ≠ i → Function.update w.stage i next k = w.stage k :=
    fun k different => Function.update_of_ne different next w.stage
  -- once the upload is complete, only empty chunks are accepted
  have late : (acceptedBytes requests w).length = total → (requests i).body = [] := by
    intro full
    exact List.length_eq_zero_iff.mp (by omega)
  have past : next.past := by
    rw [next_eq]
    split
    · exact .inr (.inl rfl)
    · exact .inl rfl
  have makes : next.making = false := by
    rw [next_eq]
    split <;> rfl
  refine ⟨?_, ?_, orderly.fits, ?_, ?_, ?_, ?_, ?_, ?_, ?_, ?_, ?_⟩
  · intro row member same
    rw [length]
    obtain ⟨advanced, sized⟩ := rows row member same
    exact ⟨by omega, sized⟩
  · rw [length, grown]
    show w.bytes.take _ = _
    rw [List.take_add, orderly.accepted]
    have start : up.offsetBytes.toNat = (acceptedBytes requests w).length := by omega
    rw [← start, own]
  · rw [length]
    omega
  · apply chained_snoc.mpr
    refine ⟨orderly.chained, ?_⟩
    show (requests i).offset = 0 + (acceptedBytes requests w).length
    omega
  · rw [List.nodup_append]
    refine ⟨orderly.distinct, List.nodup_singleton i, ?_⟩
    rintro a member b last rfl
    exact isNew (List.mem_singleton.mp last ▸ member)
  · intro k row here
    by_cases same : k = i
    · rw [same] at here ⊢
      have holds : next.session = some row := isOwn ▸ here
      rw [next_eq] at holds
      split_ifs at holds
      · cases holds
        exact ⟨size, offset, within⟩
      · cases holds
    · exact orderly.sessions k row (other k same ▸ here)
  · intro k member
    show (Function.update w.stage i next k).past ∨ (Function.update w.stage i next k = _ ∧ _)
    by_cases same : k = i
    · rw [same, isOwn]
      exact .inl past
    · rw [other k same]
      rcases List.mem_append.mp member with before | last
      · exact orderly.logged k before
      · exact absurd (List.mem_singleton.mp last) same
  · intro k isPast
    by_cases same : k = i
    · rw [same]
      exact List.mem_append_right _ (List.mem_singleton.mpr rfl)
    · exact List.mem_append_left _ (orderly.known k (other k same ▸ isPast))
  · intro k either
    rw [length]
    by_cases same : k = i
    · rw [same] at either
      have finishes : next.ending = true ∨ next.making = true := isOwn ▸ either
      rw [next_eq] at finishes
      split_ifs at finishes with full
      · omega
      · rcases finishes with ends | makes <;> cases ‹_›
    · have full := orderly.complete k (other k same ▸ either)
      omega
  · intro isPart k
    show (Function.update w.stage i next k).making = false
    by_cases same : k = i
    · rw [same, isOwn]
      exact makes
    · rw [other k same]
      exact orderly.single isPart k
  · intro j made k member different
    by_cases first : j = i
    · rw [first] at made
      have made : next.making = true := isOwn ▸ made
      cases makes.symm.trans made
    · have before : (w.stage j).making = true := other j first ▸ made
      show Function.update w.stage i next k = _ ∨ _
      by_cases second : k = i
      · rw [second]
        exact .inr (late (orderly.complete j (.inr before)))
      · rw [other k second]
        rcases List.mem_append.mp member with earlier | last
        · exact orderly.sole j before k earlier different
        · exact absurd (List.mem_singleton.mp last) second

/-! ### Steps -/

theorem overwrite_length (old body : Octets) (offset : Nat) :
    (overwrite old offset body).length ≤ max old.length (offset + body.length) := by
  unfold overwrite
  split_ifs
  · exact Nat.le_max_left _ _
  · simp only [List.length_append, List.length_take, List.length_replicate, List.length_drop]
    omega

/-- The session that a chunk goes to, and what it meets. -/
theorem checkChunk_ok {ctx : RequestCtx} {chunk : Uploads.Chunk} {now : Int} {s : Store}
    {up : UploadSession} (passed : Uploads.checkChunk ctx id chunk now s = .ok up) :
    up ∈ s.uploads ∧ up.id = id ∧ chunk.uploadOffset = some up.offsetBytes ∧
      up.offsetBytes + chunk.body.length ≤ up.totalSize := by
  obtain ⟨_, rest⟩ := check_bind_ok_iff.mp passed
  obtain ⟨_, rest⟩ := check_bind_ok_iff.mp rest
  obtain ⟨clientOffset, named, rest⟩ := bind_eq_ok_iff.mp rest
  obtain ⟨row, found, rest⟩ := bind_eq_ok_iff.mp rest
  obtain ⟨_, rest⟩ := check_bind_ok_iff.mp rest
  obtain ⟨same, rest⟩ := check_bind_ok_iff.mp rest
  obtain ⟨within, last⟩ := check_bind_ok_iff.mp rest
  cases last
  have held : s.uploads.find? (UploadRepo.held ctx.tenantId id) = some up :=
    orThrow_ok_iff.mp found
  have own := List.find?_some held
  unfold UploadRepo.held at own
  simp only [Bool.and_eq_true, decide_eq_true_eq] at own
  rw [orThrow_ok_iff.mp named, require_ok_iff.mp same]
  exact ⟨List.mem_of_find?_eq_some held, own.1, rfl, require_ok_iff.mp within⟩

theorem orFail_uploads {α : Type} {s : Store} {result : Except DriveError (Store × α)}
    {next : Replacement.Stage}
    (kept : ∀ s' a, result = .ok (s', a) → ∀ up ∈ s'.uploads, up ∈ s.uploads) :
    ∀ up ∈ (Replacement.orFail s result next).1.uploads, up ∈ s.uploads := by
  cases result with
  | ok pair => exact kept pair.1 pair.2 rfl
  | error e => exact fun up => id

/-- The statements of a finalization add no session. -/
theorem step_uploads (r : Replacement) (now : Int) (stage : Replacement.Stage) (s : Store) :
    ∀ up ∈ (r.step now stage s).1.uploads, up ∈ s.uploads := by
  cases stage with
  | archiving existing content versionNo =>
    rw [Replacement.step]
    cases existing.storageKey with
    | none => exact fun up => id
    | some prevKey =>
      apply orFail_uploads
      intro s' a done up member
      obtain ⟨after, inserted, same⟩ := map_eq_ok_iff.mp done
      unfold VersionRepo.insert at inserted
      have tables := commit_ok_iff.mp (mapError_ok.mp inserted)
      have uploads := congrArg Tables.uploads tables
      cases same
      exact uploads ▸ member
  | swapping existing content =>
    apply orFail_uploads
    intro s' row done up member
    obtain ⟨rows, updated⟩ := updateOne_update done
    have tables := update_files updated
    have uploads := congrArg Tables.uploads tables
    exact uploads ▸ member
  | inserting =>
    rw [Replacement.step]
    cases r.newFile with
    | none => exact fun up => id
    | some new =>
      apply orFail_uploads
      intro s' row done up member
      obtain ⟨after, inserted, same⟩ := map_eq_ok_iff.mp done
      have tables := (insertRow_files inserted).1
      have uploads := congrArg Tables.uploads tables
      cases same
      exact uploads ▸ member
  | closing =>
    cases r with
    | finalize ctx up sha256 newId =>
      apply orFail_uploads
      intro s' a done row member
      obtain ⟨after, committed, same⟩ := map_eq_ok_iff.mp done
      have tables := commit_ok_iff.mp (mapError_ok.mp committed)
      have uploads := congrArg Tables.uploads tables
      cases same
      rw [uploads] at member
      exact (List.mem_filter.mp member).1
    | _ => exact fun up => id
  | _ => exact fun up => id

theorem advanceOffset_ok {tenantId : Uuid} {expected newOffset : Int} {s s' : Store}
    {result : Option Int}
    (done : UploadRepo.advanceOffset tenantId id expected newOffset s = .ok (s', result)) :
    (∀ row ∈ s'.uploads, ∃ before ∈ s.uploads,
      row = if UploadRepo.held tenantId id before && before.offsetBytes = expected then
        { before with offsetBytes := newOffset } else before) ∧
    (result.isSome ↔ ∃ row ∈ s.uploads, UploadRepo.held tenantId id row = true ∧
      row.offsetBytes = expected) := by
  unfold UploadRepo.advanceOffset at done
  obtain ⟨after, committed, same⟩ := map_eq_ok_iff.mp done
  have tables := commit_ok_iff.mp (mapError_ok.mp committed)
  have uploads := congrArg Tables.uploads tables
  cases same
  constructor
  · intro row member
    rw [uploads] at member
    obtain ⟨before, inside, same⟩ := List.mem_map.mp member
    exact ⟨before, inside, same.symm⟩
  · have found : (s.uploads.any fun up =>
        UploadRepo.held tenantId id up && up.offsetBytes = expected) = true ↔
        ∃ row ∈ s.uploads, UploadRepo.held tenantId id row = true ∧ row.offsetBytes = expected := by
      rw [List.any_eq_true]
      simp only [Bool.and_eq_true, decide_eq_true_eq]
    rw [← found]
    split_ifs with any
    · exact iff_of_true rfl any
    · exact iff_of_false nofun any

/-- A request that stays before the advance, or is refused there, and changes no table. -/
theorem Orderly.early (orderly : Orderly id requests total w) {h : Shared} {next : PatchStage}
    (rows : ∀ up ∈ h.store.uploads, up ∈ w.store.uploads)
    (accepted : h.bytes.take (acceptedBytes requests w).length = acceptedBytes requests w)
    (fits : h.bytes.length ≤ total) (place : h.place = w.place) (outside : i ∉ w.log)
    (early : ¬next.past) (session : ∀ up, next.session = some up → up.totalSize = total ∧
      up.offsetBytes = (requests i).offset ∧
      (requests i).offset + (requests i).body.length ≤ total) :
    Orderly id requests total { h with stage := Function.update w.stage i next, log := w.log } := by
  have calm : next.ending = false ∧ next.making = false := by
    constructor
    · by_contra ends
      exact early (.inr (.inl (by simpa using ends)))
    · by_contra makes
      exact early (.inr (.inr (by simpa using makes)))
  apply orderly.move rows accepted fits (.inl place) session
  · exact fun member => absurd member outside
  · exact fun past => absurd past early
  · rw [calm.1, calm.2]
    rintro (ends | makes)
    · cases ends
    · cases makes
  · exact fun _ => calm.2
  · rw [calm.2]
    exact nofun
  · exact fun member => absurd member outside

variable {sha256 : Octets → Str}

/-- A request before the advance is neither accepted nor about to make the file. -/
theorem PatchStage.not_past {st : PatchStage} (waiting : st ≠ .accepted) (ends : st.ending = false)
    (makes : st.making = false) : ¬st.past := by
  rintro (same | ending | making)
  · exact waiting same
  · cases ends.symm.trans ending
  · cases makes.symm.trans making

theorem orderly_reading {now : Int} (orderly : Orderly id requests total w)
    (stage : w.stage i = .reading) :
    let after := (requests i).step sha256 id now .reading w.toShared
    Orderly id requests total
      { after.1 with stage := Function.update w.stage i after.2, log := w.log } := by
  have outside : i ∉ w.log :=
    orderly.outside (stage ▸ PatchStage.not_past nofun rfl rfl) (stage ▸ nofun)
  simp only [PatchRequest.step]
  cases passed : Uploads.checkChunk (requests i).ctx id (requests i).chunk now w.store with
  | error e =>
    exact orderly.early (fun _ same => same) orderly.accepted orderly.fits rfl outside
      (PatchStage.not_past nofun rfl rfl) nofun
  | ok up =>
    refine orderly.early (fun _ same => same) orderly.accepted orderly.fits rfl outside
      (by exact PatchStage.not_past nofun rfl rfl) ?_
    intro row same
    cases same
    obtain ⟨member, own, named, within⟩ := checkChunk_ok passed
    obtain ⟨offset, size⟩ := orderly.rows up member own
    have isOffset : (requests i).offset = (acceptedBytes requests w).length := by
      unfold PatchRequest.offset
      rw [named, offset]
      rfl
    refine ⟨size, by omega, ?_⟩
    show _ + (requests i).chunk.body.length ≤ total
    omega

theorem orderly_opening {now : Int} {up : UploadSession} (orderly : Orderly id requests total w)
    (stage : w.stage i = .opening up) :
    let after := (requests i).step sha256 id now (.opening up) w.toShared
    Orderly id requests total
      { after.1 with stage := Function.update w.stage i after.2, log := w.log } := by
  have outside : i ∉ w.log :=
    orderly.outside (stage ▸ PatchStage.not_past nofun rfl rfl) (stage ▸ nofun)
  have session := orderly.sessions i up (by rw [stage]; rfl)
  simp only [PatchRequest.step]
  apply orderly.early (fun _ same => same) orderly.accepted orderly.fits rfl outside
  · split_ifs
    · exact PatchStage.not_past nofun rfl rfl
    · exact PatchStage.not_past nofun rfl rfl
  · intro row known
    split_ifs at known
    · cases known
      exact session
    · cases known

theorem orderly_writing {now : Int} {up : UploadSession} (orderly : Orderly id requests total w)
    (stage : w.stage i = .writing up)
    (clear : (overwrite w.bytes up.offsetBytes.toNat (requests i).body).take
      (acceptedBytes requests w).length = w.bytes.take (acceptedBytes requests w).length) :
    let after := (requests i).step sha256 id now (.writing up) w.toShared
    Orderly id requests total
      { after.1 with stage := Function.update w.stage i after.2, log := w.log } := by
  have outside : i ∉ w.log :=
    orderly.outside (stage ▸ PatchStage.not_past nofun rfl rfl) (stage ▸ nofun)
  have session := orderly.sessions i up (by rw [stage]; rfl)
  simp only [PatchRequest.step]
  refine orderly.early (fun _ same => same) (clear.trans orderly.accepted) ?_ rfl outside
    (by exact PatchStage.not_past nofun rfl rfl) ?_
  · have long := overwrite_length w.bytes (requests i).body up.offsetBytes.toNat
    have fits := orderly.fits
    have last := session.2.2
    have offset := session.2.1
    show (overwrite w.bytes up.offsetBytes.toNat (requests i).body).length ≤ total
    omega
  · intro row known
    cases known
    exact session

theorem orderly_advancing {now : Int} {up : UploadSession} (orderly : Orderly id requests total w)
    (stage : w.stage i = .advancing up)
    (clear : (∃ row ∈ w.store.uploads, UploadRepo.held (requests i).ctx.tenantId id row = true ∧
        row.offsetBytes = up.offsetBytes) →
      (w.bytes.drop up.offsetBytes.toNat).take (requests i).body.length = (requests i).body) :
    let after := (requests i).step sha256 id now (.advancing up) w.toShared
    Orderly id requests total
      { after.1 with
        stage := Function.update w.stage i after.2
        log := if advances (.advancing up) after.2 then w.log ++ [i] else w.log } := by
  have outside : i ∉ w.log :=
    orderly.outside (stage ▸ PatchStage.not_past nofun rfl rfl) (stage ▸ nofun)
  cases done : UploadRepo.advanceOffset (requests i).ctx.tenantId id up.offsetBytes
      (up.offsetBytes + (requests i).chunk.body.length) w.store with
  | error e =>
    simp only [PatchRequest.step, done]
    exact orderly.early (fun _ same => same) orderly.accepted orderly.fits rfl outside
      (PatchStage.not_past nofun rfl rfl) nofun
  | ok pair =>
    obtain ⟨s, result⟩ := pair
    obtain ⟨rows, found⟩ := advanceOffset_ok done
    cases result with
    | none =>
      simp only [PatchRequest.step, done]
      refine orderly.early ?_ orderly.accepted orderly.fits rfl outside
        (PatchStage.not_past nofun rfl rfl) nofun
      intro row member
      obtain ⟨before, inside, same⟩ := rows row member
      have unselected : ¬(UploadRepo.held (requests i).ctx.tenantId id before = true ∧
          before.offsetBytes = up.offsetBytes) := by
        intro selected
        exact Bool.noConfusion (found.mpr ⟨before, inside, selected⟩)
      simp only [Bool.and_eq_true, decide_eq_true_eq, if_neg unselected] at same
      exact same ▸ inside
    | some newOffset =>
      obtain ⟨old, inside, held, current⟩ := found.mp rfl
      have own : old.id = id := by
        unfold UploadRepo.held at held
        simp only [Bool.and_eq_true, decide_eq_true_eq] at held
        exact held.1
      obtain ⟨offset, size⟩ := orderly.rows old inside own
      have advanced := orderly.advance (s := s) stage rfl (clear ⟨old, inside, held, current⟩)
        (current ▸ offset) (by
          intro row member same
          obtain ⟨before, present, equal⟩ := rows row member
          have named : before.id = id := by
            rw [equal] at same
            split_ifs at same <;> exact same
          have one : before = old := List.inj_on_of_nodup_map w.store.unique.2.2.2.2.2.1 present
            inside (named.trans own.symm)
          rw [one, held, current] at equal
          simp only [Bool.true_and, decide_true, if_true] at equal
          rw [equal]
          exact ⟨rfl, size⟩)
      have moved : advances (.advancing up) (if up.offsetBytes + (requests i).chunk.body.length =
          up.totalSize then .promoting up else .accepted) = true := by
        split_ifs <;> rfl
      simp only [PatchRequest.step, done, moved, if_true]
      exact advanced

/-- A request that is refused because the part file is no longer there. -/
theorem Orderly.late (orderly : Orderly id requests total w) (ends : (w.stage i).ending = true)
    (away : w.place ≠ .part) :
    Orderly id requests total
      { w.toShared with stage := Function.update w.stage i .refused, log := w.log } := by
  have calm : ¬PatchStage.refused.past := PatchStage.not_past nofun rfl rfl
  have member : i ∈ w.log := orderly.known i (.inr (.inl ends))
  refine orderly.move (fun _ same => same) orderly.accepted orderly.fits (.inl rfl) nofun
    (fun _ => .inr ⟨rfl, away⟩) (fun past => absurd past calm) ?_ (fun _ => rfl) nofun ?_
  · intro either
    rcases either with ending | making
    · cases ending
    · cases making
  · intro _ j different makes
    rcases orderly.sole j makes i member different.symm with accepted | empty
    · rw [accepted] at ends
      cases ends
    · exact .inr empty

theorem orderly_promoting {now : Int} {up : UploadSession} (orderly : Orderly id requests total w)
    (stage : w.stage i = .promoting up) :
    let after := (requests i).step sha256 id now (.promoting up) w.toShared
    Orderly id requests total
      { after.1 with stage := Function.update w.stage i after.2, log := w.log } := by
  have ends : (w.stage i).ending = true := by rw [stage]; rfl
  have member : i ∈ w.log := orderly.known i (.inr (.inl ends))
  simp only [PatchRequest.step]
  by_cases isPart : w.place = .part
  · rw [if_pos isPart]
    refine orderly.move (fun _ same => same) orderly.accepted orderly.fits (.inl rfl) ?_
      (fun _ => .inl (.inr (.inl rfl))) (fun _ => member)
      (fun _ => orderly.complete i (.inl ends)) (fun _ => rfl) nofun ?_
    · intro row known
      cases known
      exact orderly.sessions i up (by rw [stage]; rfl)
    · intro _ j _ makes
      cases (orderly.single isPart j).symm.trans makes
  · rw [if_neg isPart]
    exact orderly.late ends isPart

theorem orderly_moving {now : Int} {up : UploadSession} {sha : Str}
    (orderly : Orderly id requests total w) (stage : w.stage i = .moving up sha)
    (clear : w.place = .part → ∀ k, k ≠ i →
      (∃ up, w.stage k = .promoting up ∨ ∃ sha, w.stage k = .moving up sha) →
      (requests k).body = []) :
    let after := (requests i).step sha256 id now (.moving up sha) w.toShared
    Orderly id requests total
      { after.1 with stage := Function.update w.stage i after.2, log := w.log } := by
  have ends : (w.stage i).ending = true := by rw [stage]; rfl
  have member : i ∈ w.log := orderly.known i (.inr (.inl ends))
  simp only [PatchRequest.step]
  by_cases isPart : w.place = .part
  · rw [if_pos isPart]
    refine orderly.move (fun _ same => same) orderly.accepted orderly.fits (.inr nofun) ?_
      (fun _ => .inl (.inr (.inr rfl))) (fun _ => member)
      (fun _ => orderly.complete i (.inl ends)) nofun ?_ ?_
    · intro row known
      cases known
      exact orderly.sessions i up (by rw [stage]; rfl)
    · intro _ k inside different
      rcases orderly.logged k inside with (accepted | ending | making) | ⟨_, away⟩
      · exact .inl accepted
      · exact .inr (clear isPart k different (PatchStage.ending_iff.mp ending))
      · cases (orderly.single isPart k).symm.trans making
      · exact absurd isPart away
    · intro _ j _ makes
      cases (orderly.single isPart j).symm.trans makes
  · rw [if_neg isPart]
    exact orderly.late ends isPart

/-- A request that has made the file and goes on to another statement, ends or is refused. -/
theorem Orderly.record (orderly : Orderly id requests total w) {h : Shared} {next : PatchStage}
    (makes : (w.stage i).making = true) (rows : ∀ up ∈ h.store.uploads, up ∈ w.store.uploads)
    (bytes : h.bytes = w.bytes) (place : h.place = w.place ∨ h.place ≠ .part)
    (goes : next = .refused ∨ next.making = true)
    (session : ∀ up, next.session = some up → (w.stage i).session = some up) :
    Orderly id requests total { h with stage := Function.update w.stage i next, log := w.log } := by
  have member : i ∈ w.log := orderly.known i (.inr (.inr makes))
  have before : w.place ≠ .part := by
    intro isPart
    cases (orderly.single isPart i).symm.trans makes
  have away : h.place ≠ .part := by
    rcases place with same | moved
    · exact same ▸ before
    · exact moved
  refine orderly.move rows (bytes ▸ orderly.accepted) (bytes ▸ orderly.fits) place
    (fun up known => orderly.sessions i up (session up known)) ?_ (fun _ => member)
    (fun _ => orderly.complete i (.inr makes)) (fun isPart => absurd isPart away)
    (fun _ => orderly.sole i makes) ?_
  · intro _
    rcases goes with refused | making
    · exact .inr ⟨refused, away⟩
    · exact .inl (.inr (.inr making))
  · intro _ j different making
    rcases orderly.sole j making i member different.symm with accepted | empty
    · rw [accepted] at makes
      cases makes
    · exact .inr empty

theorem orderly_recording {now : Int} {up : UploadSession} {sha : Str} {next : Replacement.Stage}
    (orderly : Orderly id requests total w) (stage : w.stage i = .recording up sha next) :
    let after := (requests i).step sha256 id now (.recording up sha next) w.toShared
    Orderly id requests total
      { after.1 with stage := Function.update w.stage i after.2, log := w.log } := by
  have makes : (w.stage i).making = true := by rw [stage]; rfl
  have rows := step_uploads (.finalize (requests i).ctx up sha (requests i).newId) now next w.store
  simp only [PatchRequest.step, PatchRequest.record]
  rcases taken : (Replacement.finalize (requests i).ctx up sha (requests i).newId).step now next
    w.store with ⟨s, answer⟩
  rw [taken] at rows
  split
  · exact orderly.record makes rows rfl (.inl rfl) (.inr rfl) nofun
  · exact orderly.record makes rows rfl (.inr nofun) (.inl rfl) nofun
  · exact orderly.record makes rows rfl (.inl rfl) (.inl rfl) nofun
  · refine orderly.record makes rows rfl (.inl rfl) (.inr (by rfl)) ?_
    intro row known
    rw [stage]
    exact known

theorem orderly_step {turn : ι × Int}
    (orderly : Orderly id requests total w) (clear : Undisturbed id requests w turn) :
    Orderly id requests total (w.step sha256 id requests turn) := by
  obtain ⟨i, now⟩ := turn
  unfold Undisturbed at clear
  -- the last stages change nothing
  have rest : ∀ st, w.stage i = st →
      { w.toShared with stage := Function.update w.stage i st, log := w.log } = w := by
    intro st stage
    rw [← stage, Function.update_eq_self]
  unfold UploadWorld.step
  cases stage : w.stage i with
  | reading => exact orderly_reading orderly stage
  | opening up => exact orderly_opening orderly stage
  | writing up =>
    simp only [stage] at clear
    exact orderly_writing orderly stage clear
  | advancing up =>
    simp only [stage] at clear
    exact orderly_advancing orderly stage clear
  | promoting up => exact orderly_promoting orderly stage
  | moving up sha =>
    simp only [stage] at clear
    exact orderly_moving orderly stage clear
  | recording up sha next => exact orderly_recording orderly stage
  | accepted => exact (rest _ stage).symm ▸ orderly
  | finalized => exact (rest _ stage).symm ▸ orderly
  | refused => exact (rest _ stage).symm ▸ orderly

/-! ### Runs -/

/-- The file that an upload makes has the bodies of the requests that were answered with success,
as long as no step disturbs what has been accepted. -/
theorem upload_integrity (sha256 : Octets → Str) (id : Uuid) (requests : ι → PatchRequest)
    (w : UploadWorld ι) (new : NewUpload id w) (turns : List (ι × Int))
    (clear : EachStep (UploadWorld.step sha256 id requests) (Undisturbed id requests) w turns) :
    Throughout (UploadWorld.step sha256 id requests) (Faithful requests) w turns := by
  obtain ⟨total, orderly⟩ := orderly_new new
  have throughout := EachStep.throughout
    (fun w turn (holds : Orderly id requests total w) undisturbed => orderly_step holds undisturbed)
    orderly clear
  exact throughout.imp fun w holds => holds.faithful

/-- Two requests with different bytes for an upload of one byte. -/
def oneByte (first : Bool) : PatchRequest :=
  ⟨⟨1, 7⟩, ⟨"application/offset+octet-stream".toList, some 0, [if first then 1 else 2]⟩, 20⟩

def newUpload : UploadWorld Bool where
  store := ⟨{ emptyTables with
    uploads := [⟨10, 1, 7, none, ['a'], none, 1, 0, 100, 5⟩] }, by decide, by decide⟩
  bytes := []
  place := .part
  stage := fun _ => .reading
  log := []

theorem newUpload_new : NewUpload 10 newUpload :=
  ⟨⟨_, List.mem_singleton.mpr rfl, rfl, rfl, by decide⟩, rfl, rfl, fun _ => rfl, rfl⟩

instance {w : UploadWorld Bool} {turn : Bool × Int} :
    Decidable (Undisturbed 10 oneByte w turn) := by
  delta Undisturbed
  exact match w.stage turn.1 with
  | .writing _ => inferInstanceAs (Decidable (_ = _))
  | .advancing _ => inferInstanceAs (Decidable ((∃ _ ∈ _, _ ∧ _) → _))
  | .moving _ _ => decidable_of_iff
      (w.place = .part → ∀ i, i ≠ turn.1 → (w.stage i).ending = true → (oneByte i).body = [])
      (by simp only [PatchStage.ending_iff])
  | .reading | .opening _ | .promoting _ | .recording _ _ _ | .accepted | .finalized
  | .refused => .isTrue trivial

/-- The first request makes the file before the second one comes. -/
def oneByOne : List (Bool × Int) := List.replicate 10 (true, 0) ++ List.replicate 2 (false, 0)

theorem upload_integrity_one_by_one :
    (oneByOne.foldl (UploadWorld.step noHash 10 oneByte) newUpload).bytes = [1] ∧
      Throughout (UploadWorld.step noHash 10 oneByte) (Faithful oneByte) newUpload oneByOne :=
  ⟨by decide, upload_integrity noHash 10 oneByte newUpload newUpload_new oneByOne
    (by decide)⟩

/-- Both write, the first one is answered with success, and the file has the byte of the second. -/
def overlapping : List (Bool × Int) :=
  List.replicate 2 (true, 0) ++ List.replicate 2 (false, 0) ++ [(true, 0), (false, 0)] ++
    List.replicate 8 (true, 0) ++ [(false, 0)]

theorem refused_chunk_written :
    let w := overlapping.foldl (UploadWorld.step noHash 10 oneByte) newUpload
    w.stage true = .finalized ∧ w.stage false = .refused ∧ w.bytes = [2] ∧ ¬Faithful oneByte w := by
  intro w
  have facts : w.stage true = .finalized ∧ w.stage false = .refused ∧ w.bytes = [2] := by
    decide
  obtain ⟨first, second, bytes⟩ := facts
  refine ⟨first, second, bytes, ?_⟩
  intro faithful
  have content := faithful true first [true] (List.nodup_singleton true) (by
    intro i
    cases i with
    | true => exact iff_of_true (List.mem_singleton.mpr rfl) (first ▸ trivial)
    | false =>
      refine iff_of_false (by decide) ?_
      rw [second]
      exact id) (List.pairwise_singleton _ true)
  cases bytes.symm.trans content

end Expresso.Drive
