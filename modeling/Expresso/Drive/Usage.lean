import Expresso.Drive.Replacements

/-! The bytes that a tenant uses, over interleavings of the requests that add to them. What is
looked up in a quota is spent some statements later, or not looked up at all. -/

namespace Expresso.Drive
open Text Transition

/-! ### Requests -/

/-- A request that may add to what its tenant uses. A generated id is no id of a source. -/
inductive Spending where
  | upload (ctx : RequestCtx) (form : UploadForm) (bytes : Octets) (gen : Generated)
  | put (ctx : RequestCtx) (id : Uuid) (content : FileRepo.Content)
  | resumable (ctx : RequestCtx) (headers : Uploads.Creation) (gen : Generated) (sha256 : Str)
      (newId : Uuid)
  | copy (ctx : RequestCtx) (id : Uuid) (name : Option Str) (parentId : Option Uuid) (newId : Uuid)
  | bulkCopy (ctx : RequestCtx) (sources : List (Uuid × Uuid)) (parentId : Option Uuid)
      (fresh : ∀ source ∈ sources, ∀ other ∈ sources, source.1 ≠ other.2)
  | restore (ctx : RequestCtx) (id : Uuid)

namespace Spending

inductive Stage where
  | checking
  | creating (up : UploadSession)
  | uploading (up : UploadSession)
  | replacing (r : Replacement) (stage : Replacement.Stage)
  | copying (name : Str)
  | restoring
  | answered (success : Bool)

def orStop {α : Type} (result : Except DriveError α) (next : α → Stage) : Stage :=
  match result with
  | .ok a => next a
  | .error _ => .answered false

def orFail {α : Type} (s : Store) (result : Except DriveError (Store × α)) (next : α → Stage) :
    Store × Stage :=
  match result with
  | .ok (s', a) => (s', next a)
  | .error _ => (s, .answered false)

variable (sha256 : Octets → Str)

/-- What is looked up first. A restoration from the trash looks up nothing. -/
def check (now : Int) (s : Store) : Spending → Stage
  | upload ctx form bytes gen => orStop (uploadGates ctx form bytes s) fun name =>
      .replacing (.upload ctx form.parentId name
        ⟨gen.key, bytes.length, some (sha256 bytes), form.mime⟩ gen.id) .finding
  | put ctx id content =>
      if (QuotaRepo.get ctx.tenantId s).fits content.sizeBytes then
        .replacing (.put ctx id content) .finding
      else .answered false
  | resumable ctx headers gen _ _ => orStop (Uploads.checkCreation ctx headers s)
      fun (total, name, parentId) => .creating ⟨gen.id, ctx.tenantId, ctx.userId, parentId, name,
        headers.filetype, total, 0, gen.key, now + 30 * day⟩
  | copy ctx id name parentId _ => orStop (copyGates ctx id name parentId s) .copying
  | bulkCopy ctx sources parentId _ =>
      orStop (bulkCopyGates ctx (sources.map (·.1)) parentId s) fun _ => .copying []
  | restore _ _ => .restoring

/-- One statement of a request. The bytes of a session may come at any time before its end. -/
def step (r : Spending) (now : Int) (stage : Stage) (s : Store) : Store × Stage :=
  match stage with
  | .checking => (s, r.check sha256 now s)
  | .creating up => orFail s (UploadRepo.insert up s) .uploading
  | .uploading up => match r with
      | resumable ctx _ _ sha newId => (s, .replacing (.finalize ctx up sha newId) .finding)
      | _ => (s, .answered false)
  | .replacing replacement stage =>
      let (s', next) := replacement.step now stage s
      (s', .replacing replacement next)
  | .copying name => match r with
      | copy ctx id _ parentId newId =>
          orFail s (FileRepo.copyFile ctx.tenantId ctx.userId id name parentId newId now s)
            fun _ => .answered true
      | bulkCopy ctx sources parentId _ =>
          orFail s (FileRepo.bulkCopyFiles ctx.tenantId ctx.userId parentId now sources s)
            fun _ => .answered true
      | _ => (s, .answered false)
  | .restoring => match r with
      | restore ctx id => orFail s (FileRepo.restore ctx.tenantId id now s) fun _ => .answered true
      | _ => (s, .answered false)
  | .answered success => (s, .answered success)

end Spending

structure SpendingWorld (ι : Type) where
  store : Store
  stage : ι → Spending.Stage

def SpendingWorld.step {ι : Type} [DecidableEq ι] (sha256 : Octets → Str)
    (requests : ι → Spending) (w : SpendingWorld ι) (turn : ι × Int) : SpendingWorld ι :=
  let after := (requests turn.1).step sha256 turn.2 (w.stage turn.1) w.store
  ⟨after.1, Function.update w.stage turn.1 after.2⟩

/-! ### What a statement adds -/

/-- What a row counts for in what a tenant uses. -/
def counted (tenantId : Uuid) (f : DriveFile) : Int :=
  if f.tenantId = tenantId && f.deletedAt.isNone && f.kind = .file then f.sizeBytes else 0

def countedVersion (tenantId : Uuid) (v : FileVersion) : Int :=
  if v.tenantId = tenantId then v.sizeBytes else 0

variable (tenantId : Uuid)

/-- What the change of the selected row adds. -/
def added (selected : DriveFile → Bool) (change : DriveFile → DriveFile) (s : Store) : Int :=
  ((s.files.find? selected).map fun f => counted tenantId (change f) - counted tenantId f).getD 0

/-- What a copy of the live row of this id adds. -/
def addedCopy (ctx : RequestCtx) (id : Uuid) (s : Store) : Int :=
  ((FileRepo.find ctx.tenantId id s).map (counted tenantId)).getD 0

/-- What the next statement of a replacement adds. A version counts besides the new content. -/
def Replacement.spent (r : Replacement) (now : Int) (stage : Replacement.Stage) (s : Store) : Int :=
  match stage with
  | .archiving existing _ _ =>
      if existing.storageKey.isSome ∧ r.ctx.tenantId = tenantId then existing.sizeBytes else 0
  | .swapping existing content =>
      added tenantId (liveIn r.ctx.tenantId existing.id) (FileRepo.withContent content now) s
  | .inserting => match r.newFile with
      | some (f, newId) => counted tenantId (FileRepo.newRow f newId now)
      | none => 0
  | _ => 0

/-- What the next statement of a request adds. -/
def Spending.spent (r : Spending) (now : Int) (stage : Stage) (s : Store) : Int :=
  match stage with
  | .replacing replacement stage => replacement.spent tenantId now stage s
  | .copying _ => match r with
      | copy ctx id _ _ _ => addedCopy tenantId ctx id s
      | bulkCopy ctx sources _ _ =>
          (sources.map fun source => addedCopy tenantId ctx source.1 s).sum
      | _ => 0
  | .restoring => match r with
      | restore ctx id =>
          added tenantId (FileRepo.among ctx.tenantId [id] false) (FileRepo.restored now) s
      | _ => 0
  | _ => 0

/-- What is used is within the quota. -/
def Within (s : Store) : Prop := QuotaRepo.used tenantId s ≤ (QuotaRepo.get tenantId s).maxBytes

/-- What the next statement adds fits at the time it is made. -/
def Affords {ι : Type} (requests : ι → Spending) (w : SpendingWorld ι) (turn : ι × Int) : Prop :=
  QuotaRepo.used tenantId w.store +
      (requests turn.1).spent tenantId turn.2 (w.stage turn.1) w.store ≤
    (QuotaRepo.get tenantId w.store).maxBytes

/-! ### Sums over rows -/

section
variable {α : Type} {l : List α}

theorem sum_filter (p : α → Bool) (f : α → Int) :
    ((l.filter p).map f).sum = (l.map fun a => if p a then f a else 0).sum := by
  induction l with
  | nil => rfl
  | cons a rest ih =>
    rw [List.map_cons, List.sum_cons, ← ih]
    by_cases chosen : p a = true
    · rw [List.filter_cons_of_pos chosen, if_pos chosen, List.map_cons, List.sum_cons]
    · rw [List.filter_cons_of_neg chosen, if_neg chosen, Int.zero_add]

/-- What the changes of the chosen elements add to a sum. -/
theorem sum_changed (p : α → Bool) (change : α → α) (f : α → Int) :
    ((l.map fun a => if p a then change a else a).map f).sum =
      (l.map f).sum + ((l.filter p).map fun a => f (change a) - f a).sum := by
  induction l with
  | nil => rfl
  | cons a rest ih =>
    rw [List.map_cons, List.map_cons, List.sum_cons, ih, List.map_cons, List.sum_cons]
    by_cases chosen : p a = true
    · rw [if_pos chosen, List.filter_cons_of_pos chosen, List.map_cons, List.sum_cons]
      omega
    · rw [if_neg chosen, List.filter_cons_of_neg chosen]
      omega

/-- The chosen elements, if there is at most one of them. -/
theorem filter_eq_find (p : α → Bool) (once : l.Nodup)
    (single : ∀ a ∈ l, ∀ b ∈ l, p a = true → p b = true → a = b) :
    l.filter p = (l.find? p).toList := by
  cases found : l.find? p with
  | none => exact List.filter_eq_nil_iff.mpr (List.find?_eq_none.mp found)
  | some a =>
    have member := List.mem_of_find?_eq_some found
    have chosen := List.find?_some found
    apply List.Perm.eq_singleton
    rw [List.perm_ext_iff_of_nodup (once.filter p) (List.nodup_singleton a)]
    intro b
    rw [List.mem_filter, List.mem_singleton]
    exact ⟨fun ⟨inside, also⟩ => single b inside a member also chosen, fun same =>
      same ▸ ⟨member, chosen⟩⟩

end

variable {tenantId} {s s' : Store} {selected : DriveFile → Bool} {now : Int}

theorem used_eq : QuotaRepo.used tenantId s =
    (s.files.map (counted tenantId)).sum + (s.versions.map (countedVersion tenantId)).sum := by
  unfold QuotaRepo.used
  rw [sum_filter, sum_filter]
  unfold counted countedVersion
  simp only [decide_eq_true_eq]

/-- What is used after the change of at most one row. -/
theorem used_changed (change : DriveFile → DriveFile)
    (single : ∀ f, selected f = true → ∀ g, selected g = true → f.id = g.id)
    (files : s'.files = s.files.map fun f => if selected f then change f else f)
    (versions : s'.versions = s.versions) :
    QuotaRepo.used tenantId s' = QuotaRepo.used tenantId s + added tenantId selected change s := by
  have rows : ((s.files.filter selected).map fun f =>
      counted tenantId (change f) - counted tenantId f).sum = added tenantId selected change s := by
    rw [filter_eq_find selected (List.Nodup.of_map _ s.unique.1) fun f inside g known first second =>
      List.inj_on_of_nodup_map s.unique.1 inside known (single f first g second)]
    unfold added
    cases s.files.find? selected with
    | none => rfl
    | some f => exact Int.add_zero _
  rw [used_eq, used_eq, files, versions, sum_changed, rows]
  omega

theorem used_inserted {row : DriveFile} (files : s'.files = s.files ++ [row])
    (versions : s'.versions = s.versions) :
    QuotaRepo.used tenantId s' = QuotaRepo.used tenantId s + counted tenantId row := by
  rw [used_eq, used_eq, files, versions, List.map_append, List.sum_append, List.map_singleton,
    List.sum_singleton]
  omega

theorem used_archived {v : FileVersion} (files : s'.files = s.files)
    (versions : s'.versions = s.versions ++ [v]) :
    QuotaRepo.used tenantId s' = QuotaRepo.used tenantId s + countedVersion tenantId v := by
  rw [used_eq, used_eq, files, versions, List.map_append, List.sum_append, List.map_singleton,
    List.sum_singleton]
  omega

theorem used_same (files : s'.files = s.files) (versions : s'.versions = s.versions) :
    QuotaRepo.used tenantId s' = QuotaRepo.used tenantId s := by
  rw [used_eq, used_eq, files, versions]

/-! ### One statement -/

/-- A statement is refused, or adds so much to what is used. -/
def Adds (tenantId : Uuid) (s s' : Store) (n : Int) : Prop :=
  s' = s ∨ QuotaRepo.used tenantId s' = QuotaRepo.used tenantId s + n ∧ s'.quotas = s.quotas

theorem Adds.within {n : Int} (adds : Adds tenantId s s' n) (within : Within tenantId s)
    (fits : QuotaRepo.used tenantId s + n ≤ (QuotaRepo.get tenantId s).maxBytes) :
    Within tenantId s' := by
  rcases adds with same | ⟨used, quotas⟩
  · exact same ▸ within
  · unfold Within QuotaRepo.get
    rw [used, quotas]
    exact fits

theorem adds_orFail {α : Type} {result : Except DriveError (Store × α)} {n : Int}
    {next : Replacement.Stage} (adds : ∀ s' a, result = .ok (s', a) → Adds tenantId s s' n) :
    Adds tenantId s (Replacement.orFail s result next).1 n := by
  cases result with
  | error e => exact .inl rfl
  | ok pair => exact adds pair.1 pair.2 rfl

theorem adds_updateOne {id : Uuid} (change : DriveFile → DriveFile) {row : DriveFile}
    (single : ∀ f, selected f = true → ∀ g, selected g = true → f.id = g.id)
    (done : FileRepo.updateOne id selected change s = .ok (s', row)) :
    Adds tenantId s s' (added tenantId selected change s) := by
  obtain ⟨rows, updated⟩ := updateOne_update done
  have tables := update_files updated
  have files := congrArg Tables.files tables
  have versions := congrArg Tables.versions tables
  have quotas := congrArg Tables.quotas tables
  exact .inr ⟨used_changed change single files versions, quotas⟩

theorem adds_insertRow {row : DriveFile} (done : FileRepo.insertRow row s = .ok s') :
    Adds tenantId s s' (counted tenantId row) := by
  have tables := (insertRow_files done).1
  have files := congrArg Tables.files tables
  have versions := congrArg Tables.versions tables
  have quotas := congrArg Tables.quotas tables
  exact .inr ⟨used_inserted files versions, quotas⟩

theorem adds_version {v : FileVersion} (done : VersionRepo.insert v s = .ok s') :
    Adds tenantId s s' (countedVersion tenantId v) := by
  unfold VersionRepo.insert at done
  have tables := commit_ok_iff.mp (mapError_ok.mp done)
  have files := congrArg Tables.files tables
  have versions := congrArg Tables.versions tables
  have quotas := congrArg Tables.quotas tables
  exact .inr ⟨used_archived files versions, quotas⟩

theorem liveIn_single {owner id : Uuid} (f : DriveFile) (first : liveIn owner id f = true)
    (g : DriveFile) (second : liveIn owner id g = true) : f.id = g.id := by
  unfold liveIn at first second
  simp only [Bool.and_eq_true, decide_eq_true_eq] at first second
  exact first.1.1.trans second.1.1.symm

theorem replacement_adds (r : Replacement) (stage : Replacement.Stage) :
    Adds tenantId s (r.step now stage s).1 (r.spent tenantId now stage s) := by
  cases stage with
  | archiving existing content versionNo =>
    rw [Replacement.step, Replacement.spent]
    cases existing.storageKey with
    | none => exact .inl rfl
    | some prevKey =>
      apply adds_orFail
      intro s' a done
      obtain ⟨after, inserted, same⟩ := map_eq_ok_iff.mp done
      cases same
      have adds := @adds_version tenantId _ _ _ inserted
      unfold countedVersion at adds
      simpa using adds
  | swapping existing content =>
    apply adds_orFail
    intro s' row done
    exact adds_updateOne _ liveIn_single done
  | inserting =>
    rw [Replacement.step, Replacement.spent]
    cases r.newFile with
    | none => exact .inl rfl
    | some new =>
      apply adds_orFail
      intro s' row done
      obtain ⟨after, inserted, same⟩ := map_eq_ok_iff.mp done
      cases same
      exact adds_insertRow inserted
  | closing =>
    cases r with
    | finalize ctx up sha newId =>
      apply adds_orFail
      intro s' a done
      obtain ⟨after, committed, same⟩ := map_eq_ok_iff.mp done
      have tables := commit_ok_iff.mp (mapError_ok.mp committed)
      have files := congrArg Tables.files tables
      have versions := congrArg Tables.versions tables
      have quotas := congrArg Tables.quotas tables
      cases same
      refine .inr ⟨?_, quotas⟩
      rw [used_same files versions]
      exact (Int.add_zero _).symm
    | _ => exact .inl rfl
  | _ => exact .inl rfl

/-! ### Copies -/

/-- A copy counts for as much as its source. -/
theorem counted_copyOf {ctx : RequestCtx} {id newId : Uuid} {parentId : Option Uuid} {name : Str}
    {src : DriveFile} (found : FileRepo.find ctx.tenantId id s = some src) :
    counted tenantId (FileRepo.copyOf ctx.tenantId ctx.userId parentId name newId now src) =
      addedCopy tenantId ctx id s := by
  have live := List.find?_some found
  unfold liveIn at live
  simp only [Bool.and_eq_true, decide_eq_true_eq] at live
  unfold addedCopy
  rw [found]
  show _ = counted tenantId src
  unfold counted
  rw [live.1.2, live.2]
  rfl

theorem addedCopy_inserted {ctx : RequestCtx} {id : Uuid} {row : DriveFile}
    (files : s'.files = s.files ++ [row]) (other : id ≠ row.id) :
    addedCopy tenantId ctx id s' = addedCopy tenantId ctx id s := by
  unfold addedCopy FileRepo.find
  have absent : liveIn ctx.tenantId id row = false := by
    unfold liveIn
    rw [decide_eq_false other.symm]
    rfl
  rw [files, List.find?_append, List.find?_cons_of_neg (by rw [absent]; exact nofun),
    List.find?_nil, Option.or_none]

theorem bulkCopy_adds {ctx : RequestCtx} {sources : List (Uuid × Uuid)} {parentId : Option Uuid}
    {rows : List DriveFile}
    (fresh : ∀ source ∈ sources, ∀ other ∈ sources, source.1 ≠ other.2)
    (done : FileRepo.bulkCopyFiles ctx.tenantId ctx.userId parentId now sources s = .ok (s', rows)) :
    QuotaRepo.used tenantId s' = QuotaRepo.used tenantId s +
        (sources.map fun source => addedCopy tenantId ctx source.1 s).sum ∧
      s'.quotas = s.quotas := by
  induction sources generalizing s rows with
  | nil =>
    cases done
    exact ⟨(Int.add_zero _).symm, rfl⟩
  | cons source rest ih =>
    have later : ∀ first ∈ rest, ∀ other ∈ rest, first.1 ≠ other.2 := fun first inside other known =>
      fresh first (List.mem_cons_of_mem source inside) other (List.mem_cons_of_mem source known)
    rw [List.map_cons, List.sum_cons]
    unfold FileRepo.bulkCopyFiles at done
    split at done
    · next missing =>
      have nothing : addedCopy tenantId ctx source.1 s = 0 := by
        unfold addedCopy
        rw [missing]
        rfl
      rw [nothing, Int.zero_add]
      exact ih later done
    · next src found =>
      obtain ⟨s₁, inserted, others⟩ := bind_eq_ok_iff.mp done
      obtain ⟨⟨s₂, rows₂⟩, copied, same⟩ := bind_eq_ok_iff.mp others
      cases same
      have tables := (insertRow_files inserted).1
      have files := congrArg Tables.files tables
      have versions := congrArg Tables.versions tables
      have unchanged := congrArg Tables.quotas tables
      obtain ⟨used, quotas⟩ := ih later copied
      have copies : (rest.map fun next => addedCopy tenantId ctx next.1 s₁) =
          rest.map fun next => addedCopy tenantId ctx next.1 s := by
        apply List.map_congr_left
        intro next inside
        exact addedCopy_inserted files
          (fresh next (List.mem_cons_of_mem source inside) source List.mem_cons_self)
      rw [copies, used_inserted files versions, counted_copyOf found] at used
      exact ⟨used.trans (Int.add_assoc _ _ _), quotas.trans unchanged⟩

/-! ### Runs -/

theorem among_single' {owner id : Uuid} (f : DriveFile)
    (first : FileRepo.among owner [id] false f = true) (g : DriveFile)
    (second : FileRepo.among owner [id] false g = true) : f.id = g.id := by
  unfold FileRepo.among at first second
  simp only [List.contains_cons, List.contains_nil, Bool.or_false, Bool.and_eq_true,
    beq_iff_eq] at first second
  exact first.1.2.trans second.1.2.symm

theorem adds_spending {α : Type} {result : Except DriveError (Store × α)} {n : Int}
    {next : α → Spending.Stage} (adds : ∀ s' a, result = .ok (s', a) → Adds tenantId s s' n) :
    Adds tenantId s (Spending.orFail s result next).1 n := by
  cases result with
  | error e => exact .inl rfl
  | ok pair => exact adds pair.1 pair.2 rfl

/-- Every statement is refused, or adds what it spends. -/
theorem spending_adds {sha256 : Octets → Str} (r : Spending) (stage : Spending.Stage) :
    Adds tenantId s (r.step sha256 now stage s).1 (r.spent tenantId now stage s) := by
  cases stage with
  | creating up =>
    apply adds_spending
    intro s' a done
    obtain ⟨after, committed, same⟩ := map_eq_ok_iff.mp done
    have tables := commit_ok_iff.mp (mapError_ok.mp committed)
    have files := congrArg Tables.files tables
    have versions := congrArg Tables.versions tables
    have quotas := congrArg Tables.quotas tables
    cases same
    refine .inr ⟨?_, quotas⟩
    rw [used_same files versions]
    exact (Int.add_zero _).symm
  | uploading up => cases r <;> exact .inl rfl
  | replacing replacement stage => exact replacement_adds replacement stage
  | copying name =>
    cases r with
    | copy ctx id asked parentId newId =>
      apply adds_spending
      intro s' row done
      unfold FileRepo.copyFile at done
      split at done
      · cases done
      · next src found =>
        obtain ⟨after, inserted, same⟩ := map_eq_ok_iff.mp done
        cases same
        have adds := @adds_insertRow tenantId _ _ _ inserted
        rw [counted_copyOf found] at adds
        exact adds
    | bulkCopy ctx sources parentId fresh =>
      apply adds_spending
      intro s' rows done
      exact .inr (bulkCopy_adds fresh done)
    | _ => exact .inl rfl
  | restoring =>
    cases r with
    | restore ctx id =>
      apply adds_spending
      intro s' row done
      exact adds_updateOne _ among_single' done
    | _ => exact .inl rfl
  | _ => exact .inl rfl

variable {ι : Type} [DecidableEq ι]

/-- A tenant with five bytes, of which a file in the trash would take three. -/
def fiveBytes : SpendingWorld Bool where
  store := ⟨{ emptyTables with
    files := [⟨10, 1, 7, none, ['a'], .file, none, 3, none, some 100, 0, some 0, none⟩]
    quotas := [(1, 5)] }, by decide, by decide⟩
  stage := fun _ => .checking

/-- Uploads of three bytes. -/
def threeBytes (first : Bool) : Spending :=
  .upload ⟨1, 7⟩ ⟨none, some [if first then 'b' else 'c'], none, some [1, 2, 3], true⟩ [1, 2, 3]
    (if first then ⟨20, 200, 0⟩ else ⟨21, 201, 0⟩)

instance {s : Store} : Decidable (Within tenantId s) := inferInstanceAs (Decidable (_ ≤ _))

instance {requests : ι → Spending} {w : SpendingWorld ι} {turn : ι × Int} :
    Decidable (Affords tenantId requests w turn) := inferInstanceAs (Decidable (_ ≤ _))

end Expresso.Drive
