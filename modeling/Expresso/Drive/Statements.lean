import Expresso.Drive.Store
import Expresso.Transition.Runs
import Expresso.Tree.Parents

/-! What the statements do to the tables. A deletion takes with it everything below what it
selects, and is never refused. -/

namespace Expresso.Drive
open Tree Transition

def rowOf (files : List DriveFile) (id : Uuid) : Option DriveFile := files.find? (·.id = id)

theorem rowOf_eq_some_iff {files : List DriveFile} (unique : (files.map (·.id)).Nodup) {id : Uuid}
    {f : DriveFile} : rowOf files id = some f ↔ f ∈ files ∧ f.id = id := by
  constructor
  · intro found
    exact ⟨List.mem_of_find?_eq_some found, by simpa using List.find?_some found⟩
  · rintro ⟨member, rfl⟩
    cases found : rowOf files f.id with
    | none => exact absurd (List.find?_eq_none.mp found f member) (by simp)
    | some g =>
      have same : g.id = f.id := by simpa using List.find?_some found
      rw [List.inj_on_of_nodup_map unique (List.mem_of_find?_eq_some found) member same]

theorem rowOf_eq_none {files : List DriveFile} {id : Uuid} (absent : id ∉ files.map (·.id)) :
    rowOf files id = none := by
  rw [rowOf, List.find?_eq_none]
  intro f member
  simp only [decide_eq_true_eq]
  exact fun same => absent (same ▸ List.mem_map_of_mem member)

theorem mapError_ok {ε δ α : Type} {x : Except ε α} {f : ε → δ} {a : α} :
    x.mapError f = .ok a ↔ x = .ok a := by
  cases x <;> simp [Except.mapError]

theorem get_ok {tenantId id : Uuid} {s : Store} {f : DriveFile}
    (found : FileRepo.get tenantId id s = .ok f) :
    f ∈ s.files ∧ f.id = id ∧ f.tenantId = tenantId ∧ f.deletedAt = none := by
  have held : s.files.find? (liveIn tenantId id) = some f := orThrow_ok_iff.mp found
  have live := List.find?_some held
  unfold liveIn at live
  simp only [Bool.and_eq_true, decide_eq_true_eq, Option.isNone_iff_eq_none] at live
  exact ⟨List.mem_of_find?_eq_some held, live.1.1, live.1.2, live.2⟩

theorem insertRow_files {row : DriveFile} {s s' : Store}
    (done : FileRepo.insertRow row s = .ok s') :
    s'.toTables = { s.toTables with files := s.files ++ [row] } ∧
      row.id ∉ s.files.map (·.id) ∧ ∀ p, row.parentId = some p → p ∈ s.files.map (·.id) := by
  unfold FileRepo.insertRow at done
  split_ifs at done with known
  have same := commit_ok_iff.mp (mapError_ok.1 done)
  refine ⟨same, fun member => ?_, fun p above => known p (by simp [above])⟩
  have unique := s'.unique.1
  rw [same, List.map_append, List.nodup_append] at unique
  exact unique.2.2 _ member _ (by simp) rfl

theorem update_files {selected : DriveFile → Bool} {change : DriveFile → DriveFile} {s s' : Store}
    {rows : List DriveFile} (done : FileRepo.update selected change s = .ok (s', rows)) :
    s'.toTables = { s.toTables with
      files := s.files.map fun f => if selected f then change f else f } := by
  obtain ⟨after, committed, same⟩ := map_eq_ok_iff.mp done
  rw [← (Prod.mk.inj same).1]
  exact commit_ok_iff.mp (mapError_ok.1 committed)

theorem updateOne_update {id : Uuid} {selected : DriveFile → Bool}
    {change : DriveFile → DriveFile} {s s' : Store} {row : DriveFile}
    (done : FileRepo.updateOne id selected change s = .ok (s', row)) :
    ∃ rows, FileRepo.update selected change s = .ok (s', rows) := by
  obtain ⟨⟨after, rows⟩, updated, rest⟩ := bind_eq_ok_iff.mp done
  refine ⟨rows, ?_⟩
  rw [updated]
  simp only at rest
  split at rest
  · cases rest
    rfl
  · cases rest

/-- A change that touches neither ids and parents nor the names of live rows is not refused. -/
theorem commit_changed (s : Store) (change : DriveFile → DriveFile)
    (ids : ∀ f, (change f).id = f.id) (parents : ∀ f, (change f).parentId = f.parentId)
    (tenants : ∀ f, (change f).tenantId = f.tenantId) (names : ∀ f, (change f).name = f.name)
    (live : ∀ f, (change f).deletedAt = f.deletedAt) :
    ∃ s', commit { s.toTables with files := s.files.map change } = .ok s' := by
  have sameIds : (s.files.map change).map (·.id) = s.files.map (·.id) := by
    rw [List.map_map]
    exact List.map_congr_left fun f _ => ids f
  have sameNames : ((s.files.map change).filter (·.deletedAt.isNone)).map
      (fun f => (f.tenantId, f.parentId, f.name)) =
      (s.files.filter (·.deletedAt.isNone)).map fun f => (f.tenantId, f.parentId, f.name) := by
    rw [List.filter_map, List.map_map]
    have sameLive : ((·.deletedAt.isNone) ∘ change : DriveFile → Bool) = (·.deletedAt.isNone) :=
      funext fun f => congrArg Option.isNone (live f)
    rw [sameLive]
    apply List.map_congr_left
    intro f _
    show ((change f).tenantId, (change f).parentId, (change f).name) = _
    rw [tenants, parents, names]
  have unique : Tables.Unique { s.toTables with files := s.files.map change } := by
    unfold Tables.Unique
    rw [sameIds, sameNames]
    exact s.unique
  have referenced : Tables.Referenced { s.toTables with files := s.files.map change } := by
    unfold Tables.Referenced
    rw [sameIds]
    refine ⟨fun f member p above => ?_, s.referenced.2⟩
    obtain ⟨g, before, rfl⟩ := List.mem_map.mp member
    rw [parents] at above
    exact s.referenced.1 g before p above
  exact ⟨⟨_, unique, referenced⟩, commit_ok_iff.mpr rfl⟩

/-- A live row takes new content. -/
theorem updateContent_ok {tenantId id : Uuid} (content : FileRepo.Content) (now : Int)
    {s : Store} {f : DriveFile} (member : f ∈ s.files) (live : liveIn tenantId id f = true) :
    ∃ s' row, FileRepo.updateContent tenantId id content now s = .ok (s', row) := by
  obtain ⟨s', committed⟩ := commit_changed s
    (fun g => if liveIn tenantId id g then FileRepo.withContent content now g else g)
    (fun g => by split <;> rfl) (fun g => by split <;> rfl) (fun g => by split <;> rfl)
    (fun g => by split <;> rfl) (fun g => by split <;> rfl)
  unfold FileRepo.updateContent FileRepo.updateOne FileRepo.update
  rw [committed]
  cases rows : s.files.filter (liveIn tenantId id) with
  | nil => exact absurd live (List.filter_eq_nil_iff.mp rows f member)
  | cons row rest => exact ⟨s', FileRepo.withContent content now row, rfl⟩

/-! ### Deletions -/

namespace FileRepo

variable {files : List DriveFile} {selected : DriveFile → Bool} {s : Store} {f g : DriveFile}
  {p : Uuid} {steps : Nat}

theorem doomed_succ : doomed files selected (steps + 1) f = true ↔ selected f = true ∨
    ∃ g ∈ files, f.parentId = some g.id ∧ doomed files selected steps g = true := by
  conv_lhs => rw [doomed]
  rw [Bool.or_eq_true]
  apply or_congr_right
  cases above : f.parentId with
  | none => simp
  | some p =>
    show (files.filter (·.id = p)).any (doomed files selected steps) = true ↔ _
    rw [List.any_filter, List.any_eq_true]
    constructor
    · intro ⟨g, member, both⟩
      rw [Bool.and_eq_true, decide_eq_true_eq] at both
      exact ⟨g, member, both.1 ▸ rfl, both.2⟩
    · intro ⟨g, member, same, goes⟩
      refine ⟨g, member, ?_⟩
      rw [Bool.and_eq_true, decide_eq_true_eq]
      exact ⟨(Option.some.inj same).symm, goes⟩

theorem doomed_of_selected (chosen : selected f = true) : doomed files selected steps f = true := by
  cases steps with
  | zero => exact chosen
  | succ steps => exact doomed_succ.2 (.inl chosen)

theorem doomed_grows (goes : doomed files selected steps f = true) :
    doomed files selected (steps + 1) f = true := by
  induction steps generalizing f with
  | zero => exact doomed_of_selected goes
  | succ steps ih =>
    rcases doomed_succ.1 goes with chosen | ⟨g, member, above, later⟩
    · exact doomed_of_selected chosen
    · exact doomed_succ.2 (.inr ⟨g, member, above, ih later⟩)

/-- The steps that the deletion looks up are enough. -/
theorem doomed_complete (member : f ∈ files) :
    doomed files selected (files.length + 1) f = doomed files selected files.length f := by
  apply saturated (fun n a => doomed_grows) _ f member
  intro n settled a _
  rw [Bool.eq_iff_iff, doomed_succ, doomed_succ]
  apply or_congr_right
  apply exists_congr
  intro g
  apply and_congr_right
  intro inside
  rw [settled g inside]

/-- A row whose parent goes goes, too. -/
theorem doomed_child (member : f ∈ files) (parent : g ∈ files) (above : f.parentId = some g.id)
    (goes : doomed files selected files.length g = true) :
    doomed files selected files.length f = true := by
  rw [← doomed_complete member]
  exact doomed_succ.2 (.inr ⟨g, parent, above, goes⟩)

/-! ### The tables that are left -/

theorem mem_pruned_files : f ∈ (pruned selected s).files ↔
    f ∈ s.files ∧ doomed s.files selected s.files.length f = false := by
  unfold pruned
  rw [List.mem_filter, Bool.not_eq_true']

theorem mem_pruned_ids {id : Uuid} (known : id ∈ s.files.map (·.id))
    (stays : id ∉ (s.files.filter (doomed s.files selected s.files.length)).map (·.id)) :
    id ∈ (pruned selected s).files.map (·.id) := by
  obtain ⟨f, member, rfl⟩ := List.mem_map.mp known
  apply List.mem_map_of_mem
  apply mem_pruned_files.2
  refine ⟨member, ?_⟩
  by_contra goes
  exact stays (List.mem_map_of_mem (List.mem_filter.mpr ⟨member, by simpa using goes⟩))

theorem pruned_unique : (pruned selected s).Unique := by
  obtain ⟨files, names, versions, acls, shares, uploads, locks⟩ := s.unique
  refine ⟨?_, ?_, ?_, ?_, ?_, ?_, ?_⟩
  · exact files.sublist (List.filter_sublist.map _)
  · exact names.sublist ((List.filter_sublist.filter _).map _)
  · exact versions.sublist (List.filter_sublist.map _)
  · exact acls.sublist (List.filter_sublist.map _)
  · exact shares.sublist (List.filter_sublist.map _)
  · unfold pruned
    rw [List.map_map]
    exact uploads
  · exact locks.sublist (List.filter_sublist.map _)

theorem pruned_referenced : (pruned selected s).Referenced := by
  obtain ⟨parents, versions, acls, shares, uploads, locks⟩ := s.referenced
  refine ⟨?_, ?_, ?_, ?_, ?_, ?_⟩
  · intro f member p above
    obtain ⟨inside, stays⟩ := mem_pruned_files.1 member
    apply mem_pruned_ids (parents f inside p above)
    intro gone
    obtain ⟨g, goes, rfl⟩ := List.mem_map.mp gone
    obtain ⟨parent, isDoomed⟩ := List.mem_filter.mp goes
    have also := doomed_child inside parent (Option.mem_toList.mp above) isDoomed
    cases stays.symm.trans also
  · intro v member
    obtain ⟨inside, stays⟩ := List.mem_filter.mp member
    exact mem_pruned_ids (versions v inside) (of_decide_eq_true stays)
  · intro a member
    obtain ⟨inside, stays⟩ := List.mem_filter.mp member
    exact mem_pruned_ids (acls a inside) (of_decide_eq_true stays)
  · intro share member
    obtain ⟨inside, stays⟩ := List.mem_filter.mp member
    exact mem_pruned_ids (shares share inside) (of_decide_eq_true stays)
  · intro up member p above
    obtain ⟨before, inside, rfl⟩ := List.mem_map.mp member
    obtain ⟨known, stays⟩ := Option.mem_filter_iff.mp (Option.mem_toList.mp above)
    exact mem_pruned_ids (uploads before inside p (Option.mem_toList.mpr known))
      (of_decide_eq_true stays)
  · intro lock member
    obtain ⟨inside, stays⟩ := List.mem_filter.mp member
    exact mem_pruned_ids (locks lock inside) (of_decide_eq_true stays)

/-- No constraint refuses a deletion. -/
theorem delete_ok (selected : DriveFile → Bool) (s : Store) :
    ∃ s', delete selected s = .ok s' ∧ s'.toTables = pruned selected s := by
  let s' : Store := ⟨pruned selected s, pruned_unique, pruned_referenced⟩
  have committed : commit (pruned selected s) = .ok s' := commit_ok_iff.mpr rfl
  refine ⟨s', ?_, rfl⟩
  unfold delete
  rw [committed]
  rfl

/-- What a purge gives back is read before it. -/
theorem deleted {α : Type} (selected : DriveFile → Bool) (keys : α) (s : Store) :
    ∃ s', s'.toTables = pruned selected s ∧
      (delete selected s).map (fun s' => (s', keys)) = .ok (s', keys) := by
  obtain ⟨s', done, same⟩ := delete_ok selected s
  refine ⟨s', same, ?_⟩
  rw [done]
  rfl

theorem purge_eq (tenantId id : Uuid) (s : Store) :
    ∃ s', s'.toTables = pruned (trashedIn tenantId id) s ∧
      purge tenantId id s = .ok (s', (keysOf (trashedIn tenantId id) s).head?.join) :=
  deleted _ _ s

theorem purgeExpiredFiles_eq (now : Int) (s : Store) :
    ∃ s', s'.toTables = pruned (expired now) s ∧
      purgeExpiredFiles now s = .ok (s', keysOf (expired now) s) :=
  deleted _ _ s

theorem purgeTrashedOlderThan_eq (tenantId : Uuid) (cutoff : Int) (s : Store) :
    ∃ s', s'.toTables = pruned (trashedBefore tenantId cutoff) s ∧
      purgeTrashedOlderThan tenantId cutoff s =
        .ok (s', keysOf (trashedBefore tenantId cutoff) s) :=
  deleted _ _ s

end FileRepo

/-! ### Versions -/

namespace VersionRepo

variable {tenantId fileId : Uuid} {versionNo : Int}

theorem without_unique {s : Store} : (without tenantId fileId versionNo s).Unique := by
  obtain ⟨files, names, versions, rest⟩ := s.unique
  exact ⟨files, names, versions.sublist (List.filter_sublist.map _), rest⟩

theorem without_referenced {s : Store} : (without tenantId fileId versionNo s).Referenced := by
  obtain ⟨parents, versions, rest⟩ := s.referenced
  exact ⟨parents, fun v member => versions v (List.mem_filter.mp member).1, rest⟩

theorem delete_ok (tenantId fileId : Uuid) (versionNo : Int) (s : Store) :
    ∃ s', delete tenantId fileId versionNo s = .ok s' ∧
      s'.toTables = without tenantId fileId versionNo s := by
  let s' : Store := ⟨without tenantId fileId versionNo s, without_unique, without_referenced⟩
  have committed : commit (without tenantId fileId versionNo s) = .ok s' := commit_ok_iff.mpr rfl
  refine ⟨s', ?_, rfl⟩
  unfold delete
  rw [committed]
  rfl

end VersionRepo

end Expresso.Drive
