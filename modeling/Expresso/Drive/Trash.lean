import Expresso.Drive.Forest
import Expresso.Drive.Blobs

/-! What a purge of the trash removes, and what the owner of a trashed row can do with it. -/

namespace Expresso.Drive
open Text Transition Tree

variable {d : State} {s s' : Store} {f : DriveFile} {selected : DriveFile → Bool} {now : Int}

/-! ### The rows that a deletion takes with it -/

/-- The row is selected, or a row above it is. -/
def Under (files : List DriveFile) (selected : DriveFile → Bool) (f : DriveFile) : Prop :=
  ∃ g ∈ files, selected g = true ∧ Below (parentOf files) f.id g.id

theorem parentOf_own (member : f ∈ s.files) : parentOf s.files f.id = f.parentId := by
  unfold parentOf
  rw [(rowOf_eq_some_iff s.unique.1).mpr ⟨member, rfl⟩]
  rfl

theorem under_of_doomed {steps : Nat} (member : f ∈ s.files)
    (goes : FileRepo.doomed s.files selected steps f = true) : Under s.files selected f := by
  induction steps generalizing f with
  | zero => exact ⟨f, member, goes, .refl f.id⟩
  | succ steps ih =>
    rcases FileRepo.doomed_succ.mp goes with chosen | ⟨g, inside, above, later⟩
    · exact ⟨f, member, chosen, .refl f.id⟩
    · obtain ⟨top, known, chosen, below⟩ := ih inside later
      exact ⟨top, known, chosen, below.up ((parentOf_own member).trans above)⟩

theorem doomed_iff_under (member : f ∈ s.files) :
    FileRepo.doomed s.files selected s.files.length f = true ↔ Under s.files selected f := by
  constructor
  · exact under_of_doomed member
  · intro ⟨g, inside, chosen, n, met⟩
    induction n generalizing f with
    | zero =>
      have same : f = g := List.inj_on_of_nodup_map s.unique.1 member inside (Option.some.inj met)
      exact FileRepo.doomed_of_selected (same ▸ chosen)
    | succ n ih =>
      obtain ⟨p, above, rest⟩ := Option.bind_eq_some_iff.mp met
      obtain ⟨parent, known, rfl⟩ := List.mem_map.mp (parentOf_mem above).2
      exact FileRepo.doomed_child member known ((parentOf_own member).symm.trans above)
        (ih known rest)

/-! ### Purges -/

/-- What goes was in the trash, and its blob goes with it. -/
def PurgesTrash (d d' : State) : Prop :=
  (∀ f ∈ d.store.files, f ∉ d'.store.files →
    f.deletedAt.isSome ∧ ∀ key, f.storageKey = some key → d'.disk ⟨key, false⟩ = none) ∧
  ∀ v ∈ d.store.versions, v ∉ d'.store.versions → d'.disk ⟨v.storageKey, false⟩ = none

def Operation.Purges : Operation → Prop
  | .deleteFile _ _ permanent _ => permanent = true
  | .purgeTrash _ _ _ => True
  | _ => False

/-- A selected row has the key, or there is no such blob. -/
def Unlinked (selected : DriveFile → Bool) (d : State) (key : Uuid) : Prop :=
  (∃ g ∈ d.store.files, selected g = true ∧ g.storageKey = some key) ∨ d.disk ⟨key, false⟩ = none

/-- The rows below the selected ones are in the trash, and neither they nor the versions have a
blob of their own. -/
def Contained (selected : DriveFile → Bool) (d : State) : Prop :=
  (∀ f ∈ d.store.files, Under d.store.files selected f →
    f.deletedAt.isSome ∧ ∀ key, f.storageKey = some key → Unlinked selected d key) ∧
  ∀ v ∈ d.store.versions,
    (∃ f ∈ d.store.files, f.id = v.fileId ∧ Under d.store.files selected f) →
      Unlinked selected d v.storageKey

theorem mem_keysOf {key : Uuid} :
    some key ∈ FileRepo.keysOf selected s ↔
      ∃ g ∈ s.files, selected g = true ∧ g.storageKey = some key := by
  unfold FileRepo.keysOf
  simp only [List.mem_map, List.mem_filter, and_assoc]

theorem purgesTrash_iff (tables : s'.toTables = FileRepo.pruned selected d.store) :
    PurgesTrash d ⟨s', fun blob => if blob ∈ blobsOf (FileRepo.keysOf selected d.store) then none
      else d.disk blob⟩ ↔ Contained selected d := by
  have unlinked : ∀ key, ((if (⟨key, false⟩ : Blob) ∈ blobsOf (FileRepo.keysOf selected d.store)
      then none else d.disk ⟨key, false⟩) = none ↔ Unlinked selected d key) := by
    intro key
    unfold Unlinked
    rw [← mem_keysOf, ← mem_blobsOf]
    split_ifs with listed
    · exact iff_of_true rfl (.inl listed)
    · exact ⟨.inr, fun either => either.resolve_left listed⟩
  have files : ∀ f ∈ d.store.files, (f ∉ s'.files ↔ Under d.store.files selected f) := by
    intro f member
    rw [← doomed_iff_under member, congrArg Tables.files tables, FileRepo.mem_pruned_files]
    simp [member]
  have versions : ∀ v ∈ d.store.versions, (v ∉ s'.versions ↔
      ∃ f ∈ d.store.files, f.id = v.fileId ∧ Under d.store.files selected f) := by
    intro v member
    rw [congrArg Tables.versions tables]
    show v ∉ d.store.versions.filter _ ↔ _
    rw [List.mem_filter, decide_eq_true_eq, not_and_not_right, List.mem_map]
    constructor
    · intro goes
      obtain ⟨f, inside, same⟩ := goes member
      obtain ⟨known, isDoomed⟩ := List.mem_filter.mp inside
      exact ⟨f, known, same, (doomed_iff_under known).mp isDoomed⟩
    · intro ⟨f, known, same, under⟩ _
      exact ⟨f, List.mem_filter.mpr ⟨known, (doomed_iff_under known).mpr under⟩, same⟩
  unfold PurgesTrash Contained
  apply and_congr
  · apply forall₂_congr
    intro f member
    rw [files f member]
    simp only [unlinked]
  · apply forall₂_congr
    intro v member
    rw [versions v member]
    simp only [unlinked]

def Operation.Contained (d : State) : Operation → Prop
  | .purgeTrash ctx olderThanDays now =>
      Drive.Contained (FileRepo.trashedBefore ctx.tenantId (cutoff olderThanDays now)) d
  | _ => True

theorem purgesTrash_refl : PurgesTrash d d :=
  ⟨fun _ member gone => absurd member gone, fun _ member gone => absurd member gone⟩

/-- A permanent deletion selects nothing. -/
theorem after_permanent {ctx : RequestCtx} {id : Uuid} :
    After (deleteFile ctx id true now) d fun _ d' => PurgesTrash d d' ∧
      ∀ f ∈ d.store.files, f ∈ d'.store.files := by
  unfold deleteFile
  rw [after_bind, after_query]
  cases passed : requireWrite ctx id d.store with
  | error e => exact ⟨purgesTrash_refl, fun _ member => member⟩
  | ok _ =>
    obtain ⟨s', tables, done⟩ := FileRepo.purge_eq ctx.tenantId id d.store
    have keys := keysOf_trashedIn passed
    have none : ∀ f ∈ d.store.files, ¬Under d.store.files (FileRepo.trashedIn ctx.tenantId id) f := by
      intro f _ ⟨g, member, chosen, _⟩
      exact List.filter_eq_nil_iff.mp (List.map_eq_nil_iff.mp keys) g member chosen
    have same : d.disk = fun blob => if blob ∈ blobsOf
        (FileRepo.keysOf (FileRepo.trashedIn ctx.tenantId id) d.store) then Option.none
        else d.disk blob := by
      funext blob
      rw [keys]
      exact (if_neg List.not_mem_nil).symm
    have empty : PurgesTrash d ⟨s', d.disk⟩ := by
      rw [same]
      exact (purgesTrash_iff tables).mpr ⟨fun f member under => absurd under (none f member),
        fun _ _ ⟨f, member, _, under⟩ => absurd under (none f member)⟩
    have kept : ∀ f ∈ d.store.files, f ∈ s'.files := by
      intro f member
      rw [congrArg Tables.files tables, FileRepo.mem_pruned_files]
      refine ⟨member, ?_⟩
      by_contra goes
      exact none f member ((doomed_iff_under member).mp (by simpa using goes))
    rw [keys] at done
    show After (statement _ >>= _) d _
    rw [after_bind, after_statement, done]
    exact ⟨empty, kept⟩

theorem after_purgeTrash {ctx : RequestCtx} {olderThanDays : Option Int} :
    let selected := FileRepo.trashedBefore ctx.tenantId (cutoff olderThanDays now)
    After (purgeTrash ctx olderThanDays now) d fun _ d' => (PurgesTrash d d' ↔ Contained selected d) ∧
      ∀ f ∈ d.store.files, (f ∉ d'.store.files ↔ Under d.store.files selected f) := by
  intro selected
  obtain ⟨s', tables, done⟩ := FileRepo.purgeTrashedOlderThan_eq ctx.tenantId
    (cutoff olderThanDays now) d.store
  unfold purgeTrash
  rw [after_bind, after_statement, done]
  show After (removeFiles _ >>= _) _ _
  rw [after_bind, after_removeFiles]
  refine ⟨purgesTrash_iff tables, ?_⟩
  intro f member
  show f ∉ s'.files ↔ _
  rw [← doomed_iff_under member, congrArg Tables.files tables, FileRepo.mem_pruned_files]
  simp [member, selected]

theorem served_purgeTrash (sha256 : Octets → Str) {ctx : RequestCtx} {olderThanDays : Option Int} :
    let selected := FileRepo.trashedBefore ctx.tenantId (cutoff olderThanDays now)
    let d' := served sha256 d (.purgeTrash ctx olderThanDays now)
    (PurgesTrash d d' ↔ Contained selected d) ∧
      ∀ f ∈ d.store.files, (f ∉ d'.store.files ↔ Under d.store.files selected f) :=
  (after_discard (purgeTrash ctx olderThanDays now) fun _ => ()).mpr after_purgeTrash

/-- A purge is right exactly if what it takes with it is in the trash and has no blobs of its
own. -/
theorem served_purges_iff (sha256 : Octets → Str) (op : Operation) :
    op.Contained d ↔ (op.Purges → PurgesTrash d (served sha256 d op)) := by
  cases op with
  | deleteFile ctx id permanent now =>
    refine iff_of_true trivial ?_
    intro forever
    cases forever
    exact After.imp after_permanent fun _ _ right => right.1
  | purgeTrash ctx olderThanDays now =>
    exact (served_purgeTrash sha256).1.symm.trans ⟨fun right _ => right, fun right => right trivial⟩
  | _ => exact iff_of_true trivial nofun

/-! ### Restored rows -/

/-- No live row has its place and name. -/
def NameFree (s : Store) (f : DriveFile) : Prop :=
  ∀ g ∈ s.files, g.deletedAt = none →
    ¬(g.tenantId = f.tenantId ∧ g.parentId = f.parentId ∧ g.name = f.name)

/-- The owner gets it back. -/
def Restorable (now : Int) (d : State) (f : DriveFile) : Prop :=
  After (restore ⟨f.tenantId, f.ownerUserId⟩ f.id now) d fun result d' =>
    ∃ row ∈ d'.store.files, row.id = f.id ∧ row.deletedAt = none ∧ result = .ok row

/-- The owner gets rid of it. -/
def Purgeable (sha256 : Octets → Str) (now : Int) (d : State) (f : DriveFile) : Prop :=
  ∃ op : Operation, (op = .deleteFile ⟨f.tenantId, f.ownerUserId⟩ f.id true now ∨
    ∃ days, op = .purgeTrash ⟨f.tenantId, f.ownerUserId⟩ days now) ∧
    f ∉ (served sha256 d op).store.files

/-- The row or one above it has been in the trash for a day. -/
def Aged (now : Int) (s : Store) (f : DriveFile) : Prop :=
  Under s.files (FileRepo.trashedBefore f.tenantId (now - day)) f

theorem purgeable_iff (sha256 : Octets → Str) (member : f ∈ d.store.files) :
    Purgeable sha256 now d f ↔ Aged now d.store f := by
  constructor
  · rintro ⟨op, rfl | ⟨days, rfl⟩, gone⟩
    · have kept := @after_permanent d now ⟨f.tenantId, f.ownerUserId⟩ f.id
      exact absurd (kept.2 f member) gone
    · obtain ⟨g, inside, chosen, below⟩ := ((served_purgeTrash sha256).2 f member).mp gone
      refine ⟨g, inside, ?_, below⟩
      unfold FileRepo.trashedBefore cutoff at chosen
      unfold FileRepo.trashedBefore
      simp only [Bool.and_eq_true, decide_eq_true_eq, Option.any_eq_true] at chosen ⊢
      obtain ⟨tenant, time, deleted, early⟩ := chosen
      refine ⟨tenant, time, deleted, ?_⟩
      have aDay : 0 ≤ day := by decide
      have least : 1 ≤ max 1 (min (days.getD 30) 3650) := le_max_left _ _
      have more := Int.mul_le_mul_of_nonneg_right least aDay
      rw [Int.one_mul] at more
      exact early.trans (Int.sub_le_sub_left more now)
  · intro aged
    refine ⟨_, .inr ⟨some 1, rfl⟩, ?_⟩
    apply ((served_purgeTrash sha256).2 f member).mpr
    have latest : cutoff (some 1) now = now - day := by
      unfold cutoff
      simp
    rw [latest]
    exact aged

/-- The key of `uq_drive_files_sibling_name`. -/
def siblingName (f : DriveFile) : Uuid × Option Uuid × Str := (f.tenantId, f.parentId, f.name)

theorem nameFree_iff {before after : List DriveFile} (split : s.files = before ++ f :: after)
    (trashed : f.deletedAt.isSome) :
    NameFree s f ↔ siblingName f ∉
      ((before ++ after).filter (·.deletedAt.isNone)).map siblingName := by
  unfold NameFree
  rw [split, List.mem_map]
  simp only [not_exists, not_and]
  constructor
  · intro free g member same
    obtain ⟨inside, live⟩ := List.mem_filter.mp member
    obtain ⟨tenant, rest⟩ := Prod.mk.inj same
    obtain ⟨parent, name⟩ := Prod.mk.inj rest
    have known : g ∈ before ++ f :: after := by
      rcases List.mem_append.mp inside with first | last
      · exact List.mem_append_left _ first
      · exact List.mem_append_right _ (List.mem_cons_of_mem f last)
    exact free g known (Option.isNone_iff_eq_none.mp live) tenant parent name
  · intro free g member live tenant parent name
    have other : g ≠ f := by
      rintro rfl
      rw [live] at trashed
      cases trashed
    have inside : g ∈ before ++ after := by
      rcases List.mem_append.mp member with first | last
      · exact List.mem_append_left _ first
      · exact List.mem_append_right _ ((List.mem_cons.mp last).resolve_left other)
    apply free g (List.mem_filter.mpr ⟨inside, Option.isNone_iff_eq_none.mpr live⟩)
    unfold siblingName
    rw [tenant, parent, name]

/-- The tables with a row out of the trash meet the constraints exactly if its name is free. -/
theorem commit_restored_iff (now : Int) (member : f ∈ s.files) (trashed : f.deletedAt.isSome) :
    (∃ s', commit { s.toTables with
      files := s.files.map fun g =>
        if FileRepo.among f.tenantId [f.id] false g then FileRepo.restored now g else g } = .ok s') ↔
      NameFree s f := by
  obtain ⟨before, after, split⟩ := List.append_of_mem member
  have chosen : ∀ g ∈ s.files, g ≠ f → FileRepo.among f.tenantId [f.id] false g = false := by
    intro g inside other
    by_contra selected
    simp only [FileRepo.among, List.contains_cons, List.contains_nil, Bool.or_false,
      Bool.not_eq_false, Bool.and_eq_true, beq_iff_eq] at selected
    exact other (List.inj_on_of_nodup_map s.unique.1 inside member selected.1.2)
  have own : FileRepo.among f.tenantId [f.id] false f = true := by
    simp [FileRepo.among, Option.isNone_eq_false_iff.mpr trashed]
  have distinct : (before ++ f :: after).Nodup := split ▸ List.Nodup.of_map _ s.unique.1
  obtain ⟨fresh, _⟩ := List.nodup_cons.mp (List.nodup_middle.mp distinct)
  have changed : (s.files.map fun g => if FileRepo.among f.tenantId [f.id] false g then
      FileRepo.restored now g else g) = before ++ FileRepo.restored now f :: after := by
    have same : ∀ l : List DriveFile, (∀ g ∈ l, g ∈ s.files ∧ g ≠ f) → (l.map fun g =>
        if FileRepo.among f.tenantId [f.id] false g then FileRepo.restored now g else g) = l := by
      intro l others
      conv_rhs => rw [← List.map_id l]
      apply List.map_congr_left
      intro g inside
      rw [chosen g (others g inside).1 (others g inside).2]
      rfl
    have early : ∀ g ∈ before, g ∈ s.files ∧ g ≠ f := fun g inside =>
      ⟨split ▸ List.mem_append_left _ inside, fun equal =>
        fresh (List.mem_append_left _ (equal ▸ inside))⟩
    have late : ∀ g ∈ after, g ∈ s.files ∧ g ≠ f := fun g inside =>
      ⟨split ▸ List.mem_append_right _ (List.mem_cons_of_mem f inside), fun equal =>
        fresh (List.mem_append_right _ (equal ▸ inside))⟩
    conv_lhs => rw [split]
    rw [List.map_append, List.map_cons, same before early, same after late, if_pos own]
  rw [changed]
  have ids : (before ++ FileRepo.restored now f :: after).map (·.id) = s.files.map (·.id) := by
    rw [split, List.map_append, List.map_append]
    rfl
  have names : ((before ++ FileRepo.restored now f :: after).filter (·.deletedAt.isNone)).map
      siblingName = (before.filter (·.deletedAt.isNone)).map siblingName ++
        siblingName f :: (after.filter (·.deletedAt.isNone)).map siblingName := by
    rw [List.filter_append, List.map_append]
    rfl
  have left : (((before ++ after).filter (·.deletedAt.isNone)).map siblingName).Nodup := by
    refine List.Nodup.sublist ?_ s.unique.2.1
    rw [split]
    exact (((List.sublist_cons_self f after).append_left before).filter _).map _
  have unique : Tables.Unique { s.toTables with files := before ++ FileRepo.restored now f :: after } ↔
      NameFree s f := by
    unfold Tables.Unique
    rw [ids, nameFree_iff split trashed]
    show _ ∧ (((before ++ FileRepo.restored now f :: after).filter (·.deletedAt.isNone)).map
      siblingName).Nodup ∧ _ ↔ _
    rw [names, List.nodup_middle, List.nodup_cons, ← List.map_append, ← List.filter_append]
    exact ⟨fun holds => holds.2.1.1, fun free => ⟨s.unique.1, ⟨free, left⟩, s.unique.2.2⟩⟩
  have referenced : Tables.Referenced
      { s.toTables with files := before ++ FileRepo.restored now f :: after } := by
    unfold Tables.Referenced
    rw [ids]
    refine ⟨fun g inside p above => ?_, s.referenced.2⟩
    have known : ∃ h ∈ s.files, h.parentId = g.parentId := by
      rw [split]
      rcases List.mem_append.mp inside with first | last
      · exact ⟨g, List.mem_append_left _ first, rfl⟩
      · rcases List.mem_cons.mp last with new | later
        · exact ⟨f, List.mem_append_right _ List.mem_cons_self, new ▸ rfl⟩
        · exact ⟨g, List.mem_append_right _ (List.mem_cons_of_mem f later), rfl⟩
    obtain ⟨h, present, same⟩ := known
    exact s.referenced.1 h present p (same ▸ above)
  rw [← unique]
  constructor
  · intro ⟨s', done⟩
    exact commit_ok_iff.mp done ▸ s'.unique
  · intro holds
    exact ⟨⟨_, holds, referenced⟩, commit_ok_iff.mpr rfl⟩

theorem restorable_iff (member : f ∈ d.store.files) (trashed : f.deletedAt.isSome) :
    Restorable now d f ↔ NameFree d.store f := by
  rw [← commit_restored_iff now member trashed]
  unfold Restorable restore
  rw [after_statement]
  have chosen : FileRepo.among f.tenantId [f.id] false f = true := by
    simp [FileRepo.among, Option.isNone_eq_false_iff.mpr trashed]
  cases done : FileRepo.restore f.tenantId f.id now d.store with
  | error e =>
    refine iff_of_false (fun ⟨_, _, _, _, same⟩ => nomatch same) ?_
    intro ⟨s', committed⟩
    unfold FileRepo.restore FileRepo.updateOne FileRepo.update at done
    rw [committed] at done
    cases rows : d.store.files.filter (FileRepo.among f.tenantId [f.id] false) with
    | nil => exact List.filter_eq_nil_iff.mp rows f member chosen
    | cons row rest =>
      rw [rows] at done
      cases done
  | ok result =>
    obtain ⟨s', row⟩ := result
    obtain ⟨rows, updated⟩ := updateOne_update done
    have tables := update_files updated
    refine iff_of_true ⟨FileRepo.restored now f, ?_, rfl, rfl, ?_⟩ ⟨s', commit_ok_iff.mpr tables⟩
    · show FileRepo.restored now f ∈ s'.files
      rw [congrArg Tables.files tables]
      exact List.mem_map.mpr ⟨f, member, if_pos chosen⟩
    · have one : row = FileRepo.restored now f := by
        obtain ⟨⟨after, all⟩, outcome, last⟩ := bind_eq_ok_iff.mp done
        obtain ⟨_, _, same⟩ := map_eq_ok_iff.mp outcome
        obtain ⟨-, listed⟩ := Prod.mk.inj same
        simp only at last
        split at last
        · next head =>
          cases last
          have inside : row ∈ all := List.mem_of_head? head
          rw [← listed] at inside
          obtain ⟨g, selected, rfl⟩ := List.mem_map.mp inside
          obtain ⟨known, hit⟩ := List.mem_filter.mp selected
          simp only [FileRepo.among, List.contains_cons, List.contains_nil, Bool.or_false,
            Bool.and_eq_true, beq_iff_eq] at hit
          rw [List.inj_on_of_nodup_map d.store.unique.1 known member hit.1.2]
        · cases last
      rw [one]

/-! ### Runs -/

/-- In a run every purge is right exactly if it contains what it takes with it. In every state of
it the owner of a trashed row gets it back exactly if its name is free, and gets rid of it exactly
if it has been there for a day. -/
theorem trash_purged (sha256 : Octets → Str) (d : State) (ops : List Operation) :
    (EachStep (served sha256) (fun d op => op.Contained d) d ops ↔
      EachStep (served sha256) (fun d op => op.Purges → PurgesTrash d (served sha256 d op)) d ops) ∧
    Throughout (served sha256) (fun d => ∀ f ∈ d.store.files, f.deletedAt.isSome → ∀ now,
      (Restorable now d f ↔ NameFree d.store f) ∧
      (Purgeable sha256 now d f ↔ Aged now d.store f)) d ops := by
  constructor
  · have same : (fun d op => Operation.Contained d op) = fun d op =>
        op.Purges → PurgesTrash d (served sha256 d op) := by
      funext d op
      exact propext (served_purges_iff sha256 op)
    rw [same]
  · rw [throughout_iff]
    intro before after _ f member trashed now
    exact ⟨restorable_iff member trashed, purgeable_iff sha256 member⟩

/-- A folder with a file, that is put into the trash and purged. -/
def folderTrashed : List Operation :=
  [.mkdir ⟨1, 7⟩ ['d'] none ⟨10, 0, 0⟩,
    .upload ⟨1, 7⟩ ⟨some 10, some ['a'], none, some [1], true⟩ ⟨11, 100, 1⟩,
    .deleteFile ⟨1, 7⟩ 10 false 2]

/-- A file in the trash, and another one under its name. -/
def nameTaken : List Operation :=
  [.upload ⟨1, 7⟩ ⟨none, some ['a'], none, some [1], true⟩ ⟨10, 100, 0⟩,
    .deleteFile ⟨1, 7⟩ 10 false 1,
    .upload ⟨1, 7⟩ ⟨none, some ['a'], none, some [2], true⟩ ⟨11, 101, 2⟩]

/-- The purge takes the live file with it, and the owner of the other file can neither get it back
nor get rid of it. -/
theorem live_file_purged :
    ¬EachStep (served noHash) (fun d op => op.Purges → PurgesTrash d (served noHash d op)) emptyState
      (folderTrashed ++ [.purgeTrash ⟨1, 7⟩ none (40 * day)]) ∧
    ∃ f ∈ (nameTaken.foldl (served noHash) emptyState).store.files, f.deletedAt.isSome ∧
      ¬Restorable 3 (nameTaken.foldl (served noHash) emptyState) f ∧
      ¬Purgeable noHash 3 (nameTaken.foldl (served noHash) emptyState) f := by
  constructor
  · intro holds
    have purged := (holds.2.2.2.1 trivial).1
    have lost : ∃ f ∈ (folderTrashed.foldl (served noHash) emptyState).store.files,
        f.deletedAt = none ∧ f ∉ (served noHash (folderTrashed.foldl (served noHash) emptyState)
          (.purgeTrash ⟨1, 7⟩ none (40 * day))).store.files := by
      decide
    obtain ⟨f, member, live, gone⟩ := lost
    have trashed := (purged f member gone).1
    rw [live] at trashed
    cases trashed
  · have stuck : ∃ f ∈ (nameTaken.foldl (served noHash) emptyState).store.files,
        f.deletedAt.isSome ∧
        (∃ g ∈ (nameTaken.foldl (served noHash) emptyState).store.files, g.deletedAt = none ∧
          g.tenantId = f.tenantId ∧ g.parentId = f.parentId ∧ g.name = f.name) ∧
        ∀ g ∈ (nameTaken.foldl (served noHash) emptyState).store.files,
          FileRepo.trashedBefore f.tenantId (3 - day) g = false := by
      decide
    obtain ⟨f, member, trashed, ⟨g, inside, live, same⟩, recent⟩ := stuck
    refine ⟨f, member, trashed, ?_, ?_⟩
    · intro restorable
      exact (restorable_iff member trashed).mp restorable g inside live same
    · intro purgeable
      obtain ⟨h, known, chosen, _⟩ := (purgeable_iff noHash member).mp purgeable
      cases (recent h known).symm.trans chosen

end Expresso.Drive
