import Expresso.Drive.Forest

/-! Who may reach a file: its owner, and whoever holds a grant on it or on a folder above it. -/

namespace Expresso.Drive
open Text Expresso.Tree

section
variable {s : Store} {tenantId userId id : Uuid} {f : DriveFile}

/-- The second row is the first one or above it, and the tenant sees all of the way. -/
inductive Above (s : Store) (tenantId : Uuid) : Uuid → Uuid → Prop
  | here {f : DriveFile} : f ∈ s.files → f.tenantId = tenantId → Above s tenantId f.id f.id
  | up {f : DriveFile} {p a : Uuid} : f ∈ s.files → f.tenantId = tenantId → f.parentId = some p →
      Above s tenantId p a → Above s tenantId f.id a

/-- A grant to the user on the row or above it. -/
def Granted (s : Store) (tenantId userId id : Uuid) (p : Privilege) : Prop :=
  ∃ a ∈ s.acls, a.tenantId = tenantId ∧ a.granteeId = userId ∧ Above s tenantId id a.fileId ∧
    a.privilege = p

/-- The level that a user has on a row. -/
def HasLevel (s : Store) (tenantId userId : Uuid) (f : DriveFile) : Option Level → Prop
  | some .owner => f.ownerUserId = userId
  | some (.granted p) => f.ownerUserId ≠ userId ∧ Granted s tenantId userId f.id p ∧
      ∀ q, Granted s tenantId userId f.id q → AclRepo.rank q ≤ AclRepo.rank p
  | none => f.ownerUserId ≠ userId ∧ ∀ p, ¬Granted s tenantId userId f.id p

/-! ### The recursive query -/

/-- A row is known by its id. -/
theorem row_unique {g : DriveFile} (member : f ∈ s.files) (other : g ∈ s.files)
    (same : f.id = g.id) : f = g :=
  List.inj_on_of_nodup_map s.unique.1 member other same

theorem find_seen :
    s.files.find? (fun f => f.id = id && f.tenantId = tenantId) = some f ↔
      f ∈ s.files ∧ f.tenantId = tenantId ∧ f.id = id := by
  constructor
  · intro found
    have held := List.find?_some found
    simp only [Bool.and_eq_true, decide_eq_true_eq] at held
    exact ⟨List.mem_of_find?_eq_some found, held.2, held.1⟩
  · rintro ⟨member, rfl, rfl⟩
    cases found : s.files.find? fun g => g.id = f.id && g.tenantId = f.tenantId with
    | none =>
      have absent := List.find?_eq_none.mp found f member
      simp at absent
    | some g =>
      have held := List.find?_some found
      simp only [Bool.and_eq_true, decide_eq_true_eq] at held
      rw [row_unique (List.mem_of_find?_eq_some found) member held.1]

theorem above_iff (member : f ∈ s.files) (mine : f.tenantId = tenantId) {a : Uuid} :
    Above s tenantId f.id a ↔ a = f.id ∨ ∃ p, f.parentId = some p ∧ Above s tenantId p a := by
  constructor
  · intro above
    generalize start : f.id = id at above
    cases above with
    | here => exact .inl rfl
    | up inside _ known rest =>
      rw [row_unique member inside start]
      exact .inr ⟨_, known, rest⟩
  · rintro (rfl | ⟨p, known, rest⟩)
    · exact .here member mine
    · exact .up member mine known rest

/-- The query finds the row and those above it. -/
theorem mem_chain_iff {steps : Nat} {ids : List Uuid}
    (walked : AclRepo.chain s.files tenantId steps id = some ids) {a : Uuid} :
    a ∈ ids ↔ Above s tenantId id a := by
  induction steps generalizing id ids with
  | zero => cases walked
  | succ steps ih =>
    unfold AclRepo.chain at walked
    split at walked
    · next absent =>
      cases walked
      refine iff_of_false List.not_mem_nil ?_
      intro above
      cases above with
      | here member mine => exact nomatch absent.symm.trans (find_seen.2 ⟨member, mine, rfl⟩)
      | up member mine _ _ => exact nomatch absent.symm.trans (find_seen.2 ⟨member, mine, rfl⟩)
    · next f found =>
      obtain ⟨member, mine, rfl⟩ := find_seen.1 found
      rw [above_iff member mine]
      split at walked
      · next root =>
        cases walked
        simp [root]
      · next p known =>
        obtain ⟨rest, later, rfl⟩ := Option.map_eq_some_iff.mp walked
        rw [List.mem_cons, ih later, known]
        simp

/-- The query comes to an end where the folders are a forest. -/
theorem chain_total (grounded : Grounded s) (tenantId id : Uuid) :
    ∃ ids, AclRepo.chain s.files tenantId (s.files.length + 1) id = some ids :=
  Option.isSome_iff_exists.mp ((walksEnd grounded).1 tenantId id)

/-! ### The aggregate -/

theorem rank_injective {p q : Privilege} (same : AclRepo.rank p = AclRepo.rank q) : p = q := by
  cases p <;> cases q <;> first | rfl | cases same

theorem ofRank_rank (p : Privilege) : AclRepo.ofRank (AclRepo.rank p) = some p := by
  cases p <;> rfl

/-- The grants that the query joins. -/
def grantsOn (s : Store) (tenantId userId : Uuid) (ids : List Uuid) : List FileAcl :=
  s.acls.filter fun a => a.tenantId = tenantId && a.granteeId = userId && ids.contains a.fileId

theorem granted_iff {steps : Nat} {ids : List Uuid}
    (walked : AclRepo.chain s.files tenantId steps id = some ids) {p : Privilege} :
    Granted s tenantId userId id p ↔ ∃ a ∈ grantsOn s tenantId userId ids, a.privilege = p := by
  unfold Granted grantsOn
  simp only [List.mem_filter, Bool.and_eq_true, decide_eq_true_eq, List.contains_iff_mem,
    mem_chain_iff walked]
  constructor
  · rintro ⟨a, member, tenant, grantee, above, held⟩
    exact ⟨a, ⟨member, ⟨tenant, grantee⟩, above⟩, held⟩
  · rintro ⟨a, ⟨member, ⟨tenant, grantee⟩, above⟩, held⟩
    exact ⟨a, member, tenant, grantee, above, held⟩

/-- The three ends of the query for somebody else's row. -/
theorem accessLevel_eq {ids : List Uuid} (found : FileRepo.find tenantId id s = some f)
    (other : f.ownerUserId ≠ userId)
    (walked : AclRepo.chain s.files tenantId (s.files.length + 1) id = some ids) :
    AclRepo.accessLevel tenantId id userId s =
      match ((grantsOn s tenantId userId ids).map fun a => AclRepo.rank a.privilege).max? with
      | none => .error .database
      | some r => .ok ((AclRepo.ofRank r).map .granted) := by
  unfold AclRepo.accessLevel grantsOn
  rw [found]
  revert walked
  generalize AclRepo.chain s.files tenantId (s.files.length + 1) id = walk
  rintro rfl
  exact if_neg other

/-- With no grant there is nothing to decode. -/
theorem accessLevel_ungranted (grounded : Grounded s)
    (found : FileRepo.find tenantId id s = some f) (other : f.ownerUserId ≠ userId)
    (nothing : ∀ p, ¬Granted s tenantId userId id p) :
    AclRepo.accessLevel tenantId id userId s = .error .database := by
  obtain ⟨ids, walked⟩ := chain_total grounded tenantId id
  have empty : grantsOn s tenantId userId ids = [] := by
    apply List.eq_nil_iff_forall_not_mem.mpr
    intro a member
    exact nothing a.privilege ((granted_iff walked).mpr ⟨a, member, rfl⟩)
  rw [accessLevel_eq found other walked, empty]
  rfl

theorem accessLevel_granted (grounded : Grounded s)
    (found : FileRepo.find tenantId id s = some f) (other : f.ownerUserId ≠ userId)
    {p : Privilege} (granted : Granted s tenantId userId id p) :
    ∃ q, AclRepo.accessLevel tenantId id userId s = .ok (some (.granted q)) ∧
      Granted s tenantId userId id q ∧
      ∀ r, Granted s tenantId userId id r → AclRepo.rank r ≤ AclRepo.rank q := by
  obtain ⟨ids, walked⟩ := chain_total grounded tenantId id
  have ranked : ∀ {r}, Granted s tenantId userId id r →
      AclRepo.rank r ∈ (grantsOn s tenantId userId ids).map fun a => AclRepo.rank a.privilege := by
    intro r held
    obtain ⟨a, member, rfl⟩ := (granted_iff walked).mp held
    exact List.mem_map.mpr ⟨a, member, rfl⟩
  rw [accessLevel_eq found other walked]
  cases highest : ((grantsOn s tenantId userId ids).map fun a => AclRepo.rank a.privilege).max? with
  | none =>
    rw [List.max?_eq_none_iff] at highest
    exact absurd (highest ▸ ranked granted) List.not_mem_nil
  | some r =>
    obtain ⟨reached, above⟩ := List.max?_eq_some_iff.mp highest
    obtain ⟨a, member, rfl⟩ := List.mem_map.mp reached
    refine ⟨a.privilege, ?_, (granted_iff walked).mpr ⟨a, member, rfl⟩, ?_⟩
    · show Except.ok ((AclRepo.ofRank (AclRepo.rank a.privilege)).map Level.granted) = _
      rw [ofRank_rank]
      rfl
    · exact fun q held => above _ (ranked held)

/-- For a live row of a forest of folders the level is found, and the right one, if and only if
the user owns the row or holds a grant on it or above it. -/
theorem accessLevel_exact_iff (grounded : Grounded s) (member : f ∈ s.files)
    (live : liveIn tenantId f.id f = true) :
    (∃ level, AclRepo.accessLevel tenantId f.id userId s = .ok level ∧
        HasLevel s tenantId userId f level) ↔
      f.ownerUserId = userId ∨ ∃ p, Granted s tenantId userId f.id p := by
  have found : FileRepo.find tenantId f.id s = some f := by
    unfold FileRepo.find
    cases search : s.files.find? (liveIn tenantId f.id) with
    | none => exact absurd live (List.find?_eq_none.mp search f member)
    | some g =>
      have held := List.find?_some search
      unfold liveIn at held
      simp only [Bool.and_eq_true, decide_eq_true_eq] at held
      rw [row_unique (List.mem_of_find?_eq_some search) member held.1.1]
  by_cases own : f.ownerUserId = userId
  · refine iff_of_true ⟨some .owner, ?_, own⟩ (.inl own)
    unfold AclRepo.accessLevel
    rw [found]
    exact if_pos own
  · by_cases granted : ∃ p, Granted s tenantId userId f.id p
    · obtain ⟨p, held⟩ := granted
      obtain ⟨q, level, reached, highest⟩ := accessLevel_granted grounded found own held
      exact iff_of_true ⟨_, level, own, reached, highest⟩ (.inr ⟨p, held⟩)
    · refine iff_of_false ?_ fun either => either.elim own granted
      rintro ⟨level, done, _⟩
      have failed := accessLevel_ungranted grounded found own (not_exists.mp granted)
      cases failed.symm.trans done

end

/-! ### A folder in a folder, with one grant on the outer one -/

def outerFolder : DriveFile :=
  ⟨10, 1, 7, none, ['a'], .folder, none, 0, none, none, 0, none, none⟩

def innerFolder : DriveFile :=
  ⟨11, 1, 7, some 10, ['b'], .folder, none, 0, none, none, 0, none, none⟩

def sharedFolders : Store :=
  ⟨{ emptyState.store.toTables with
      files := [outerFolder, innerFolder]
      acls := [⟨10, 1, 8, .write⟩] }, by decide, by decide⟩

theorem sharedFolders_grounded : Grounded sharedFolders := by
  have outer : parentOf sharedFolders.files 10 = none := rfl
  have inner : parentOf sharedFolders.files 11 = some 10 := rfl
  intro id
  cases above : parentOf sharedFolders.files id with
  | none => exact rooted_of_root above
  | some p =>
    have listed : id = 10 ∨ id = 11 := by
      simpa [sharedFolders, outerFolder, innerFolder] using (parentOf_mem above).1
    rcases listed with rfl | rfl
    · exact rooted_of_root outer
    · exact (rooted_iff_parent inner).mpr (rooted_of_root outer)

theorem inner_granted : Granted sharedFolders 1 8 innerFolder.id .write := by
  have outside : Above sharedFolders 1 10 10 := .here (f := outerFolder) List.mem_cons_self rfl
  exact ⟨_, List.mem_cons_self, rfl, rfl, .up (List.mem_cons_of_mem _ List.mem_cons_self) rfl rfl
    outside, rfl⟩

/-- The grant on the outer folder gives a level on the inner one. -/
theorem accessLevel_inherited :
    ∃ level, AclRepo.accessLevel 1 innerFolder.id 8 sharedFolders = .ok level ∧
      HasLevel sharedFolders 1 8 innerFolder level :=
  (accessLevel_exact_iff sharedFolders_grounded (List.mem_cons_of_mem _ List.mem_cons_self)
    rfl).mpr (.inr ⟨.write, inner_granted⟩)

/-- A user without a grant gets an error in place of no access. -/
theorem accessLevel_stranger :
    Grounded sharedFolders ∧ outerFolder ∈ sharedFolders.files ∧
    liveIn 1 outerFolder.id outerFolder = true ∧
    ¬∃ level, AclRepo.accessLevel 1 outerFolder.id 9 sharedFolders = .ok level ∧
      HasLevel sharedFolders 1 9 outerFolder level := by
  refine ⟨sharedFolders_grounded, List.mem_cons_self, rfl, ?_⟩
  rintro ⟨level, done, _⟩
  have failed : AclRepo.accessLevel 1 outerFolder.id 9 sharedFolders = .error .database := rfl
  cases failed.symm.trans done

end Expresso.Drive
