import Expresso.Imap.Folders

/-! What `RENAME` does to the folder names, and when that is a rename of the source and of the
folders below it. -/

namespace Expresso.Imap
open Text Sql

/-! ### The transaction -/

section
variable {userId tenantId : Uuid} {s s' : Store}

/-- What the unique index of the mailboxes looks at. -/
def folderKeys (rows : List Mailbox) : List (Uuid × Str) :=
  rows.map fun mb => (mb.userId, mb.folderName)

variable (userId tenantId) in
theorem renameRows_id (old new : Str) (rows : List Mailbox) :
    (renameRows userId tenantId old new rows).map (·.id) = rows.map (·.id) := by
  rw [renameRows, List.map_map]
  apply List.map_congr_left
  intro mb _
  simp only [Function.comp_apply]
  split <;> rfl

/-- Only the unique index can refuse a new name. -/
theorem renameFolder_eq (names : Str × Str) :
    renameFolder userId tenantId s names =
      if (folderKeys (renameRows userId tenantId names.1 names.2 s.mailboxes)).Nodup then
        commit { s.toTables with
          mailboxes := renameRows userId tenantId names.1 names.2 s.mailboxes }
      else none := by
  rw [renameFolder]
  split
  · rfl
  · next taken => exact dif_neg fun valid => taken valid.2.1

theorem renameFolder_isSome {names : Str × Str}
    (free : (folderKeys (renameRows userId tenantId names.1 names.2 s.mailboxes)).Nodup) :
    ∃ s', renameFolder userId tenantId s names = some s' ∧
      s'.mailboxes = renameRows userId tenantId names.1 names.2 s.mailboxes := by
  obtain ⟨ids, -, messageIds, uids, references, counts, small⟩ := s.constraints
  rw [← renameRows_id userId tenantId names.1 names.2] at ids references
  have valid : ({ s.toTables with
      mailboxes := renameRows userId tenantId names.1 names.2 s.mailboxes } :
        Tables).Constraints := by
    refine ⟨ids, free, messageIds, uids, references, fun mb member => ?_, small⟩
    obtain ⟨old, listed, same⟩ := List.mem_map.mp member
    have isId : mb.id = old.id := by
      rw [← same]
      split <;> rfl
    rw [isId]
    exact counts old listed
  exact ⟨⟨_, valid⟩, dif_pos valid, rfl⟩

/-- The rows after a list of updates. -/
def renamedRows (userId tenantId : Uuid) (rows : List Mailbox) (updates : List (Str × Str)) :
    List Mailbox :=
  updates.foldl (fun rows names => renameRows userId tenantId names.1 names.2 rows) rows

/-- At some update the new name is that of another mailbox of the user. -/
def Taken (userId tenantId : Uuid) : List Mailbox → List (Str × Str) → Prop
  | _, [] => False
  | rows, names :: rest =>
      ¬ (folderKeys (renameRows userId tenantId names.1 names.2 rows)).Nodup ∨
        Taken userId tenantId (renameRows userId tenantId names.1 names.2 rows) rest

theorem foldlM_renameFolder (updates : List (Str × Str)) :
    (Taken userId tenantId s.mailboxes updates ∧
        updates.foldlM (renameFolder userId tenantId) s = none) ∨
      (¬ Taken userId tenantId s.mailboxes updates ∧
        ∃ s', updates.foldlM (renameFolder userId tenantId) s = some s' ∧
          s'.mailboxes = renamedRows userId tenantId s.mailboxes updates) := by
  induction updates generalizing s with
  | nil => exact .inr ⟨not_false, s, rfl, rfl⟩
  | cons names rest ih =>
    rw [List.foldlM_cons, Taken, renamedRows, List.foldl_cons, ← renamedRows]
    by_cases free : (folderKeys (renameRows userId tenantId names.1 names.2 s.mailboxes)).Nodup
    · obtain ⟨s₁, done, rows⟩ := renameFolder_isSome free
      rw [done, ← rows, Option.bind_eq_bind, Option.bind_some,
        or_iff_right (not_not.mpr (rows ▸ free))]
      exact ih
    · rw [renameFolder_eq, if_neg free]
      exact .inl ⟨.inl free, rfl⟩

/-! ### One folder -/

/-- What the updates make of a name. -/
def nameAfter (updates : List (Str × Str)) (name : Str) : Str :=
  updates.foldl (fun name names => if name = names.1 then names.2 else name) name

theorem nameAfter_cons (names : Str × Str) (rest : List (Str × Str)) (name : Str) :
    nameAfter (names :: rest) name =
      nameAfter rest (if name = names.1 then names.2 else name) :=
  rfl

/-- A user's mailboxes under other names. -/
def relabel (userId tenantId : Uuid) (rename : Str → Str) (mb : Mailbox) : Mailbox :=
  if ownedBy userId tenantId mb then { mb with folderName := rename mb.folderName } else mb

theorem renamedRows_eq (rows : List Mailbox) (updates : List (Str × Str)) :
    renamedRows userId tenantId rows updates =
      rows.map (relabel userId tenantId (nameAfter updates)) := by
  induction updates generalizing rows with
  | nil =>
    rw [renamedRows, List.foldl_nil]
    symm
    refine (List.map_congr_left fun mb _ => ?_).trans (List.map_id rows)
    rw [relabel]
    split <;> rfl
  | cons names rest ih =>
    rw [renamedRows, List.foldl_cons, ← renamedRows, ih, renameRows, List.map_map]
    apply List.map_congr_left
    intro mb _
    rw [Function.comp_apply, relabel, relabel, nameAfter_cons]
    by_cases owned : ownedBy userId tenantId mb = true
    · have moved (name : Str) : ownedBy userId tenantId { mb with folderName := name } = true :=
        owned
      by_cases same : mb.folderName = names.1
      · simp [namedBy, owned, same, moved]
      · simp [namedBy, owned, same]
    · simp [namedBy, owned]

theorem nameAfter_of_notMem {updates : List (Str × Str)} {name : Str}
    (other : name ∉ updates.map (·.1)) : nameAfter updates name = name := by
  induction updates with
  | nil => rfl
  | cons names rest ih =>
    obtain ⟨first, later⟩ := not_or.mp (List.mem_cons.not.mp other)
    rw [nameAfter_cons, if_neg first]
    exact ih later

theorem nameAfter_append (first second : List (Str × Str)) (name : Str) :
    nameAfter (first ++ second) name = nameAfter second (nameAfter first name) :=
  List.foldl_append

theorem taken_append {rows : List Mailbox} {first second : List (Str × Str)} :
    Taken userId tenantId rows (first ++ second) ↔
      Taken userId tenantId rows first ∨
        Taken userId tenantId (renamedRows userId tenantId rows first) second := by
  induction first generalizing rows with
  | nil => simp [Taken, renamedRows]
  | cons names rest ih =>
    rw [List.cons_append, Taken, Taken, ih, or_assoc]
    rfl

/-- Two mailboxes of a user with different names cannot both get the same one. -/
theorem folderKeys_rename_inj {rows : List Mailbox} {old new : Str}
    (free : (folderKeys (renameRows userId tenantId old new rows)).Nodup) {mb other : Mailbox}
    (listed : mb ∈ rows) (listed' : other ∈ rows) (owned : ownedBy userId tenantId mb = true)
    (owned' : ownedBy userId tenantId other = true) (isOld : mb.folderName = old)
    (isOther : other.folderName ≠ old) : other.folderName ≠ new := by
  intro same
  have user : mb.userId = other.userId := by
    simp only [ownedBy, Bool.and_eq_true, decide_eq_true_eq] at owned owned'
    exact owned.1.trans owned'.1.symm
  rw [folderKeys, renameRows, List.map_map] at free
  have renamed : namedBy userId tenantId old mb = true := by simp [namedBy, owned, isOld]
  have kept : ¬ namedBy userId tenantId old other = true := by simp [namedBy, isOther]
  have equal : mb = other := by
    apply List.inj_on_of_nodup_map free listed listed'
    rw [Function.comp_apply, Function.comp_apply, if_pos renamed, if_neg kept, same, user]
  exact isOther (equal ▸ isOld)

/-- If no new name is taken, each folder gets its own new name and keeps it. -/
theorem nameAfter_own {rows : List Mailbox} {updates : List (Str × Str)}
    (free : ¬ Taken userId tenantId rows updates) (distinct : (updates.map (·.1)).Nodup)
    (present : ∀ names ∈ updates, ∃ mb ∈ rows, ownedBy userId tenantId mb = true ∧
      mb.folderName = names.1) {names : Str × Str} (member : names ∈ updates) :
    nameAfter updates names.1 = names.2 := by
  induction updates generalizing rows with
  | nil => cases member
  | cons first rest ih =>
    obtain ⟨index, later⟩ := not_or.mp free
    obtain ⟨new, others⟩ := List.nodup_cons.mp distinct
    have different : ∀ names ∈ rest, names.1 ≠ first.1 :=
      fun names among same => new (List.mem_map.mpr ⟨names, among, same⟩)
    rw [nameAfter_cons]
    rcases List.mem_cons.mp member with rfl | among
    · rw [if_pos rfl]
      apply nameAfter_of_notMem
      intro again
      obtain ⟨second, inRest, same⟩ := List.mem_map.mp again
      obtain ⟨mb, listed, owned, isName⟩ := present names List.mem_cons_self
      obtain ⟨other, listed', owned', isOther⟩ := present second (List.mem_cons_of_mem _ inRest)
      exact folderKeys_rename_inj (not_not.mp index) listed listed' owned owned' isName
        (isOther ▸ different second inRest) (isOther.trans same)
    · rw [if_neg (different names among)]
      refine ih later others (fun names' inRest => ?_) among
      obtain ⟨mb, listed, owned, isName⟩ := present names' (List.mem_cons_of_mem _ inRest)
      refine ⟨mb, List.mem_map.mpr ⟨mb, listed, ?_⟩, owned, isName⟩
      rw [if_neg]
      simp [namedBy, isName, different names' inRest]

end

/-! ### The names -/

section
variable {userId tenantId : Uuid} {src dst : Str} {s : Store} {children : List (Str × Str)}

def HasFolder (userId tenantId : Uuid) (s : Store) (name : Str) : Prop :=
  ∃ mb ∈ s.mailboxes, ownedBy userId tenantId mb = true ∧ mb.folderName = name

theorem map_relabel_eq_iff {f g : Str → Str} :
    s.mailboxes.map (relabel userId tenantId f) = s.mailboxes.map (relabel userId tenantId g) ↔
      ∀ name, HasFolder userId tenantId s name → f name = g name := by
  rw [List.map_inj_left]
  constructor
  · intro same name folder
    obtain ⟨mb, listed, owned, isName⟩ := folder
    have equal := congrArg (·.folderName) (same mb listed)
    simpa [relabel, owned, isName] using equal
  · intro same mb listed
    rw [relabel, relabel]
    split
    · next owned => rw [same mb.folderName ⟨mb, listed, owned, rfl⟩]
    · rfl

variable (userId tenantId) in
theorem map_relabel_id : s.mailboxes.map (relabel userId tenantId id) = s.mailboxes := by
  refine (List.map_congr_left fun mb _ => ?_).trans (List.map_id s.mailboxes)
  rw [relabel]
  split <;> rfl

theorem mem_childrenOf {name : Str} :
    name ∈ childrenOf userId tenantId src s ↔
      HasFolder userId tenantId s name ∧ like (src ++ ['/', '%']) name = true := by
  simp only [childrenOf, mem_orderBy, List.mem_filter, List.mem_map, HasFolder, and_assoc]

theorem childrenOf_nodup : (childrenOf userId tenantId src s).Nodup := by
  rw [childrenOf, orderBy, (List.perm_insertionSort _ _).nodup_iff]
  apply List.Nodup.filter
  have keys := List.Nodup.sublist
    ((List.filter_sublist (p := ownedBy userId tenantId)).map fun mb => (mb.userId, mb.folderName))
    s.constraints.2.1
  refine List.Nodup.map_on (fun mb listed other listed' same => ?_) (List.Nodup.of_map _ keys)
  have owned := (List.mem_filter.mp listed).2
  have owned' := (List.mem_filter.mp listed').2
  simp only [ownedBy, Bool.and_eq_true, decide_eq_true_eq] at owned owned'
  apply List.inj_on_of_nodup_map keys listed listed'
  rw [owned.1, owned'.1, same]

theorem renamings_ok (named : renamings userId tenantId src dst s = .ok children) :
    children.map (·.1) = childrenOf userId tenantId src s ∧
      ∀ names ∈ children, childName src dst names.1 = .ok names.2 := by
  rw [renamings] at named
  generalize childrenOf userId tenantId src s = folders at named ⊢
  induction folders generalizing children with
  | nil =>
    cases named
    exact ⟨rfl, fun names member => nomatch member⟩
  | cons child rest ih =>
    rw [List.mapM_cons] at named
    cases first : childName src dst child with
    | error panic =>
      rw [first] at named
      cases named
    | ok new =>
      cases later : rest.mapM fun child => (childName src dst child).map (child, ·) with
      | error panic =>
        rw [first, later] at named
        cases named
      | ok names =>
        rw [first, later] at named
        cases named
        obtain ⟨olds, news⟩ := ih later
        refine ⟨by rw [List.map_cons, olds], fun pair member => ?_⟩
        rcases List.mem_cons.mp member with rfl | among
        · exact first
        · exact news pair among

theorem childName_ok {child new : Str} (named : childName src dst child = .ok new) :
    ∃ before suffix, child = before ++ suffix ∧ len before = len src + 1 ∧
      new = dst ++ ['/'] ++ suffix := by
  rw [childName] at named
  cases cut : splitAt (len (src ++ ['/'])) child with
  | error panic =>
    rw [cut] at named
    cases named
  | ok halves =>
    rw [cut] at named
    cases named
    obtain ⟨joined, length⟩ := splitAt_eq_ok cut
    refine ⟨halves.1, halves.2, joined.symm, length.trans ?_, rfl⟩
    simp only [len, List.map_append, List.sum_append]
    rfl

/-! ### Exactness -/

/-- A folder below the source keeps what follows the source in its name. -/
def descendantName (src dst name : Str) : Str :=
  if name = src then dst
  else if (src ++ delimiter).isPrefixOf name then dst ++ name.drop src.length
  else name

/-- `OK` is for new names of the source and of the folders below it and of no other, and `NO` for
no change. -/
def AnswersExactly {Item : Type} (userId tenantId : Uuid) (src dst : Str) (s s' : Store) :
    Response Item → Prop
  | .ok .. => s'.mailboxes = s.mailboxes.map (relabel userId tenantId (descendantName src dst))
  | .no .. => s'.mailboxes = s.mailboxes
  | _ => False

/-- The command does not panic, and its answer says what it did. -/
def RenamesExactly (Item : Type) (userId tenantId : Uuid) (src dst : Str) (s : Store) : Prop :=
  ∃ (s' : Store) (response : Response Item),
    cmdRename userId tenantId src dst s = .ok (s', [response]) ∧
      AnswersExactly userId tenantId src dst s s' response

variable {Item : Type}

theorem renamesExactly_iff_of_done {s' : Store} {response : Response Item}
    (done : cmdRename userId tenantId src dst s = .ok (s', [response])) :
    RenamesExactly Item userId tenantId src dst s ↔
      AnswersExactly userId tenantId src dst s s' response := by
  constructor
  · intro ⟨s₁, answer, returned, exact⟩
    cases done.symm.trans returned
    exact exact
  · exact fun exact => ⟨s', response, done, exact⟩

/-- Some folder has the source's name when its turn comes. -/
def Reaches (userId tenantId : Uuid) (s : Store) (children : List (Str × Str)) (src : Str) : Prop :=
  ∃ name, HasFolder userId tenantId s name ∧ nameAfter children name = src

theorem any_namedBy_iff {s' : Store}
    (rows : s'.mailboxes = s.mailboxes.map (relabel userId tenantId (nameAfter children))) :
    s'.mailboxes.any (namedBy userId tenantId src) = true ↔
      Reaches userId tenantId s children src := by
  have owns (f : Str → Str) (mb : Mailbox) :
      ownedBy userId tenantId (relabel userId tenantId f mb) = ownedBy userId tenantId mb := by
    rw [relabel]
    split <;> rfl
  simp only [rows, List.any_map, List.any_eq_true, Function.comp_apply, namedBy, owns,
    Bool.and_eq_true, decide_eq_true_eq]
  constructor
  · intro ⟨mb, listed, owned, isName⟩
    rw [relabel, if_pos owned] at isName
    exact ⟨mb.folderName, ⟨mb, listed, owned, rfl⟩, isName⟩
  · intro ⟨name, ⟨mb, listed, owned, isName⟩, reached⟩
    refine ⟨mb, listed, owned, ?_⟩
    rw [relabel, if_pos owned, isName]
    exact reached

theorem cmdRename_taken (other : ¬ isInbox src = true)
    (named : renamings userId tenantId src dst s = .ok children)
    (taken : Taken userId tenantId s.mailboxes (children ++ [(src, dst)])) :
    cmdRename userId tenantId src dst s = .ok (s, [@Response.no Item "no such mailbox"]) := by
  rw [cmdRename, if_neg other, named]
  simp only [bind, Except.bind]
  rcases foldlM_renameFolder children with ⟨-, aborted⟩ | ⟨free, s₁, done, rows⟩
  · rw [aborted]
  · rcases taken_append.mp taken with early | late
    · exact absurd early free
    · have refused : renameFolder userId tenantId s₁ (src, dst) = none := by
        rw [renameFolder_eq, rows]
        exact if_neg fun free => late.elim (absurd free) id
      rw [done]
      simp only [refused]

variable (Item) in
theorem cmdRename_free (other : ¬ isInbox src = true)
    (named : renamings userId tenantId src dst s = .ok children)
    (free : ¬ Taken userId tenantId s.mailboxes (children ++ [(src, dst)])) :
    ∃ s' : Store, s'.mailboxes =
        s.mailboxes.map (relabel userId tenantId (nameAfter (children ++ [(src, dst)]))) ∧
      ((Reaches userId tenantId s children src ∧ cmdRename userId tenantId src dst s =
          .ok (s', [@Response.ok Item none "RENAME completed"])) ∨
        (¬ Reaches userId tenantId s children src ∧ cmdRename userId tenantId src dst s =
          .ok (s', [@Response.no Item "no such mailbox"]))) := by
  rcases foldlM_renameFolder children with ⟨taken, -⟩ | ⟨-, s₁, done, rows⟩
  · exact absurd (taken_append.mpr (.inl taken)) free
  · rw [taken_append, not_or, ← rows] at free
    have last := not_not.mp (not_or.mp free.2).1
    obtain ⟨s₂, renamed, rows'⟩ := renameFolder_isSome last
    have names : s₂.mailboxes =
        s.mailboxes.map (relabel userId tenantId (nameAfter (children ++ [(src, dst)]))) := by
      rw [rows', rows, ← renamedRows_eq, renamedRows, renamedRows, List.foldl_append]
      rfl
    refine ⟨s₂, names, ?_⟩
    rw [cmdRename, if_neg other, named]
    simp only [bind, Except.bind, done, renamed]
    rw [renamedRows_eq] at rows
    by_cases affected : s₁.mailboxes.any (namedBy userId tenantId src) = true
    · exact .inl ⟨(any_namedBy_iff rows).mp affected, if_pos affected⟩
    · exact .inr ⟨fun reached => affected ((any_namedBy_iff rows).mpr reached), if_neg affected⟩

theorem renamesExactly_iff_of_free (other : ¬ isInbox src = true)
    (named : renamings userId tenantId src dst s = .ok children)
    (free : ¬ Taken userId tenantId s.mailboxes (children ++ [(src, dst)])) :
    RenamesExactly Item userId tenantId src dst s ↔
      ∀ name, HasFolder userId tenantId s name →
        (Reaches userId tenantId s children src →
          nameAfter (children ++ [(src, dst)]) name = descendantName src dst name) ∧
        (¬ Reaches userId tenantId s children src →
          nameAfter (children ++ [(src, dst)]) name = name) := by
  obtain ⟨s', rows, ⟨reached, done⟩ | ⟨missed, done⟩⟩ :=
    cmdRename_free Item other named free
  · rw [renamesExactly_iff_of_done done, AnswersExactly, rows, map_relabel_eq_iff]
    simp only [reached, true_imp_iff, not_true, false_imp_iff, and_true]
  · rw [renamesExactly_iff_of_done done, AnswersExactly, rows]
    nth_rewrite 2 [← map_relabel_id userId tenantId]
    rw [map_relabel_eq_iff]
    simp only [missed, false_imp_iff, not_false_iff, true_imp_iff, true_and, id]

theorem renamings_present (named : renamings userId tenantId src dst s = .ok children) :
    (children.map (·.1)).Nodup ∧
      ∀ names ∈ children, HasFolder userId tenantId s names.1 ∧ len src < len names.1 := by
  obtain ⟨olds, news⟩ := renamings_ok named
  refine ⟨olds ▸ childrenOf_nodup, fun names member => ?_⟩
  have folder : names.1 ∈ childrenOf userId tenantId src s :=
    olds ▸ List.mem_map_of_mem member
  obtain ⟨before, suffix, joined, length, -⟩ := childName_ok (news names member)
  refine ⟨(mem_childrenOf.mp folder).1, ?_⟩
  simp only [joined, len, List.map_append, List.sum_append] at length ⊢
  omega

theorem descendantName_below {rest : Str} :
    descendantName src dst (src ++ delimiter ++ rest) = dst ++ delimiter ++ rest := by
  have longer : src ++ delimiter ++ rest ≠ src := by simp [delimiter]
  rw [descendantName, if_neg longer, if_pos (by simp), List.append_assoc, List.drop_left,
    List.append_assoc]

theorem descendantName_other {name : Str} (different : name ≠ src)
    (beside : ¬ src ++ delimiter <+: name) : descendantName src dst name = name := by
  rw [descendantName, if_neg different, if_neg (by simpa using beside)]

/-- The new name of a child has a slash where that of a folder below the source has a dot. -/
theorem childName_ne_below {child new rest : Str} (named : childName src dst child = .ok new) :
    new ≠ dst ++ delimiter ++ rest := by
  obtain ⟨before, suffix, -, -, rfl⟩ := childName_ok named
  simp [delimiter]

/-- No folder name changes but the source's, in the hierarchy of the statement or in that of
`LIST`. -/
def NothingBelow (userId tenantId : Uuid) (src dst : Str) (s : Store)
    (children : List (Str × Str)) : Prop :=
  (∀ names ∈ children, names.2 = names.1) ∧
    (HasFolder userId tenantId s src → src ≠ dst →
      ∀ name, HasFolder userId tenantId s name → ¬ src ++ delimiter <+: name)

theorem NothingBelow.descendantName_eq (nothing : NothingBelow userId tenantId src dst s children)
    (present : HasFolder userId tenantId s src) {name : Str}
    (folder : HasFolder userId tenantId s name) (different : name ≠ src) :
    descendantName src dst name = name := by
  by_cases below : src ++ delimiter <+: name
  · have same : src = dst := by
      by_contra moved
      exact nothing.2 present moved name folder below
    obtain ⟨rest, rfl⟩ := below
    rw [descendantName_below, same]
  · exact descendantName_other different below

/-- If the source exists, exactly the folders below it in either hierarchy can go wrong. -/
theorem exact_iff_of_present (named : renamings userId tenantId src dst s = .ok children)
    (free : ¬ Taken userId tenantId s.mailboxes (children ++ [(src, dst)]))
    (present : HasFolder userId tenantId s src) :
    (∀ name, HasFolder userId tenantId s name →
        nameAfter (children ++ [(src, dst)]) name = descendantName src dst name) ↔
      NothingBelow userId tenantId src dst s children := by
  obtain ⟨distinct, folders⟩ := renamings_present named
  have longer : ∀ names ∈ children, names.1 ≠ src :=
    fun names member same => absurd (folders names member).2 (by rw [same]; exact lt_irrefl _)
  have own : ∀ names ∈ children ++ [(src, dst)],
      nameAfter (children ++ [(src, dst)]) names.1 = names.2 := by
    intro names member
    apply nameAfter_own free _ _ member
    · rw [List.map_append, List.nodup_append]
      refine ⟨distinct, List.nodup_singleton _, fun name listed other last => ?_⟩
      obtain ⟨names', member', rfl⟩ := List.mem_map.mp listed
      rw [List.mem_singleton.mp last]
      exact longer names' member'
    · intro names' member'
      rcases List.mem_append.mp member' with child | last
      · exact (folders names' child).1
      · rw [List.mem_singleton.mp last]
        exact present
  have kept : ∀ name, name ∉ children.map (·.1) → name ≠ src →
      nameAfter (children ++ [(src, dst)]) name = name := by
    intro name other different
    apply nameAfter_of_notMem
    rw [List.map_append, List.mem_append]
    exact fun among => among.elim other fun last => different (List.mem_singleton.mp last)
  constructor
  · intro exact
    have beside : ∀ names ∈ children, ¬ src ++ delimiter <+: names.1 := by
      intro names member ⟨rest, isName⟩
      have expected := exact names.1 (folders names member).1
      rw [own names (List.mem_append_left _ member), ← isName, descendantName_below] at expected
      exact childName_ne_below ((renamings_ok named).2 names member) expected
    refine ⟨fun names member => ?_, fun _ moved name folder below => ?_⟩
    · have expected := exact names.1 (folders names member).1
      rwa [own names (List.mem_append_left _ member),
        descendantName_other (longer names member) (beside names member)] at expected
    · have other : name ∉ children.map (·.1) := by
        intro among
        obtain ⟨names, member, rfl⟩ := List.mem_map.mp among
        exact beside names member below
      obtain ⟨rest, rfl⟩ := below
      have expected := exact _ folder
      rw [kept _ other (by simp [delimiter]), descendantName_below] at expected
      exact moved (List.append_cancel_right (List.append_cancel_right expected))
  · intro nothing name folder
    by_cases isSource : name = src
    · rw [isSource, descendantName, if_pos rfl]
      exact own (src, dst) (List.mem_append_right _ List.mem_cons_self)
    · rw [nothing.descendantName_eq present folder isSource]
      by_cases child : name ∈ children.map (·.1)
      · obtain ⟨names, member, rfl⟩ := List.mem_map.mp child
        exact (own names (List.mem_append_left _ member)).trans (nothing.1 names member)
      · exact kept name child isSource

theorem nameAfter_last (name : Str) :
    nameAfter (children ++ [(src, dst)]) name =
      if nameAfter children name = src then dst else nameAfter children name :=
  nameAfter_append children [(src, dst)] name

/-- A child that gets the source's name is renamed a second time, to a name that is shorter. -/
theorem exact_iff_of_absent (named : renamings userId tenantId src dst s = .ok children)
    (free : ¬ Taken userId tenantId s.mailboxes children)
    (absent : ¬ HasFolder userId tenantId s src) :
    (∀ name, HasFolder userId tenantId s name →
        (Reaches userId tenantId s children src →
          nameAfter (children ++ [(src, dst)]) name = descendantName src dst name) ∧
        (¬ Reaches userId tenantId s children src →
          nameAfter (children ++ [(src, dst)]) name = name)) ↔
      NothingBelow userId tenantId src dst s children := by
  obtain ⟨distinct, folders⟩ := renamings_present named
  have own : ∀ names ∈ children, nameAfter children names.1 = names.2 :=
    fun names member => nameAfter_own free distinct (fun names' child => (folders names' child).1)
      member
  have isChild : ∀ name, HasFolder userId tenantId s name → nameAfter children name ≠ name →
      ∃ names ∈ children, names.1 = name := by
    intro name folder changed
    by_contra none
    exact changed (nameAfter_of_notMem fun among => none (List.mem_map.mp among))
  constructor
  · intro exact
    refine ⟨fun names member => ?_, fun present => absurd present absent⟩
    obtain ⟨folder, longer⟩ := folders names member
    by_cases reached : Reaches userId tenantId s children src
    · exfalso
      obtain ⟨name, isFolder, isSource⟩ := reached
      obtain ⟨pair, among, rfl⟩ := isChild name isFolder
        fun same => absent ((same.symm.trans isSource) ▸ isFolder)
      have expected := (exact pair.1 isFolder).1 ⟨pair.1, isFolder, isSource⟩
      rw [nameAfter_last, if_pos isSource] at expected
      rw [own pair among] at isSource
      by_cases below : src ++ delimiter <+: pair.1
      · obtain ⟨rest, isName⟩ := below
        rw [← isName, descendantName_below] at expected
        simp [delimiter] at expected
      · have different : pair.1 ≠ src := fun same => absent (same ▸ isFolder)
        rw [descendantName_other different below] at expected
        obtain ⟨before, suffix, -, -, isNew⟩ := childName_ok ((renamings_ok named).2 pair among)
        have shorter := (folders pair among).2
        rw [← expected, ← isSource, isNew] at shorter
        simp only [len, List.map_append, List.sum_append] at shorter
        omega
    · have expected := (exact names.1 folder).2 reached
      have other : nameAfter children names.1 ≠ src :=
        fun isSource => reached ⟨names.1, folder, isSource⟩
      rwa [nameAfter_last, if_neg other, own names member] at expected
  · intro nothing
    have kept : ∀ name, HasFolder userId tenantId s name → nameAfter children name = name := by
      intro name folder
      by_contra changed
      obtain ⟨names, member, rfl⟩ := isChild name folder changed
      exact changed ((own names member).trans (nothing.1 names member))
    have missed : ¬ Reaches userId tenantId s children src := by
      rintro ⟨name, folder, isSource⟩
      rw [kept name folder] at isSource
      exact absent (isSource ▸ folder)
    intro name folder
    refine ⟨fun reached => absurd reached missed, fun _ => ?_⟩
    rw [nameAfter_last, kept name folder, if_neg fun same : name = src => absent (same ▸ folder)]

theorem reaches_of_present (named : renamings userId tenantId src dst s = .ok children)
    (present : HasFolder userId tenantId s src) : Reaches userId tenantId s children src := by
  refine ⟨src, present, nameAfter_of_notMem fun among => ?_⟩
  obtain ⟨names, member, same⟩ := List.mem_map.mp among
  have longer := ((renamings_present named).2 names member).2
  rw [same] at longer
  exact lt_irrefl _ longer

theorem rename_exact_iff :
    RenamesExactly Item userId tenantId src dst s ↔
      isInbox src = true ∨ ∃ children, renamings userId tenantId src dst s = .ok children ∧
        (Taken userId tenantId s.mailboxes (children ++ [(src, dst)]) ∨
          NothingBelow userId tenantId src dst s children) := by
  by_cases inbox : isInbox src = true
  · have refused : cmdRename userId tenantId src dst s =
        .ok (s, [@Response.no Item "RENAME INBOX not supported"]) := by
      rw [cmdRename, if_pos inbox]
    rw [renamesExactly_iff_of_done refused]
    exact ⟨fun _ => .inl inbox, fun _ => rfl⟩
  rw [or_iff_right inbox]
  cases named : renamings userId tenantId src dst s with
  | error panic =>
    simp only [reduceCtorEq, false_and, exists_false, iff_false]
    intro ⟨s', response, done, _⟩
    rw [cmdRename, if_neg inbox, named] at done
    cases done
  | ok children =>
    simp only [Except.ok.injEq, exists_eq_left']
    by_cases taken : Taken userId tenantId s.mailboxes (children ++ [(src, dst)])
    · rw [renamesExactly_iff_of_done (cmdRename_taken inbox named taken)]
      exact ⟨fun _ => .inl taken, fun _ => rfl⟩
    rw [or_iff_right taken, renamesExactly_iff_of_free inbox named taken]
    by_cases present : HasFolder userId tenantId s src
    · rw [← exact_iff_of_present named taken present]
      simp only [reaches_of_present named present, true_imp_iff, not_true, false_imp_iff, and_true]
    · apply exact_iff_of_absent named _ present
      exact fun early => taken (taken_append.mpr (.inl early))

end

/-! ### The delimiter -/

/-- The folder names that a command leaves. -/
def namesLeft : Except Panic (Store × List (Response Unit)) → Option (List Str)
  | .ok (s, _) => some (s.mailboxes.map (·.folderName))
  | .error _ => none

theorem RenamesExactly.namesLeft_eq {userId tenantId : Uuid} {src dst : Str} {s : Store}
    (exact : RenamesExactly Unit userId tenantId src dst s) :
    namesLeft (cmdRename userId tenantId src dst s) = some (s.mailboxes.map (·.folderName)) ∨
      namesLeft (cmdRename userId tenantId src dst s) = some ((s.mailboxes.map
        (relabel userId tenantId (descendantName src dst))).map (·.folderName)) := by
  obtain ⟨s', response, done, answer⟩ := exact
  rw [done, namesLeft]
  cases response with
  | ok code text => exact .inr (congrArg (fun rows => some (rows.map (·.folderName))) answer)
  | no text => exact .inl (congrArg (fun rows => some (rows.map (·.folderName))) answer)
  | _ => exact answer.elim

/-- Empty folders of the user 1. -/
def foldersNamed (names : List Str) : Tables :=
  ⟨names.zipIdx.map fun ⟨name, k⟩ => ⟨k, 1, 1, name, 1700000000, 1, 0, 0, 0⟩, [], 1⟩

def workReports : Store :=
  ⟨foldersNamed ["Work".toList, "Work.Reports".toList], by decide⟩

def slashedReports : Store := ⟨foldersNamed ["Work/Reports".toList], by decide⟩

/-- A folder below the source stays behind, and the `NO` for a source that does not exist comes
after another folder got a new name. -/
theorem rename_not_exact :
    ¬ RenamesExactly Unit 1 1 "Work".toList "Job".toList workReports ∧
      ¬ RenamesExactly Unit 1 1 "Work".toList "Job".toList slashedReports :=
  ⟨fun exact => absurd exact.namesLeft_eq (by decide),
    fun exact => absurd exact.namesLeft_eq (by decide)⟩

end Expresso.Imap
