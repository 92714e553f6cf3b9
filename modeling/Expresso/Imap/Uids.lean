import Expresso.Imap.Session

/-! UIDs over whole runs. Every UID is taken from `next_uid`, which the statistics compute
from the rows that are left; so UIDs only grow as long as no step takes the highest row out
of a mailbox, and no sweep brings in a row below it. -/

namespace Expresso.Imap
open Text Sql

/-! ### Runs -/

/-- The commands of any session, with the rows they have read, and the sweep. The ids that
`Uuid::new_v4` makes are not those of rows already read. -/
inductive Command where
  | append (userId tenantId : Uuid) (folder : Str) (draft : Draft)
  | copy (userId tenantId : Uuid) (folder : Str) (rows : List Message) (newId : Nat → Uuid)
      (now : Int)
  | move (mailboxId userId tenantId : Uuid) (folder : Str) (rows : List Message)
      (newId : Nat → Uuid) (now : Int) (unused : ∀ i, newId i ∉ rows.map (·.id))
  | expunge (mailboxId tenantId : Uuid)
  | expungeUid (mailboxId tenantId : Uuid) (set : SequenceSet)
  | close (sel : SelectedMailbox) (tenantId : Uuid)
  | store (kind : StoreType) (flags : List Str) (selected : Message → Bool)
  | sweep (lower : Str → Str) (rules : List SweepRule) (now : Int)

/-- UIDs assigned at the same moment. -/
abbrev Batch := List Assignment

/-- The messages a sweep moves, under their new mailbox. -/
def swept (lower : Str → Str) (rules : List SweepRule) (now : Int) (s : Store) : Batch :=
  s.messages.filterMap fun m => (sweepTarget lower rules now s.mailboxes m).map fun target =>
    ⟨target, m.uid, m.id⟩

/-- A command that fails, or finds no mailbox, changes nothing. -/
def step (s : Store) : Command → Store × List Batch
  | .append userId tenantId folder draft =>
      match (findMailbox userId tenantId folder s).bind fun dst =>
        appendMessage dst tenantId draft s with
      | none => (s, [])
      | some (s', assigned) => (s', [[assigned]])
  | .copy userId tenantId folder rows newId now =>
      match (findMailbox userId tenantId folder s).bind fun dst =>
        insertCopies dst tenantId now newId 0 rows s with
      | none => (s, [])
      | some (s', assigned) => (s', assigned.map fun a => [a])
  | .move mailboxId userId tenantId folder rows newId now _ =>
      match (findMailbox userId tenantId folder s).bind fun dst =>
        moveMessages mailboxId dst tenantId now newId rows s with
      | none => (s, [])
      | some (s', assigned) => (s', assigned.map fun a => [a])
  | .expunge mailboxId tenantId =>
      ((deleteMessages (expunged mailboxId tenantId fun _ => true) s).getD s, [])
  | .expungeUid mailboxId tenantId set =>
      ((deleteMessages (expunged mailboxId tenantId
        (uidClause (sequenceRanges set u32Max))) s).getD s, [])
  | .close sel tenantId =>
      if sel.readOnly then (s, [])
      else ((deleteMessages (expunged sel.mailboxId tenantId fun _ => true) s).getD s, [])
  | .store kind flags selected => ((storeMessages kind flags selected s).getD s, [])
  | .sweep lower rules now =>
      match runSweep lower rules now s with
      | none => (s, [])
      | some s' => (s', [swept lower rules now s])

def run (s : Store) : List Command → Store × List Batch
  | [] => (s, [])
  | c :: rest =>
      let (s', batches) := step s c
      let (s'', later) := run s' rest
      (s'', batches ++ later)

/-! ### Which steps keep the highest row -/

/-- Where a row is after the command: its mailbox, or nowhere. -/
def home (s : Store) (m : Message) : Command → Option Uuid
  | .append .. | .copy .. | .store .. => some m.mailboxId
  | .move mailboxId _ tenantId _ rows _ _ _ =>
      if moved rows mailboxId tenantId m then none else some m.mailboxId
  | .expunge mailboxId tenantId =>
      if expunged mailboxId tenantId (fun _ => true) m then none else some m.mailboxId
  | .expungeUid mailboxId tenantId set =>
      if expunged mailboxId tenantId (uidClause (sequenceRanges set u32Max)) m then none
      else some m.mailboxId
  | .close sel tenantId =>
      if !sel.readOnly && expunged sel.mailboxId tenantId (fun _ => true) m then none
      else some m.mailboxId
  | .sweep lower rules now =>
      some ((sweepTarget lower rules now s.mailboxes m).getD m.mailboxId)

/-- The mailbox a `MOVE` copies into: its copies are above every row there. -/
def refills (s : Store) (mailbox : Uuid) : Command → Prop
  | .move _ userId tenantId folder _ _ _ _ =>
      (findMailbox userId tenantId folder s).map (·.id) = some mailbox
  | _ => False

/-- The step leaves a higher row in every mailbox it takes a row out of, and brings in by
sweep only rows above those of the mailbox. -/
structure KeepsHighest (s : Store) (c : Command) : Prop where
  leaves : ∀ m ∈ s.messages, home s m c ≠ some m.mailboxId → refills s m.mailboxId c ∨
    ∃ m' ∈ s.messages, home s m' c = some m.mailboxId ∧ m.uid < m'.uid
  enters : ∀ m ∈ s.messages, ∀ mailbox, home s m c = some mailbox → mailbox ≠ m.mailboxId →
    ∀ m' ∈ s.messages, m'.mailboxId = mailbox → m'.uid < m.uid

/-- Every step of the run does. -/
def KeepsHighestThroughout (s : Store) : List Command → Prop
  | [] => True
  | c :: rest => KeepsHighest s c ∧ KeepsHighestThroughout (step s c).1 rest

/-! ### The invariant -/

/-- The statistics are up to date and UIDs are positive. -/
structure Sound (s : Store) : Prop where
  synced : ∀ mb ∈ s.mailboxes, mb.nextUid = nextUidOf s.messages mb.id
  positive : ∀ m ∈ s.messages, 1 ≤ m.uid

def Assignment.key (a : Assignment) : Uuid × Int := (a.mailbox, a.uid)

/-- All UIDs of the first batch are below those of the second in the same mailbox. -/
def Below (first second : Batch) : Prop :=
  ∀ a ∈ first, ∀ b ∈ second, a.mailbox = b.mailbox → a.uid < b.uid

def validities (s : Store) : List (Uuid × Int) :=
  s.mailboxes.map fun mb => (mb.id, mb.uidValidity)

/-- From the first store to the second no next UID goes down, and the batches assigned on the
way lie between the two. -/
structure Grows (s s' : Store) (batches : List Batch) : Prop where
  sound : Sound s'
  monotone : ∀ mailbox, nextUidOf s.messages mailbox ≤ nextUidOf s'.messages mailbox
  fresh : ∀ batch ∈ batches, ∀ a ∈ batch,
    nextUidOf s.messages a.mailbox ≤ a.uid ∧ a.uid < nextUidOf s'.messages a.mailbox
  increasing : batches.Pairwise Below
  distinct : ∀ batch ∈ batches, (batch.map Assignment.key).Nodup
  validity : validities s' = validities s

theorem Grows.refl {s : Store} (sound : Sound s) : Grows s s [] :=
  ⟨sound, fun _ => le_refl _, by simp, .nil, by simp, rfl⟩

theorem Grows.trans {s s' s'' : Store} {batches later : List Batch} (first : Grows s s' batches)
    (second : Grows s' s'' later) : Grows s s'' (batches ++ later) := by
  refine ⟨second.sound, ?_, ?_, ?_, ?_, second.validity.trans first.validity⟩
  · intro mailbox
    exact (first.monotone mailbox).trans (second.monotone mailbox)
  · intro batch member a among
    rcases List.mem_append.mp member with before | after
    · have bounds := first.fresh batch before a among
      have rises := second.monotone a.mailbox
      omega
    · have bounds := second.fresh batch after a among
      have rises := first.monotone a.mailbox
      omega
  · refine List.pairwise_append.mpr ⟨first.increasing, second.increasing, ?_⟩
    intro batch before batch' after a among b among' same
    have upper := (first.fresh batch before a among).2
    have lower := (second.fresh batch' after b among').1
    rw [same] at upper
    omega
  · intro batch member
    rcases List.mem_append.mp member with before | after
    · exact first.distinct batch before
    · exact second.distinct batch after

theorem one_le_nextUidOf {messages : List Message} (positive : ∀ m ∈ messages, 1 ≤ m.uid)
    (mailbox : Uuid) : 1 ≤ nextUidOf messages mailbox := by
  rcases nextUidOf_cases messages mailbox with ⟨one, _⟩ | ⟨m, member, _, next⟩
  · omega
  · have low := positive m member
    omega

/-- The next UID does not go down where every row still has one as high beside it. -/
theorem nextUidOf_mono {messages messages' : List Message} {mailbox : Uuid}
    (positive : ∀ m ∈ messages', 1 ≤ m.uid)
    (dominated : ∀ m ∈ messages, m.mailboxId = mailbox →
      ∃ m' ∈ messages', m'.mailboxId = mailbox ∧ m.uid ≤ m'.uid) :
    nextUidOf messages mailbox ≤ nextUidOf messages' mailbox := by
  rcases nextUidOf_cases messages mailbox with ⟨one, _⟩ | ⟨m, member, here, next⟩
  · rw [one]
    exact one_le_nextUidOf positive mailbox
  · obtain ⟨m', member', here', higher⟩ := dominated m member here
    have above := lt_nextUidOf member'
    rw [here'] at above
    omega

theorem nextUidOf_le {messages : List Message} {mailbox : Uuid} {uid : Int} (low : 1 ≤ uid)
    (below : ∀ m ∈ messages, m.mailboxId = mailbox → m.uid < uid) :
    nextUidOf messages mailbox ≤ uid := by
  rcases nextUidOf_cases messages mailbox with ⟨one, _⟩ | ⟨m, member, here, next⟩
  · omega
  · have under := below m member here
    omega

/-- A statement with its trigger keeps the store sound, if the mailboxes it does not refresh
keep their next UID. -/
theorem sound_of_synced {s s' : Store} {targets : List Uuid} {messages : List Message}
    {modseq : Int} (sound : Sound s)
    (result : s'.toTables =
      messagesSyncMailboxStats targets { s.toTables with messages := messages, modseq := modseq })
    (positive : ∀ m ∈ messages, 1 ≤ m.uid)
    (untouched : ∀ mailbox, mailbox ∉ targets →
      nextUidOf messages mailbox = nextUidOf s.messages mailbox) :
    s'.messages = messages ∧ Sound s' ∧ validities s' = validities s := by
  rw [messagesSyncMailboxStats_eq] at result
  have rows : s'.messages = messages := by rw [result]
  have boxes : s'.mailboxes = s.mailboxes.map fun mb =>
      if mb.id ∈ targets then refreshed messages mb else mb := by rw [result]
  refine ⟨rows, ⟨?_, by rwa [rows]⟩, ?_⟩
  · intro mb member
    rw [boxes] at member
    obtain ⟨old, among, same⟩ := List.mem_map.mp member
    rw [rows, ← same]
    split
    · rfl
    · next skipped =>
      rw [untouched old.id skipped]
      exact sound.synced old among
  · simp only [validities, boxes, List.map_map]
    apply List.map_congr_left
    intro mb _
    simp only [Function.comp]
    split <;> rfl

/-! ### Statements -/

theorem insertMessage_grows {s s' : Store} {m : Message} (sound : Sound s)
    (inserted : insertMessage m s = some s') (next : m.uid = nextUidOf s.messages m.mailboxId) :
    Grows s s' [[⟨m.mailboxId, m.uid, m.id⟩]] ∧
      s'.messages = s.messages ++ [{ m with modSequence := s.modseq }] ∧
      nextUidOf s'.messages m.mailboxId = m.uid + 1 := by
  have low := one_le_nextUidOf sound.positive m.mailboxId
  have positive : ∀ x ∈ s.messages ++ [{ m with modSequence := s.modseq }], 1 ≤ x.uid := by
    intro x member
    rcases List.mem_append.mp member with old | new
    · exact sound.positive x old
    · rw [List.mem_singleton.mp new]
      simp only
      omega
  have monotone : ∀ mailbox, nextUidOf s.messages mailbox ≤
      nextUidOf (s.messages ++ [{ m with modSequence := s.modseq }]) mailbox := fun mailbox =>
    nextUidOf_mono positive fun x member here =>
      ⟨x, List.mem_append_left _ member, here, le_refl _⟩
  have elsewhere : ∀ mailbox, mailbox ∉ [m.mailboxId] →
      nextUidOf (s.messages ++ [{ m with modSequence := s.modseq }]) mailbox =
        nextUidOf s.messages mailbox := by
    intro mailbox other
    simp only [List.mem_singleton] at other
    refine le_antisymm (nextUidOf_mono sound.positive ?_) (monotone mailbox)
    intro x member here
    rcases List.mem_append.mp member with old | new
    · exact ⟨x, old, here, le_refl _⟩
    · rw [List.mem_singleton.mp new] at here
      exact absurd here.symm other
  obtain ⟨rows, soundAfter, validity⟩ :=
    sound_of_synced sound (commit_some inserted) positive elsewhere
  have new : { m with modSequence := s.modseq } ∈ s'.messages := by
    rw [rows]
    exact List.mem_append_right _ (List.mem_singleton.mpr rfl)
  have above : m.uid < nextUidOf s'.messages m.mailboxId := by simpa using lt_nextUidOf new
  have top : nextUidOf s'.messages m.mailboxId ≤ m.uid + 1 := by
    apply nextUidOf_le (by omega)
    intro x member here
    rw [rows] at member
    rcases List.mem_append.mp member with old | last
    · have under := lt_nextUidOf old
      rw [here] at under
      omega
    · rw [List.mem_singleton.mp last]
      simp only
      omega
  refine ⟨⟨soundAfter, by rwa [rows], ?_, by simp, by simp, validity⟩, rows, by omega⟩
  intro batch single a only
  rw [List.mem_singleton.mp single] at only
  rw [List.mem_singleton.mp only]
  exact ⟨by simp only; omega, above⟩

theorem deleteMessages_sound {s s' : Store} {selected : Message → Bool} (sound : Sound s)
    (deleted : deleteMessages selected s = some s') :
    s'.messages = s.messages.filter (fun m => !selected m) ∧ Sound s' ∧
      validities s' = validities s := by
  apply sound_of_synced sound (commit_some deleted)
  · intro m member
    exact sound.positive m (List.mem_filter.mp member).1
  · intro mailbox untouched
    have rows : (s.messages.filter fun m => !selected m).filter (fun m => m.mailboxId = mailbox) =
        s.messages.filter fun m => m.mailboxId = mailbox := by
      rw [List.filter_filter]
      apply List.filter_congr
      intro m member
      cases chosen : selected m with
      | false => simp
      | true =>
        have listed : m.mailboxId ∈ (s.messages.filter selected).map (·.mailboxId) :=
          List.mem_map_of_mem (List.mem_filter.mpr ⟨member, chosen⟩)
        have other : m.mailboxId ≠ mailbox := fun same => untouched (same ▸ listed)
        simp [other]
    simp only [nextUidOf, rows]

theorem deleteMessages_grows {s s' : Store} {selected : Message → Bool} (sound : Sound s)
    (deleted : deleteMessages selected s = some s')
    (higher : ∀ m ∈ s.messages, selected m = true →
      ∃ m' ∈ s.messages, selected m' = false ∧ m'.mailboxId = m.mailboxId ∧ m.uid < m'.uid) :
    Grows s s' [] := by
  obtain ⟨rows, soundAfter, validity⟩ := deleteMessages_sound sound deleted
  have kept : ∀ m ∈ s.messages, selected m = false → m ∈ s'.messages := by
    intro m member stays
    rw [rows]
    exact List.mem_filter.mpr ⟨member, by simp [stays]⟩
  refine ⟨soundAfter, ?_, by simp, .nil, by simp, validity⟩
  intro mailbox
  apply nextUidOf_mono soundAfter.positive
  intro m member here
  cases chosen : selected m with
  | false => exact ⟨m, kept m member chosen, here, le_refl _⟩
  | true =>
    obtain ⟨m', member', stays, beside, above⟩ := higher m member chosen
    exact ⟨m', kept m' member' stays, beside.trans here, by omega⟩

/-- A row as the change leaves it. -/
def changed (change : Message → Option Message) (m : Message) : Message := (change m).getD m

theorem changeRows_keys (change : Message → Option Message) (modseq : Int)
    (rows : List Message) :
    (changeRows change modseq rows).map (fun m => (m.mailboxId, m.uid)) =
      rows.map fun m => ((changed change m).mailboxId, (changed change m).uid) := by
  induction rows generalizing modseq with
  | nil => rfl
  | cons m rest ih =>
    cases result : change m with
    | none => simp [changeRows, changed, result, ih]
    | some m' => simp [changeRows, changed, result, ih]

section Update

variable {s s' : Store} {change : Message → Option Message} (sound : Sound s)
  (updated : updateMessages change s = some s')
  (sameUid : ∀ m, (changed change m).uid = m.uid)
  (leaves : ∀ m ∈ s.messages, (changed change m).mailboxId ≠ m.mailboxId →
    ∃ m' ∈ s.messages, (changed change m').mailboxId = m.mailboxId ∧ m.uid < m'.uid)

include sound updated sameUid leaves

theorem updateMessages_grows :
    Grows s s' [] ∧ s'.messages.map (fun m => (m.mailboxId, m.uid)) =
      s.messages.map fun m => ((changed change m).mailboxId, m.uid) := by
  have keys : (changeRows change s.modseq s.messages).map (fun m => (m.mailboxId, m.uid)) =
      s.messages.map fun m => ((changed change m).mailboxId, m.uid) := by
    rw [changeRows_keys]
    simp only [sameUid]
  have origin : ∀ m' ∈ changeRows change s.modseq s.messages, ∃ m ∈ s.messages,
      (changed change m).mailboxId = m'.mailboxId ∧ m.uid = m'.uid := by
    intro m' member
    have listed := List.mem_map_of_mem (f := fun m : Message => (m.mailboxId, m.uid)) member
    rw [keys] at listed
    obtain ⟨m, among, same⟩ := List.mem_map.mp listed
    exact ⟨m, among, (Prod.mk.inj same).1, (Prod.mk.inj same).2⟩
  have image : ∀ m ∈ s.messages, ∃ m' ∈ changeRows change s.modseq s.messages,
      m'.mailboxId = (changed change m).mailboxId ∧ m'.uid = m.uid := by
    intro m member
    have listed := List.mem_map_of_mem
      (f := fun m => ((changed change m).mailboxId, m.uid)) member
    rw [← keys] at listed
    obtain ⟨m', among, same⟩ := List.mem_map.mp listed
    exact ⟨m', among, (Prod.mk.inj same).1, (Prod.mk.inj same).2⟩
  have positive : ∀ m' ∈ changeRows change s.modseq s.messages, 1 ≤ m'.uid := by
    intro m' member
    obtain ⟨m, among, _, same⟩ := origin m' member
    rw [← same]
    exact sound.positive m among
  have monotone : ∀ mailbox, nextUidOf s.messages mailbox ≤
      nextUidOf (changeRows change s.modseq s.messages) mailbox := by
    intro mailbox
    apply nextUidOf_mono positive
    intro m member here
    by_cases stays : (changed change m).mailboxId = m.mailboxId
    · obtain ⟨m', among, place, same⟩ := image m member
      exact ⟨m', among, by rw [place, stays, here], by omega⟩
    · obtain ⟨higher, among, beside, above⟩ := leaves m member stays
      obtain ⟨m', among', place, same⟩ := image higher among
      exact ⟨m', among', by rw [place, beside, here], by omega⟩
  have elsewhere : ∀ mailbox, mailbox ∉ s.messages.flatMap (touchedBy change) →
      nextUidOf (changeRows change s.modseq s.messages) mailbox =
        nextUidOf s.messages mailbox := by
    intro mailbox untouched
    refine le_antisymm (nextUidOf_mono sound.positive ?_) (monotone mailbox)
    intro m' member here
    obtain ⟨m, among, place, same⟩ := origin m' member
    refine ⟨m, among, ?_, by omega⟩
    -- a row now in an unrefreshed mailbox was not changed
    have skipped : mailbox ∉ touchedBy change m :=
      fun touched => untouched (List.mem_flatMap.mpr ⟨m, among, touched⟩)
    rw [here] at place
    simp only [touchedBy, changed] at skipped place
    cases result : change m with
    | none => simpa [result] using place
    | some m'' =>
      simp only [result, Option.getD_some] at skipped place
      split at skipped <;> simp [place] at skipped
  obtain ⟨rows, soundAfter, validity⟩ :=
    sound_of_synced sound (commit_some updated) positive elsewhere
  exact ⟨⟨soundAfter, by rwa [rows], by simp, .nil, by simp, validity⟩, by rw [rows, keys]⟩

end Update

/-! ### Commands -/

theorem findMailbox_nextUid {s : Store} (sound : Sound s) {userId tenantId : Uuid} {folder : Str}
    {dst : Mailbox} (found : findMailbox userId tenantId folder s = some dst) :
    dst.nextUid = nextUidOf s.messages dst.id :=
  sound.synced dst (List.mem_of_find?_eq_some found)

theorem insertCopies_grows {dst : Mailbox} {tenantId : Uuid} {now : Int} {newId : Nat → Uuid}
    {i : Nat} {rows : List Message} {s s' : Store} {assigned : List Assignment} (sound : Sound s)
    (next : dst.nextUid + i = nextUidOf s.messages dst.id)
    (ran : insertCopies dst tenantId now newId i rows s = some (s', assigned)) :
    Grows s s' (assigned.map fun a => [a]) ∧
      ∃ copies, s'.messages = s.messages ++ copies ∧ copies.length = rows.length ∧
        ∀ c ∈ copies, c.mailboxId = dst.id ∧ nextUidOf s.messages dst.id ≤ c.uid ∧
          ∃ j, c.id = newId j := by
  induction rows generalizing i s s' assigned with
  | nil =>
    cases ran
    exact ⟨Grows.refl sound, [], by simp, rfl, by simp⟩
  | cons row rest ih =>
    simp only [insertCopies, Option.bind_eq_bind, Option.bind_eq_some_iff] at ran
    obtain ⟨s₁, inserted, ⟨s₂, assignedLater⟩, later, result⟩ := ran
    cases result
    obtain ⟨first, added, top⟩ := insertMessage_grows sound inserted next
    have next' : dst.nextUid + ((i + 1 : Nat) : Int) = nextUidOf s₁.messages dst.id := by
      simp only [copyOf] at top
      omega
    obtain ⟨second, copies, split, count, placed⟩ := ih first.sound next' later
    refine ⟨first.trans second,
      { copyOf dst tenantId now (newId i) (dst.nextUid + i) row with modSequence := s.modseq } ::
        copies, ?_, by simp [count], ?_⟩
    · rw [split, added, List.append_assoc]
      rfl
    · intro c member
      rcases List.mem_cons.mp member with rfl | among
      · exact ⟨rfl, by simp only [copyOf]; omega, i, rfl⟩
      · obtain ⟨place, above, named⟩ := placed c among
        have rises := first.monotone dst.id
        exact ⟨place, by omega, named⟩

theorem moveMessages_grows {mailboxId tenantId : Uuid} {dst : Mailbox} {now : Int}
    {newId : Nat → Uuid} {rows : List Message} {s s' : Store} {assigned : List Assignment}
    (sound : Sound s) (next : dst.nextUid = nextUidOf s.messages dst.id)
    (unused : ∀ i, newId i ∉ rows.map (·.id))
    (higher : ∀ m ∈ s.messages, moved rows mailboxId tenantId m = true → dst.id = m.mailboxId ∨
      ∃ m' ∈ s.messages, moved rows mailboxId tenantId m' = false ∧
        m'.mailboxId = m.mailboxId ∧ m.uid < m'.uid)
    (ran : moveMessages mailboxId dst tenantId now newId rows s = some (s', assigned)) :
    Grows s s' (assigned.map fun a => [a]) := by
  simp only [moveMessages, Option.bind_eq_bind, Option.bind_eq_some_iff] at ran
  obtain ⟨⟨s₁, assigned₁⟩, copied, s₂, deleted, result⟩ := ran
  cases result
  obtain ⟨first, copies, split, count, placed⟩ :=
    insertCopies_grows sound (by rw [next]; simp) copied
  have staying : ∀ c ∈ copies, moved rows mailboxId tenantId c = false := by
    intro c member
    obtain ⟨_, _, j, named⟩ := (placed c member)
    have absent := unused j
    rw [← named] at absent
    simp only [moved, Bool.and_eq_false_iff, List.contains_eq_mem, decide_eq_false_iff_not]
    exact .inl absent
  have second : Grows s₁ s' [] := by
    apply deleteMessages_grows first.sound deleted
    intro m member chosen
    rw [split] at member ⊢
    rcases List.mem_append.mp member with old | copy
    · rcases higher m old chosen with own | ⟨m', among, stays, beside, above⟩
      · -- some row was copied, and its copy is above everything there
        have some_row : rows ≠ [] := by
          rintro rfl
          simp [moved] at chosen
        have some_copy : copies ≠ [] := by
          rintro rfl
          simp at count
          exact some_row (List.length_eq_zero_iff.mp count.symm)
        obtain ⟨c, among⟩ := List.exists_mem_of_ne_nil copies some_copy
        obtain ⟨place, above, _⟩ := placed c among
        have under := lt_nextUidOf old
        rw [← own] at under
        exact ⟨c, List.mem_append_right _ among, staying c among, by rw [place, own],
          by omega⟩
      · exact ⟨m', List.mem_append_left _ among, stays, beside, above⟩
    · rw [staying m copy] at chosen
      cases chosen
  simpa using first.trans second

theorem sweepTarget_ne {lower : Str → Str} {rules : List SweepRule} {now : Int}
    {mailboxes : List Mailbox} {m : Message} {target : Uuid}
    (found : sweepTarget lower rules now mailboxes m = some target) : target ≠ m.mailboxId := by
  obtain ⟨rule, _, matched⟩ := List.exists_of_findSome?_eq_some found
  split at matched
  · simp only [Option.bind_eq_bind, Option.bind_eq_some_iff] at matched
    obtain ⟨tgt, _, src, _, chosen⟩ := matched
    split at chosen
    · next guard =>
      cases chosen
      exact fun same => guard.2.2 same.symm
    · cases chosen
  · cases matched

private theorem filterMap_sublist_map {α β : Type} {f : α → Option β} {g : α → β}
    (agrees : ∀ x y, f x = some y → y = g x) (xs : List α) :
    (xs.filterMap f).Sublist (xs.map g) := by
  induction xs with
  | nil => exact .slnil
  | cons x rest ih =>
    cases found : f x with
    | none =>
      rw [List.filterMap_cons_none found, List.map_cons]
      exact ih.cons _
    | some y =>
      rw [List.filterMap_cons_some found, List.map_cons, agrees x y found]
      exact ih.cons_cons _

theorem sweep_grows {lower : Str → Str} {rules : List SweepRule} {now : Int} {s s' : Store}
    (sound : Sound s) (keeps : KeepsHighest s (.sweep lower rules now))
    (ran : runSweep lower rules now s = some s') :
    Grows s s' [swept lower rules now s] := by
  have place : ∀ m, (changed (fun m => (sweepTarget lower rules now s.mailboxes m).map
      fun target => { m with mailboxId := target }) m).mailboxId =
      (sweepTarget lower rules now s.mailboxes m).getD m.mailboxId := by
    intro m
    cases target : sweepTarget lower rules now s.mailboxes m <;> simp [changed, target]
  have sameUid : ∀ m, (changed (fun m => (sweepTarget lower rules now s.mailboxes m).map
      fun target => { m with mailboxId := target }) m).uid = m.uid := by
    intro m
    cases target : sweepTarget lower rules now s.mailboxes m <;> simp [changed, target]
  obtain ⟨grown, keys⟩ := updateMessages_grows sound ran sameUid (by
    intro m member away
    rw [place] at away
    rcases keeps.leaves m member (by simpa [home] using away) with impossible | found
    · exact impossible.elim
    · obtain ⟨m', among, beside, above⟩ := found
      exact ⟨m', among, by rw [place]; simpa [home] using beside, above⟩)
  simp only [place] at keys
  have sub : ((swept lower rules now s).map Assignment.key).Sublist
      (s'.messages.map fun m => (m.mailboxId, m.uid)) := by
    rw [keys, swept, List.map_filterMap]
    apply filterMap_sublist_map
    intro m key found
    cases target : sweepTarget lower rules now s.mailboxes m with
    | none => simp [target] at found
    | some mailbox =>
      simp only [target, Option.map_some, Option.some.injEq] at found
      simp [← found, Assignment.key]
  refine ⟨grown.sound, grown.monotone, ?_, by simp, ?_, grown.validity⟩
  · intro batch single a among
    rw [List.mem_singleton.mp single] at among
    constructor
    · obtain ⟨m, member, found⟩ := List.mem_filterMap.mp among
      obtain ⟨mailbox, target, rfl⟩ := Option.map_eq_some_iff.mp found
      have placed : home s m (.sweep lower rules now) = some mailbox := by simp [home, target]
      have other := sweepTarget_ne target
      exact nextUidOf_le (sound.positive m member)
        (keeps.enters m member mailbox placed other)
    · have listed := sub.subset (List.mem_map_of_mem (f := Assignment.key) among)
      obtain ⟨m', member', same⟩ := List.mem_map.mp listed
      have above := lt_nextUidOf member'
      simp only [Assignment.key, Prod.mk.injEq] at same
      rw [same.1, same.2] at above
      exact above
  · intro batch single
    rw [List.mem_singleton.mp single]
    exact s'.constraints.2.2.2.1.sublist sub

/-- The deletion of a command whose removed rows are those without a home after it. -/
theorem delete_step_grows {s : Store} {c : Command} {selected : Message → Bool} (sound : Sound s)
    (keeps : KeepsHighest s c)
    (homes : ∀ m, home s m c = if selected m then none else some m.mailboxId)
    (plain : ∀ mailbox, ¬ refills s mailbox c) :
    Grows s ((deleteMessages selected s).getD s) [] := by
  cases deleted : deleteMessages selected s with
  | none => exact Grows.refl sound
  | some s' =>
    apply deleteMessages_grows sound deleted
    intro m member chosen
    obtain ⟨m', among, beside, above⟩ :=
      (keeps.leaves m member (by simp [homes, chosen])).resolve_left (plain m.mailboxId)
    rw [homes] at beside
    split at beside
    · cases beside
    · next stays => exact ⟨m', among, by simpa using stays, by simpa using beside, above⟩

theorem store_grows {s : Store} {kind : StoreType} {flags : List Str}
    {selected : Message → Bool} (sound : Sound s) :
    Grows s ((storeMessages kind flags selected s).getD s) [] := by
  cases stored : storeMessages kind flags selected s with
  | none => exact Grows.refl sound
  | some s' =>
    simp only [storeMessages] at stored
    split at stored
    · cases stored
    · have same : ∀ m, (changed (fun m => if selected m then
          some { m with flags := storeFlags kind flags m.flags } else none) m).uid = m.uid ∧
          (changed (fun m => if selected m then
            some { m with flags := storeFlags kind flags m.flags } else none) m).mailboxId =
            m.mailboxId := by
        intro m
        cases chosen : selected m <;> simp [changed, chosen]
      exact (updateMessages_grows sound stored (fun m => (same m).1)
        (fun m _ away => absurd (same m).2 away)).1

theorem step_grows {s : Store} {c : Command} (sound : Sound s) (keeps : KeepsHighest s c) :
    Grows s (step s c).1 (step s c).2 := by
  cases c with
  | append userId tenantId folder draft =>
    simp only [step]
    cases ran : (findMailbox userId tenantId folder s).bind fun dst =>
        appendMessage dst tenantId draft s with
    | none => exact Grows.refl sound
    | some result =>
      obtain ⟨dst, found, appended⟩ := Option.bind_eq_some_iff.mp ran
      obtain ⟨s', inserted, rfl⟩ := Option.map_eq_some_iff.mp appended
      exact (insertMessage_grows sound inserted (findMailbox_nextUid sound found)).1
  | copy userId tenantId folder rows newId now =>
    simp only [step]
    cases ran : (findMailbox userId tenantId folder s).bind fun dst =>
        insertCopies dst tenantId now newId 0 rows s with
    | none => exact Grows.refl sound
    | some result =>
      obtain ⟨dst, found, copied⟩ := Option.bind_eq_some_iff.mp ran
      exact (insertCopies_grows sound (by simpa using findMailbox_nextUid sound found) copied).1
  | move mailboxId userId tenantId folder rows newId now unused =>
    simp only [step]
    cases ran : (findMailbox userId tenantId folder s).bind fun dst =>
        moveMessages mailboxId dst tenantId now newId rows s with
    | none => exact Grows.refl sound
    | some result =>
      obtain ⟨dst, found, copied⟩ := Option.bind_eq_some_iff.mp ran
      refine moveMessages_grows sound (findMailbox_nextUid sound found) unused ?_ copied
      intro m member chosen
      rcases keeps.leaves m member (by simp [home, chosen]) with own | ⟨m', among, beside, above⟩
      · exact .inl (by simpa [refills, found] using own)
      · simp only [home] at beside
        split at beside
        · cases beside
        · next stays =>
          exact .inr ⟨m', among, by simpa using stays, by simpa using beside, above⟩
  | expunge mailboxId tenantId =>
    exact delete_step_grows sound keeps (fun _ => rfl) (fun _ => id)
  | expungeUid mailboxId tenantId set =>
    exact delete_step_grows sound keeps (fun _ => rfl) (fun _ => id)
  | close sel tenantId =>
    simp only [step]
    cases readOnly : sel.readOnly with
    | true => exact Grows.refl sound
    | false =>
      exact delete_step_grows sound keeps (fun m => by simp [home, readOnly]) (fun _ => id)
  | store kind flags selected => exact store_grows sound
  | sweep lower rules now =>
    simp only [step]
    cases ran : runSweep lower rules now s with
    | none => exact Grows.refl sound
    | some s' => exact sweep_grows sound keeps ran

theorem run_grows {s : Store} {commands : List Command} (sound : Sound s)
    (keeps : KeepsHighestThroughout s commands) :
    Grows s (run s commands).1 (run s commands).2 := by
  induction commands generalizing s with
  | nil => exact Grows.refl sound
  | cons c rest ih =>
    have first := step_grows sound keeps.1
    exact first.trans (ih first.sound keeps.2)

/-! ### No UID twice -/

/-- The UIDs of the rows at the start, as if assigned at once. -/
def initialBatch (s : Store) : Batch := s.messages.map fun m => ⟨m.mailboxId, m.uid, m.id⟩

theorem keys_nodup {batches : List Batch} (increasing : batches.Pairwise Below)
    (distinct : ∀ batch ∈ batches, (batch.map Assignment.key).Nodup) :
    (batches.flatten.map Assignment.key).Nodup := by
  induction batches with
  | nil => simp
  | cons batch rest ih =>
    obtain ⟨below, later⟩ := List.pairwise_cons.mp increasing
    rw [List.flatten_cons, List.map_append]
    refine List.nodup_append.mpr ⟨distinct batch List.mem_cons_self,
      ih later fun b member => distinct b (List.mem_cons_of_mem _ member), ?_⟩
    intro key here key' there same
    obtain ⟨a, among, rfl⟩ := List.mem_map.mp here
    obtain ⟨b, among', rfl⟩ := List.mem_map.mp there
    obtain ⟨batch', member, inside⟩ := List.mem_flatten.mp among'
    simp only [Assignment.key, Prod.mk.injEq] at same
    have order := below batch' member a among b inside same.1
    omega

/-- In a run whose steps all keep the highest row, every message that enters a mailbox gets a
UID above all assigned there before, no UID is assigned twice, and no mailbox changes its
validity. -/
theorem run_uids_increase {s : Store} (sound : Sound s) (commands : List Command)
    (keeps : KeepsHighestThroughout s commands) :
    (initialBatch s :: (run s commands).2).Pairwise Below ∧
      ((initialBatch s :: (run s commands).2).flatten.map Assignment.key).Nodup ∧
      validities (run s commands).1 = validities s := by
  have grown := run_grows sound keeps
  have increasing : (initialBatch s :: (run s commands).2).Pairwise Below := by
    refine List.pairwise_cons.mpr ⟨?_, grown.increasing⟩
    intro batch member a here b among same
    obtain ⟨m, row, rfl⟩ := List.mem_map.mp here
    have under := lt_nextUidOf row
    have above := (grown.fresh batch member b among).1
    rw [← same] at above
    exact lt_of_lt_of_le under above
  refine ⟨increasing, keys_nodup increasing ?_, grown.validity⟩
  intro batch member
  rcases List.mem_cons.mp member with rfl | later
  · rw [initialBatch, List.map_map]
    exact s.constraints.2.2.2.1
  · exact grown.distinct batch later

/-- An inbox as `CREATE` makes it. -/
def inbox : Mailbox where
  id := 1
  userId := 1
  tenantId := 1
  folderName := "INBOX".toList
  uidValidity := 1700000000
  nextUid := 1
  messageCount := 0
  unseenCount := 0
  sizeBytes := 0

def emptyInbox : Store := ⟨⟨[inbox], [], 1⟩, by decide⟩

def draftOf (id : Uuid) (flags : List Str) : Draft :=
  { id, flags, sizeBytes := 100, bodyPath := [], fromAddr := none, now := 0 }

/-- `APPEND` to the inbox. -/
def appendDraft (id : Uuid) (flags : List Str) : Command :=
  .append 1 1 "INBOX".toList (draftOf id flags)

theorem emptyInbox_sound : Sound emptyInbox where
  synced := by decide
  positive := by decide

theorem append_keepsHighest (s : Store) (id : Uuid) (flags : List Str) :
    KeepsHighest s (appendDraft id flags) where
  leaves _ _ away := absurd rfl away
  enters _ _ _ placed away := absurd (Option.some.inj placed).symm away

theorem run_uids_increase_appends :
    ((run emptyInbox [appendDraft 10 [], appendDraft 11 []]).2 = [[⟨1, 1, 10⟩], [⟨1, 2, 11⟩]]) ∧
      (initialBatch emptyInbox ::
        (run emptyInbox [appendDraft 10 [], appendDraft 11 []]).2).Pairwise Below :=
  ⟨by decide, (run_uids_increase emptyInbox_sound [appendDraft 10 [], appendDraft 11 []]
    ⟨append_keepsHighest _ _ _, append_keepsHighest _ _ _, trivial⟩).1⟩

/-- Expunging the only message sets the next UID back: the same UID goes to another message
under the same validity. -/
theorem run_reuses_uid :
    (run emptyInbox [appendDraft 10 [deletedFlag], .expunge 1 1, appendDraft 11 []]).2 =
        [[⟨1, 1, 10⟩], [⟨1, 1, 11⟩]] ∧
      validities (run emptyInbox
        [appendDraft 10 [deletedFlag], .expunge 1 1, appendDraft 11 []]).1 =
        validities emptyInbox := by
  decide

/-- Wherever an expunge takes out the highest row of a mailbox, the next message appended
there gets no higher UID than that row had. -/
theorem append_after_expunging_highest {s s' s'' : Store} {selected : Message → Bool}
    {m : Message} {dst : Mailbox} {tenantId : Uuid} {draft : Draft} {a : Assignment}
    (sound : Sound s) (member : m ∈ s.messages) (chosen : selected m = true)
    (highest : ∀ m' ∈ s.messages, m'.mailboxId = m.mailboxId → m'.uid ≤ m.uid)
    (deleted : deleteMessages selected s = some s') (listed : dst ∈ s'.mailboxes)
    (here : dst.id = m.mailboxId) (appended : appendMessage dst tenantId draft s' = some (s'', a)) :
    a.mailbox = m.mailboxId ∧ a.uid ≤ m.uid := by
  obtain ⟨_, _, assigned⟩ := Option.map_eq_some_iff.mp appended
  have values : a.mailbox = dst.id ∧ a.uid = dst.nextUid := by
    cases assigned
    exact ⟨rfl, rfl⟩
  have result := commit_some deleted
  rw [messagesSyncMailboxStats_eq] at result
  have next : dst.nextUid =
      nextUidOf (s.messages.filter fun m => !selected m) m.mailboxId := by
    rw [show s'.mailboxes = _ from congrArg Tables.mailboxes result] at listed
    obtain ⟨old, _, same⟩ := List.mem_map.mp listed
    have refreshedHere : old.id ∈ (s.messages.filter selected).map (·.mailboxId) := by
      have place : old.id = m.mailboxId := by
        rw [← here, ← same]
        split <;> rfl
      rw [place]
      exact List.mem_map_of_mem (List.mem_filter.mpr ⟨member, chosen⟩)
    rw [if_pos refreshedHere] at same
    rw [← here, ← same]
    rfl
  refine ⟨values.1.trans here, ?_⟩
  rw [values.2, next]
  apply nextUidOf_le (sound.positive m member)
  intro m' kept beside
  obtain ⟨among, stays⟩ := List.mem_filter.mp kept
  have upper := highest m' among beside
  have apart : m'.uid ≠ m.uid := by
    intro equal
    have twin : m' = m := List.inj_on_of_nodup_map s.constraints.2.2.2.1 among member
      (by rw [beside, equal])
    rw [twin, chosen] at stays
    cases stays
  omega

end Expresso.Imap
