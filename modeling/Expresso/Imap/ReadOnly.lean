import Expresso.Imap.Consistency

/-! A mailbox that was opened with `EXAMINE`: which commands leave its messages and their flags
alone. -/

namespace Expresso.Imap
open Text Sql Transition

/-- Every message of the mailbox is still there, with its flags. -/
def Untouched (id : Uuid) (s s' : Store) : Prop :=
  ∀ m ∈ s.messages, m.mailboxId = id →
    ∃ m' ∈ s'.messages, m'.id = m.id ∧ m'.mailboxId = id ∧ m'.flags = m.flags

section
variable {id : Uuid} {s s' s'' : Store}

theorem untouched_of_subset (subset : s.messages ⊆ s'.messages) : Untouched id s s' :=
  fun m member isId => ⟨m, subset member, rfl, isId, rfl⟩

theorem Untouched.trans (first : Untouched id s s') (second : Untouched id s' s'') :
    Untouched id s s'' := by
  intro m member isId
  obtain ⟨m₁, member₁, same₁, isId₁, flags₁⟩ := first m member isId
  obtain ⟨m₂, member₂, same₂, isId₂, flags₂⟩ := second m₁ member₁ isId₁
  exact ⟨m₂, member₂, same₂.trans same₁, isId₂, flags₂.trans flags₁⟩

end

/-! ### The condition -/

section
variable {Item : Type}

/-- The command finds nothing to do where the code does not ask whether the mailbox is read-only:
no message without `\Seen` for a `FETCH` that sets it, no message to move or to expunge, and no
message in a mailbox to delete. -/
def ReadsOnly (x : Session) (s : Store) (sel : SelectedMailbox) : CommandBody Item → Prop
  | .fetch set request uid changedsince => request.setSeen = true → ∀ tenantId ∈ x.tenantId,
      ∀ row ∈ numberedRows set uid sel tenantId (changedSince changedsince) s,
        row.1.flags.contains seenFlag = true
  | .move set folder uid newId now => ∀ userId ∈ x.userId, ∀ tenantId ∈ x.tenantId,
      ∀ dst ∈ findMailbox userId tenantId folder s,
        numberedRows set uid sel tenantId (fun _ => true) s = [] ∨
          moveMessages sel.mailboxId dst tenantId now newId
            ((numberedRows set uid sel tenantId (fun _ => true) s).map (·.1)) s = none
  | .expunge => ∀ tenantId ∈ x.tenantId, ∀ m ∈ s.messages,
      expunged sel.mailboxId tenantId (fun _ => true) m = false
  | .expungeUid set => ∀ tenantId ∈ x.tenantId, ∀ m ∈ s.messages,
      expunged sel.mailboxId tenantId (uidClause (sequenceRanges set u32Max)) m = false
  | .delete folder => isInbox folder = false → ∀ userId ∈ x.userId, ∀ tenantId ∈ x.tenantId,
      ∀ mb ∈ s.mailboxes, namedBy userId tenantId folder mb = true → mb.id = sel.mailboxId →
        ∀ m ∈ s.messages, m.mailboxId ≠ sel.mailboxId
  | _ => True

/-! ### Each command -/

variable {x : Session} {s s' : Store} {sel : SelectedMailbox} {userId tenantId : Uuid}

theorem fetchLoop_seen (plan : FetchPlan Item) (rows : List (Message × Nat))
    (seen : plan.setSeen = true → ∀ row ∈ rows, row.1.flags.contains seenFlag = true) :
    (fetchLoop plan rows s).1 = s := by
  induction rows with
  | nil => rfl
  | cons row rest ih =>
    obtain ⟨m, seq⟩ := row
    have kept : (applyImplicitSeen plan.setSeen m s).1 = s := by
      rw [applyImplicitSeen, if_pos]
      cases set : plan.setSeen with
      | false => rfl
      | true => rw [seen set (m, seq) List.mem_cons_self]; rfl
    rw [fetchLoop]
    simp only [kept]
    exact ih fun set row member => seen set row (List.mem_cons_of_mem _ member)

theorem cmdAppend_subset (folder : Str) (draft : Option Draft)
    (selected : Option SelectedMailbox) :
    s.messages ⊆ (@cmdAppend Item userId tenantId folder draft selected s).1.messages := by
  rw [cmdAppend]
  cases findMailbox userId tenantId folder s with
  | none => exact List.Subset.refl _
  | some dst =>
    cases draft with
    | none => exact List.Subset.refl _
    | some draft =>
      dsimp only
      cases appended : appendMessage dst tenantId draft s with
      | none => exact List.Subset.refl _
      | some result =>
        obtain ⟨s', assigned⟩ := result
        have subset : s.messages ⊆ s'.messages := by
          rw [appendMessage, Option.map_eq_some_iff] at appended
          obtain ⟨s₁, inserted, isResult⟩ := appended
          cases isResult
          rw [commit_some inserted, messagesSyncMailboxStats_eq]
          exact List.subset_append_left _ _
        cases selected with
        | none => exact subset
        | some sel =>
          dsimp only
          split
          · exact subset
          · exact subset

theorem cmdCopy_subset (set : SequenceSet) (folder : Str) (uid : Bool) (newId : Nat → Uuid)
    (now : Int) :
    s.messages ⊆ (@cmdCopy Item set userId tenantId folder uid newId now sel s).1.messages := by
  rw [cmdCopy]
  split
  · exact List.Subset.refl _
  split
  · exact List.Subset.refl _
  · split
    · exact List.Subset.refl _
    · next copied =>
      obtain ⟨copies, split, -⟩ := insertCopies_messages copied
      rw [split]
      exact List.subset_append_left _ _

variable (Item) in
theorem expungeRows_subset {narrowed : Message → Bool} (text : String)
    (nothing : ∀ m ∈ s.messages, expunged sel.mailboxId tenantId narrowed m = false) :
    s.messages ⊆ (@expungeRows Item narrowed text sel tenantId s).1.messages := by
  rw [expungeRows]
  cases deleted : deleteMessages (expunged sel.mailboxId tenantId narrowed) s with
  | none => exact List.Subset.refl _
  | some s' =>
    intro m member
    rw [Option.getD_some, deleteMessages_messages deleted]
    exact List.mem_filter.mpr ⟨member, by rw [nothing m member]; rfl⟩

theorem cmdMove_same (set : SequenceSet) (folder : Str) (uid : Bool) (newId : Nat → Uuid)
    (now : Int)
    (nothing : ∀ dst ∈ findMailbox userId tenantId folder s,
      numberedRows set uid sel tenantId (fun _ => true) s = [] ∨
        moveMessages sel.mailboxId dst tenantId now newId
          ((numberedRows set uid sel tenantId (fun _ => true) s).map (·.1)) s = none) :
    (@cmdMove Item set userId tenantId folder uid newId now sel s).1 = s := by
  rw [cmdMove]
  split
  · rfl
  · next some =>
    split
    · rfl
    · next dst found =>
      rcases nothing dst found with empty | refused
      · rw [empty] at some
        exact absurd rfl some
      · rw [refused]

theorem cmdCreate_messages (folder : Str) (newId : Uuid) (uidValidity : Int) :
    (@cmdCreate Item userId tenantId folder newId uidValidity s).1.messages = s.messages := by
  rw [cmdCreate]
  dsimp only
  split
  · rfl
  · next inserted =>
    split at inserted
    · cases inserted
    · rw [commit_some inserted]

theorem renameFolder_messages {names : Str × Str}
    (renamed : renameFolder userId tenantId s names = some s') : s'.messages = s.messages := by
  rw [commit_some renamed]

theorem foldlM_renameFolder_messages {updates : List (Str × Str)}
    (renamed : updates.foldlM (renameFolder userId tenantId) s = some s') :
    s'.messages = s.messages := by
  induction updates generalizing s with
  | nil =>
    cases renamed
    rfl
  | cons names rest ih =>
    rw [List.foldlM_cons, Option.bind_eq_bind, Option.bind_eq_some_iff] at renamed
    obtain ⟨s₁, first, later⟩ := renamed
    exact (ih later).trans (renameFolder_messages first)

theorem cmdRename_messages {src dst : Str} {responses : List (Response Item)}
    (done : cmdRename userId tenantId src dst s = .ok (s', responses)) :
    s'.messages = s.messages := by
  rw [cmdRename] at done
  split at done
  · cases done
    rfl
  · obtain ⟨children, -, renamed⟩ := bind_eq_ok_iff.mp done
    split at renamed
    · cases renamed
      rfl
    · next s₁ first =>
      dsimp only at renamed
      split at renamed
      · cases renamed
        rfl
      · next s₂ second =>
        have same := (renameFolder_messages second).trans (foldlM_renameFolder_messages first)
        split at renamed
        all_goals
          cases renamed
          exact same

theorem cmdDelete_untouched (folder : Str)
    (nothing : isInbox folder = false → ∀ mb ∈ s.mailboxes,
      namedBy userId tenantId folder mb = true → mb.id = sel.mailboxId →
        ∀ m ∈ s.messages, m.mailboxId ≠ sel.mailboxId) :
    Untouched sel.mailboxId s (@cmdDelete Item userId tenantId folder s).1 := by
  rw [cmdDelete]
  split
  · exact untouched_of_subset (List.Subset.refl _)
  · next other =>
    split
    · split
      · exact untouched_of_subset (List.Subset.refl _)
      · next s' deleted =>
        intro m member isId
        refine ⟨m, ?_, rfl, isId, rfl⟩
        rw [deleteMailboxes] at deleted
        rw [commit_some deleted]
        refine List.mem_filter.mpr ⟨member, ?_⟩
        rw [Bool.not_eq_true', ← Bool.not_eq_true, List.contains_iff_mem, List.mem_map]
        rintro ⟨mb, gone, isMailbox⟩
        obtain ⟨listed, named⟩ := List.mem_filter.mp gone
        exact nothing (Bool.eq_false_iff.mpr other) mb listed named (isMailbox.trans isId) m member
          isId
    · exact untouched_of_subset (List.Subset.refl _)

theorem dispatch_untouched {command : CommandBody Item} (selected : x.selected = some sel)
    (readOnly : sel.readOnly = true) (reads : ReadsOnly x s sel command) :
    Untouched sel.mailboxId s (dispatch x s command).1 := by
  have same : Untouched sel.mailboxId s s := untouched_of_subset (List.Subset.refl _)
  have isSelected : ∀ other ∈ x.selected, other = sel :=
    fun other isOther => (Option.some.inj (selected.symm.trans isOther)).symm
  let P (outcome : Outcome Item) : Prop := Untouched sel.mailboxId s outcome.1
  have unchanged (replies : List (Reply Item)) : P (s, some x, replies) := same
  have finished (replies : List (Reply Item)) : P (s, none, replies) := same
  show P (dispatch x s command)
  cases command with
  | inquire kind answer =>
    rw [dispatch]
    split
    · exact unchanged _
    · exact withLogin_rule unchanged (unchanged _)
    · exact withIdentity_rule unchanged finished fun _ _ _ _ => unchanged _
    · exact withMailbox_rule unchanged finished fun _ _ _ _ => unchanged _
  | logout => exact same
  | login row => exact same
  | authenticate plain message => exact same
  | select folder readOnly => exact withIdentity_rule unchanged finished fun _ _ _ _ => same
  | noop flagsItem => exact same
  | check flagsItem => exact withLogin_rule unchanged same
  | idle flagsItem ticks => exact withLogin_rule unchanged same
  | append folder draft =>
    exact withIdentity_rule unchanged finished fun userId _ tenantId _ =>
      untouched_of_subset (cmdAppend_subset folder draft x.selected)
  | fetch set request uid changedsince =>
    apply withMailbox_rule unchanged finished
    intro other isOther tenantId tenant
    rw [isSelected other isOther]
    have kept : (cmdFetch set request uid sel tenantId changedsince s).1 = s :=
      fetchLoop_seen _ _ fun set' => reads set' tenantId tenant
    show Untouched _ _ (cmdFetch set request uid sel tenantId changedsince s).1
    rw [kept]
    exact same
  | store set kind answer flags uid flagsItem =>
    apply withMailbox_rule unchanged finished
    intro other isOther tenantId tenant
    rw [isSelected other isOther, cmdStore, if_pos readOnly]
    exact same
  | copy set folder uid newId now =>
    exact withMailboxAndUser_rule unchanged finished fun other _ userId _ tenantId _ =>
      untouched_of_subset (cmdCopy_subset set folder uid newId now)
  | move set folder uid newId now =>
    apply withMailboxAndUser_rule unchanged finished
    intro other isOther userId user tenantId tenant
    rw [isSelected other isOther]
    have kept : (@cmdMove Item set userId tenantId folder uid newId now sel s).1 = s :=
      cmdMove_same set folder uid newId now (reads userId user tenantId tenant)
    show Untouched _ _ (@cmdMove Item set userId tenantId folder uid newId now sel s).1
    rw [kept]
    exact same
  | expunge =>
    apply withMailbox_rule unchanged finished
    intro other isOther tenantId tenant
    rw [isSelected other isOther]
    exact untouched_of_subset (expungeRows_subset Item "EXPUNGE completed" (reads tenantId tenant))
  | expungeUid set =>
    apply withMailbox_rule unchanged finished
    intro other isOther tenantId tenant
    rw [isSelected other isOther]
    exact untouched_of_subset
      (expungeRows_subset Item "UID EXPUNGE completed" (reads tenantId tenant))
  | close =>
    show Untouched _ _ (@cmdClose Item x s).1
    rw [cmdClose, selected]
    cases x.tenantId with
    | none => exact same
    | some tenantId =>
      simp only [readOnly, if_true]
      exact same
  | unselect => exact same
  | create folder newId uidValidity =>
    apply withIdentity_rule unchanged finished
    intro userId _ tenantId _
    exact untouched_of_subset fun m member =>
      (@cmdCreate_messages Item s userId tenantId folder newId uidValidity) ▸ member
  | delete folder =>
    exact withIdentity_rule unchanged finished fun userId user tenantId tenant =>
      cmdDelete_untouched folder fun other => reads other userId user tenantId tenant
  | rename src dst =>
    apply withIdentity_rule unchanged finished
    intro userId _ tenantId _
    split
    · next result done =>
      exact untouched_of_subset fun m member => (cmdRename_messages done) ▸ member
    · exact same

end

/-! ### Runs -/

namespace Connection
variable {Item : Type}

/-- The session has the mailbox open, and by `EXAMINE`. -/
def Examining (id : Uuid) (k : Connection) : Prop :=
  ∃ x ∈ k.session, ∃ sel ∈ x.selected, sel.mailboxId = id ∧ sel.readOnly = true

def ReadsOnly (k : Connection) (command : CommandBody Item) : Prop :=
  ∀ x ∈ k.session, ∀ sel ∈ x.selected, Imap.ReadsOnly x k.store sel command

theorem step_untouched {id : Uuid} {k : Connection} {command : CommandBody Item}
    (examining : k.Examining id) (reads : k.ReadsOnly command) :
    Untouched id k.store (k.step command).store := by
  obtain ⟨x, session, sel, selected, isId, readOnly⟩ := examining
  rw [step, Option.mem_def.mp session, ← isId]
  exact dispatch_untouched selected readOnly (reads x session sel selected)

/-- As long as the mailbox stays open by `EXAMINE`, its messages stay and so do their flags. -/
theorem examine_untouched {id : Uuid} {k : Connection} {commands : List (CommandBody Item)}
    (examining : EachStep step (fun k _ => k.Examining id) k commands)
    (reads : EachStep step ReadsOnly k commands) :
    Throughout step (fun k' => Untouched id k.store k'.store) k commands := by
  suffices later : ∀ s : Store, Untouched id s k.store →
      Throughout step (fun k' => Untouched id s k'.store) k commands from
    later k.store (untouched_of_subset (List.Subset.refl _))
  induction commands generalizing k with
  | nil => exact fun s kept => kept
  | cons command rest ih =>
    intro s kept
    exact ⟨kept, ih examining.2 reads.2 s (kept.trans (step_untouched examining.1 reads.1))⟩

/-- An inbox with one message, which is marked as deleted and not as seen. -/
def deletedMail : Store :=
  ⟨⟨[⟨1, 1, 1, "INBOX".toList, 1700000000, 2, 1, 1, 0⟩],
    [{ message 10 1 with flags := [deletedFlag] }], 2⟩, by decide⟩

/-- The user 1 has opened the inbox with `EXAMINE`. -/
def examined : Connection :=
  [@CommandBody.login Unit (some (1, 1)), .select "INBOX".toList true].foldl step
    (fresh deletedMail)

theorem examined_eq : examined.session =
    some ⟨.selected, some 1, some 1, some ⟨1, 1, true, [(1, [deletedFlag])]⟩⟩ := by
  decide

theorem examined_examining : examined.Examining 1 :=
  ⟨_, examined_eq, _, rfl, rfl, rfl⟩

def wholeSet : SequenceSet := [.range (.value 1) .asterisk]

/-- `STORE 1:* FLAGS ()`, then `CLOSE`. -/
def storeAndClose : List (CommandBody Unit) :=
  [.store wholeSet .replace true [] false fun _ => (), .close]

theorem examine_untouched_storeAndClose :
    Throughout step (fun k => Untouched 1 examined.store k.store) examined storeAndClose := by
  apply examine_untouched
  · refine ⟨examined_examining, ?_, trivial⟩
    have open_ : ((storeAndClose.take 1).foldl step examined).session = examined.session := by
      decide
    exact ⟨_, open_.trans examined_eq, _, rfl, rfl, rfl⟩
  · exact ⟨fun _ _ _ _ => trivial, fun _ _ _ _ => trivial, trivial⟩

/-- `FETCH 1:* BODY[]`. -/
def fetchBodies : CommandBody Unit :=
  .fetch wholeSet
    { wUid := false, wModseq := false, wFlags := false, setSeen := true, uidItem _ := (),
      modSeqItem _ := (), flagsItem _ := (), others _ := [()] } false none

/-- `EXPUNGE` removes the message and `FETCH` sets its flag. -/
theorem examine_not_readOnly : examined.Examining 1 ∧
    ¬ Throughout step (fun k => Untouched 1 examined.store k.store) examined
      [(.expunge : CommandBody Unit)] ∧
    ¬ Throughout step (fun k => Untouched 1 examined.store k.store) examined [fetchBodies] := by
  have listed : { message 10 1 with flags := [deletedFlag] } ∈ examined.store.messages := by
    decide
  refine ⟨examined_examining, fun ⟨_, kept⟩ => ?_, fun ⟨_, kept⟩ => ?_⟩
  · obtain ⟨m, member, -⟩ := kept _ listed rfl
    have gone : (examined.step (.expunge : CommandBody Unit)).store.messages = [] := by
      decide
    rw [gone] at member
    cases member
  · obtain ⟨m, member, -, -, flags⟩ := kept _ listed rfl
    have seen : ∀ m ∈ (examined.step fetchBodies).store.messages,
        m.flags = [deletedFlag, seenFlag] := by decide
    rw [seen m member] at flags
    exact absurd flags (by decide)

end Connection

end Expresso.Imap
