import Expresso.Imap.Dispatch
import Expresso.Imap.Rename
import Expresso.Imap.Expunge
import Expresso.Transition.Runs

/-! The session against the tables: a mailbox is selected exactly in the state for it, and it is
one of the user who is logged in. -/

namespace Expresso.Imap
open Text Sql

/-! ### Owners -/

/-- The mailboxes, each with the user and the tenant it belongs to. -/
def owners (s : Store) : List (Uuid × Uuid × Uuid) :=
  s.mailboxes.map fun mb => (mb.id, mb.userId, mb.tenantId)

section
variable {s s' : Store} {Item : Type}

theorem owners_of_synced {targets : List Uuid} {t : Tables}
    (done : commit (messagesSyncMailboxStats targets t) = some s')
    (same : t.mailboxes = s.mailboxes) : owners s' = owners s := by
  rw [owners, commit_some done, messagesSyncMailboxStats_eq, List.map_map, same, owners]
  apply List.map_congr_left
  intro mb _
  rw [Function.comp_apply]
  split <;> rfl

theorem insertMessage_owners {m : Message} (done : insertMessage m s = some s') :
    owners s' = owners s :=
  owners_of_synced done rfl

theorem deleteMessages_owners {selected : Message → Bool}
    (done : deleteMessages selected s = some s') : owners s' = owners s :=
  owners_of_synced done rfl

theorem updateMessages_owners {change : Message → Option Message}
    (done : updateMessages change s = some s') : owners s' = owners s :=
  owners_of_synced done rfl

/-- A statement that fails leaves the tables. -/
theorem owners_getD {result : Option Store}
    (done : ∀ s', result = some s' → owners s' = owners s) : owners (result.getD s) = owners s := by
  cases result with
  | none => rfl
  | some s' => exact done s' rfl

theorem insertCopies_owners {dst : Mailbox} {tenantId : Uuid} {now : Int} {newId : Nat → Uuid}
    {i : Nat} {rows : List Message} {assigned : List Assignment}
    (ran : insertCopies dst tenantId now newId i rows s = some (s', assigned)) :
    owners s' = owners s := by
  induction rows generalizing i s assigned with
  | nil =>
    cases ran
    rfl
  | cons row rest ih =>
    simp only [insertCopies, Option.bind_eq_bind, Option.bind_eq_some_iff] at ran
    obtain ⟨s₁, inserted, ⟨s₂, assignedLater⟩, later, result⟩ := ran
    cases result
    exact (ih later).trans (insertMessage_owners inserted)

theorem moveMessages_owners {mailboxId tenantId : Uuid} {dst : Mailbox} {now : Int}
    {newId : Nat → Uuid} {rows : List Message} {assigned : List Assignment}
    (ran : moveMessages mailboxId dst tenantId now newId rows s = some (s', assigned)) :
    owners s' = owners s := by
  simp only [moveMessages, Option.bind_eq_bind, Option.bind_eq_some_iff] at ran
  obtain ⟨⟨s₁, assigned₁⟩, copied, s₂, deleted, result⟩ := ran
  cases result
  exact (deleteMessages_owners deleted).trans (insertCopies_owners copied)

theorem applyImplicitSeen_owners (setSeen : Bool) (m : Message) :
    owners (applyImplicitSeen setSeen m s).1 = owners s := by
  rw [applyImplicitSeen]
  split
  · rfl
  · exact owners_getD fun s' done => updateMessages_owners done

theorem fetchLoop_owners (plan : FetchPlan Item) (rows : List (Message × Nat)) :
    owners (fetchLoop plan rows s).1 = owners s := by
  induction rows generalizing s with
  | nil => rfl
  | cons row rest ih =>
    obtain ⟨m, seq⟩ := row
    rw [fetchLoop]
    exact ih.trans (applyImplicitSeen_owners plan.setSeen m)

theorem renamedRows_owners {userId tenantId : Uuid} {updates : List (Str × Str)}
    (rows : s'.mailboxes = renamedRows userId tenantId s.mailboxes updates) :
    owners s' = owners s := by
  rw [owners, rows, renamedRows_eq, List.map_map, owners]
  apply List.map_congr_left
  intro mb _
  rw [Function.comp_apply, relabel]
  split <;> rfl

theorem cmdRename_owners {userId tenantId : Uuid} {src dst : Str}
    {responses : List (Response Item)}
    (done : cmdRename userId tenantId src dst s = .ok (s', responses)) : owners s' = owners s := by
  by_cases inbox : isInbox src = true
  · rw [cmdRename, if_pos inbox] at done
    cases done
    rfl
  cases named : renamings userId tenantId src dst s with
  | error panic =>
    rw [cmdRename, if_neg inbox, named] at done
    cases done
  | ok children =>
    by_cases taken : Taken userId tenantId s.mailboxes (children ++ [(src, dst)])
    · rw [cmdRename_taken inbox named taken] at done
      cases done
      rfl
    · obtain ⟨s₁, rows, ⟨-, renamed⟩ | ⟨-, renamed⟩⟩ := cmdRename_free Item inbox named taken
      all_goals
        cases renamed.symm.trans done
        exact renamedRows_owners (rows.trans (renamedRows_eq _ _).symm)

/-! ### What a command leaves alone -/

/-- The session without the counters that follow the mailbox. -/
def Session.view (x : Session) :
    SessionState × Option Uuid × Option Uuid × Option (Uuid × Bool) :=
  (x.state, x.userId, x.tenantId, x.selected.map fun sel => (sel.mailboxId, sel.readOnly))

/-- No mailbox is lost and nothing is selected or left. -/
structure Frames (x : Session) (s : Store) (outcome : Outcome Item) : Prop where
  owners_subset : owners s ⊆ owners outcome.1
  view_eq : ∀ x' ∈ outcome.2.1, x'.view = x.view

variable {x : Session}

theorem frames_over (replies : List (Reply Item)) : Frames x s (s, none, replies) :=
  ⟨List.Subset.refl _, fun _ member => nomatch member⟩

theorem frames_same (replies : List (Reply Item)) : Frames x s (s, some x, replies) :=
  ⟨List.Subset.refl _, fun _ same => by rw [Option.mem_some_iff.mp same]⟩

theorem onSelected_frames {sel : SelectedMailbox}
    {result : Store × SelectedMailbox × List (Response Item)} (selected : x.selected = some sel)
    (same : owners result.1 = owners s)
    (mailbox : (result.2.1.mailboxId, result.2.1.readOnly) = (sel.mailboxId, sel.readOnly)) :
    Frames x s (onSelected x result) := by
  refine ⟨fun owner member => same ▸ member, fun x' isNew => ?_⟩
  rw [← Option.mem_some_iff.mp isNew, Session.view, Session.view, selected, Option.map_some,
    Option.map_some, mailbox]

theorem inStore_frames {result : Store × List (Response Item)}
    (subset : owners s ⊆ owners result.1) : Frames x s (inStore x result) :=
  ⟨subset, fun _ same => by rw [Option.mem_some_iff.mp same]⟩

theorem inSession_frames {result : Session × List (Reply Item)} (same : result.1.view = x.view) :
    Frames x s (inSession s result) :=
  ⟨List.Subset.refl _, fun _ isNew => by rw [← Option.mem_some_iff.mp isNew, same]⟩

theorem pollSession_view (flagsItem : List Str → Item) :
    (pollSession flagsItem x s).1.view = x.view := by
  rw [pollSession]
  split
  · next sel tenantId selected _ =>
    simp only [Session.view, selected, Option.map_some, poll]
  · rfl

theorem handleIdle_view (flagsItem : List Str → Item) (ticks more : Nat) :
    (handleIdle flagsItem ticks more x s).1.view = x.view := by
  induction more generalizing ticks x with
  | zero => rfl
  | succ more ih =>
    rw [handleIdle]
    split
    · rfl
    · exact (ih (ticks + 1)).trans (pollSession_view flagsItem)

theorem storeMessages_owners {kind : StoreType} {flags : List Str} {selected : Message → Bool}
    (done : storeMessages kind flags selected s = some s') : owners s' = owners s := by
  rw [storeMessages] at done
  split at done
  · cases done
  · exact updateMessages_owners done

variable {tenantId userId : Uuid} {sel : SelectedMailbox}

theorem cmdStore_frames (set : SequenceSet) (kind : StoreType) (answer : Bool) (flags : List Str)
    (uid : Bool) (flagsItem : List Str → Item) (selected : x.selected = some sel) :
    Frames x s (onSelected x (cmdStore set kind answer flags uid flagsItem sel tenantId s)) := by
  rw [cmdStore]
  split
  · exact onSelected_frames selected rfl rfl
  · exact onSelected_frames selected (owners_getD fun s' done => storeMessages_owners done) rfl

theorem cmdCopy_frames (set : SequenceSet) (folder : Str) (uid : Bool) (newId : Nat → Uuid)
    (now : Int) (selected : x.selected = some sel) :
    Frames x s (onSelected x
      (@cmdCopy Item set userId tenantId folder uid newId now sel s)) := by
  rw [cmdCopy]
  split
  · exact onSelected_frames selected rfl rfl
  split
  · exact onSelected_frames selected rfl rfl
  · split
    · exact onSelected_frames selected rfl rfl
    · next copied =>
      refine onSelected_frames selected (insertCopies_owners copied) ?_
      dsimp only
      split <;> rfl

theorem cmdMove_frames (set : SequenceSet) (folder : Str) (uid : Bool) (newId : Nat → Uuid)
    (now : Int) (selected : x.selected = some sel) :
    Frames x s (onSelected x
      (@cmdMove Item set userId tenantId folder uid newId now sel s)) := by
  rw [cmdMove]
  split
  · exact onSelected_frames selected rfl rfl
  split
  · exact onSelected_frames selected rfl rfl
  · split
    · exact onSelected_frames selected rfl rfl
    · next moved => exact onSelected_frames selected (moveMessages_owners moved) rfl

theorem expungeRows_frames (narrowed : Message → Bool) (text : String)
    (selected : x.selected = some sel) :
    Frames x s (onSelected x (@expungeRows Item narrowed text sel tenantId s)) :=
  onSelected_frames selected (owners_getD fun _ done => deleteMessages_owners done) rfl

theorem cmdCreate_owners (folder : Str) (id : Uuid) (uidValidity : Int) :
    owners s ⊆ owners (@cmdCreate Item userId tenantId folder id uidValidity s).1 := by
  rw [cmdCreate]
  dsimp only
  split
  · exact List.Subset.refl _
  · next s' inserted =>
    split at inserted
    · cases inserted
    · rw [owners, owners, commit_some inserted, List.map_append]
      exact List.subset_append_left _ _

variable (Item x s userId tenantId) in
theorem cmdAppend_keeps (folder : Str) (draft : Option Draft) :
    owners (@cmdAppend Item userId tenantId folder draft x.selected s).1 = owners s ∧
      (@cmdAppend Item userId tenantId folder draft x.selected s).2.1.map
          (fun sel => (sel.mailboxId, sel.readOnly)) =
        x.selected.map fun sel => (sel.mailboxId, sel.readOnly) := by
  rw [cmdAppend]
  cases findMailbox userId tenantId folder s with
  | none => exact ⟨rfl, rfl⟩
  | some dst =>
    cases draft with
    | none => exact ⟨rfl, rfl⟩
    | some draft =>
      dsimp only
      cases appended : appendMessage dst tenantId draft s with
      | none => exact ⟨rfl, rfl⟩
      | some result =>
        obtain ⟨s', assigned⟩ := result
        have same : owners s' = owners s := by
          rw [appendMessage, Option.map_eq_some_iff] at appended
          obtain ⟨s₁, inserted, isResult⟩ := appended
          cases isResult
          exact insertMessage_owners inserted
        cases x.selected with
        | none => exact ⟨same, rfl⟩
        | some sel =>
          dsimp only
          split
          · exact ⟨same, rfl⟩
          · exact ⟨same, rfl⟩

/-- The commands that enter or leave a mailbox or a login, or lose a mailbox. -/
def Moves : CommandBody Item → Bool
  | .login _ | .authenticate .. | .select .. | .close | .unselect | .delete _ => true
  | _ => false

theorem dispatch_frames {command : CommandBody Item} (stays : Moves command = false) :
    Frames x s (dispatch x s command) := by
  cases command with
  | login row => cases stays
  | authenticate plain message => cases stays
  | select folder readOnly => cases stays
  | close => cases stays
  | unselect => cases stays
  | delete folder => cases stays
  | inquire kind answer =>
    rw [dispatch]
    split
    · exact frames_same _
    · exact withLogin_rule frames_same (frames_same _)
    · exact withIdentity_rule frames_same frames_over fun _ _ _ _ => frames_same _
    · exact withMailbox_rule frames_same frames_over fun _ _ _ _ => frames_same _
  | logout => exact frames_over _
  | noop flagsItem => exact inSession_frames (pollSession_view flagsItem)
  | check flagsItem =>
    exact withLogin_rule frames_same (inSession_frames (pollSession_view flagsItem))
  | idle flagsItem ticks =>
    exact withLogin_rule frames_same (inSession_frames (handleIdle_view flagsItem 0 ticks))
  | append folder draft =>
    apply withIdentity_rule frames_same frames_over
    intro userId _ tenantId _
    obtain ⟨same, selection⟩ := cmdAppend_keeps s Item x tenantId userId folder draft
    refine ⟨fun owner member => same ▸ member, fun x' isNew => ?_⟩
    rw [← Option.mem_some_iff.mp isNew, Session.view, Session.view, selection]
  | fetch set request uid changedsince =>
    exact withMailbox_rule frames_same frames_over fun sel _ tenantId _ =>
      inStore_frames fun owner member => (fetchLoop_owners (s := s) _ _) ▸ member
  | store set kind answer flags uid flagsItem =>
    exact withMailbox_rule frames_same frames_over fun sel selected tenantId _ =>
      cmdStore_frames set kind answer flags uid flagsItem selected
  | copy set folder uid newId now =>
    exact withMailboxAndUser_rule frames_same frames_over fun sel selected userId _ tenantId _ =>
      cmdCopy_frames set folder uid newId now selected
  | move set folder uid newId now =>
    exact withMailboxAndUser_rule frames_same frames_over fun sel selected userId _ tenantId _ =>
      cmdMove_frames set folder uid newId now selected
  | expunge =>
    exact withMailbox_rule frames_same frames_over fun sel selected tenantId _ =>
      expungeRows_frames _ _ selected
  | expungeUid set =>
    exact withMailbox_rule frames_same frames_over fun sel selected tenantId _ =>
      expungeRows_frames _ _ selected
  | create folder id uidValidity =>
    exact withIdentity_rule frames_same frames_over fun userId _ tenantId _ =>
      inStore_frames (cmdCreate_owners folder id uidValidity)
  | rename src dst =>
    apply withIdentity_rule frames_same frames_over
    intro userId _ tenantId _
    split
    · next result done =>
      exact inStore_frames fun owner member => (cmdRename_owners done) ▸ member
    · exact frames_over _

/-! ### The invariant -/

/-- A mailbox is selected exactly in the state for it, and it is one of the user who is logged
in. -/
structure Consistent (s : Store) (x : Session) : Prop where
  selected_iff : x.selected.isSome ↔ x.state = .selected
  owned : ∀ sel ∈ x.selected, ∃ userId ∈ x.userId, ∃ tenantId ∈ x.tenantId,
    (sel.mailboxId, userId, tenantId) ∈ owners s

def Refused (replies : List (Reply Item)) : Prop :=
  ∃ text, .response (.no text) ∈ replies

/-- A `SELECT` or `EXAMINE` that fails leaves no mailbox selected. -/
def FailsUnselected (x : Session) (s : Store) (command : CommandBody Item) : Prop :=
  ∀ folder readOnly, command = .select folder readOnly → Refused (dispatch x s command).2.2 →
    ∀ x' ∈ (dispatch x s command).2.1, x'.selected = none

/-- With a mailbox selected there is no successful `LOGIN`, no `SELECT` or `EXAMINE` of a folder
that does not exist, and no `DELETE` of the mailbox. -/
def Orderly (x : Session) (s : Store) : CommandBody Item → Prop
  | .login row => row.isSome → x.selected = none
  | .select folder _ => ∀ userId ∈ x.userId, ∀ tenantId ∈ x.tenantId,
      findMailbox userId tenantId folder s = none → x.selected = none
  | .delete folder => isInbox folder = false → ∀ sel ∈ x.selected, ∀ userId ∈ x.userId,
      ∀ tenantId ∈ x.tenantId, ∀ mb ∈ s.mailboxes, mb.id = sel.mailboxId →
        namedBy userId tenantId folder mb = false
  | _ => True

theorem Consistent.selected_none (consistent : Consistent s x) (other : x.state ≠ .selected) :
    x.selected = none := by
  cases selected : x.selected with
  | none => rfl
  | some sel => exact absurd (consistent.selected_iff.mp (by rw [selected]; rfl)) other

theorem consistent_of_none (selected : x.selected = none) (other : x.state ≠ .selected) :
    Consistent s x where
  selected_iff := by simp [selected, other]
  owned := by simp [selected]

theorem Consistent.of_view {x' : Session} (consistent : Consistent s x)
    (subset : owners s ⊆ owners s') (view : x'.view = x.view) : Consistent s' x' := by
  simp only [Session.view, Prod.mk.injEq] at view
  obtain ⟨state, user, tenant, selection⟩ := view
  refine ⟨?_, fun sel selected => ?_⟩
  · rw [← Option.isSome_map (f := fun sel : SelectedMailbox => (sel.mailboxId, sel.readOnly)),
      selection, Option.isSome_map, state]
    exact consistent.selected_iff
  · rw [Option.mem_def.mp selected, Option.map_some] at selection
    obtain ⟨old, isOld, same⟩ := Option.map_eq_some_iff.mp selection.symm
    obtain ⟨userId, isUser, tenantId, isTenant, owner⟩ := consistent.owned old isOld
    rw [user, tenant, ← (Prod.mk.inj same).1]
    exact ⟨userId, isUser, tenantId, isTenant, subset owner⟩

theorem Frames.consistent {outcome : Outcome Item} (frames : Frames x s outcome)
    (consistent : Consistent s x) : ∀ x' ∈ outcome.2.1, Consistent outcome.1 x' :=
  fun x' isNew => consistent.of_view frames.owners_subset (frames.view_eq x' isNew)

theorem leave_consistent : Consistent s x.leave := by
  apply consistent_of_none rfl
  rw [Session.leave]
  dsimp only
  split
  · exact SessionState.noConfusion
  · next other => exact other

theorem findMailbox_owner {folder : Str} {mb : Mailbox}
    (found : findMailbox userId tenantId folder s = some mb) :
    (mb.id, userId, tenantId) ∈ owners s := by
  have listed := List.mem_of_find?_eq_some found
  have matched := List.find?_some found
  simp only [Bool.and_eq_true, decide_eq_true_eq] at matched
  rw [← matched.1.1, ← matched.2]
  exact List.mem_map_of_mem listed

theorem selectReplies_not_refused (mb : Mailbox) (existing : Nat) (readOnly : Bool) :
    ¬ Refused (@selectReplies Item mb tenantId existing readOnly s) := by
  intro ⟨text, member⟩
  simp only [selectReplies, List.mem_append] at member
  rcases member with ((fixed | unseen) | modseq) | access
  · simp at fixed
  · split at unseen <;> simp at unseen
  · split at modseq
    · split at modseq <;> simp at modseq
    · simp at modseq
  · simp at access

/-! ### Each command -/

theorem login_orderly_iff (row : Identity) (consistent : Consistent s x) :
    Orderly x s (.login row : CommandBody Item) ↔ Consistent s (@cmdLogin Item row x).1 := by
  rw [Orderly]
  cases row with
  | none => exact ⟨fun _ => consistent, fun _ logged => nomatch logged⟩
  | some identity =>
    constructor
    · intro orderly
      exact consistent_of_none (orderly rfl) SessionState.noConfusion
    · intro kept _
      exact kept.selected_none SessionState.noConfusion

theorem authenticate_consistent (plain : Bool) (message : Option Identity)
    (consistent : Consistent s x) : Consistent s (@cmdAuthenticate Item plain message x).1 := by
  unfold cmdAuthenticate
  split
  · exact consistent
  · next fresh =>
    have none : x.selected = none := by
      apply consistent.selected_none
      rw [not_not.mp fresh]
      exact SessionState.noConfusion
    split
    · exact consistent
    · split
      · exact consistent_of_none none SessionState.noConfusion
      · exact consistent
      · exact consistent

theorem select_orderly_iff (folder : Str) (readOnly : Bool) (consistent : Consistent s x) :
    Orderly x s (.select folder readOnly : CommandBody Item) ↔
      (∀ x' ∈ (@dispatch Item x s (.select folder readOnly)).2.1,
        Consistent (@dispatch Item x s (.select folder readOnly)).1 x') ∧
      FailsUnselected x s (.select folder readOnly : CommandBody Item) := by
  rw [FailsUnselected, dispatch, withIdentity, withLogin, Orderly]
  split
  · next out =>
    have none := consistent.selected_none (by rw [out]; exact SessionState.noConfusion)
    simp [none, consistent]
  · cases user : x.userId with
    | none => simp
    | some userId =>
      cases tenant : x.tenantId with
      | none => simp
      | some tenantId =>
        simp only [Option.mem_some_iff, forall_eq', inSession, cmdSelect]
        cases found : findMailbox userId tenantId folder s with
        | none =>
          simp only [no, Refused]
          constructor
          · intro orderly
            exact ⟨consistent, fun _ _ _ _ => orderly trivial⟩
          · intro clean _
            exact clean.2 folder readOnly rfl ⟨_, List.mem_cons_self⟩
        | some mb =>
          refine ⟨fun _ => ⟨⟨by simp, fun sel isNew => ?_⟩, fun _ _ _ refused => ?_⟩,
            fun _ gone => ?_⟩
          · rw [← Option.mem_some_iff.mp isNew]
            exact ⟨userId, user, tenantId, tenant, findMailbox_owner found⟩
          · exact absurd refused (selectReplies_not_refused _ _ _)
          · cases gone

/-- No constraint stands against the deletion of mailboxes with their messages. -/
theorem deleteMailboxes_accepted (selected : Mailbox → Bool) (s : Store) :
    ∃ s', deleteMailboxes selected s = some s' ∧
      s'.mailboxes = s.mailboxes.filter fun mb => !selected mb := by
  obtain ⟨ids, names, messageIds, uids, references, counts, small⟩ := s.constraints
  have mailboxes := List.filter_sublist (p := fun mb => !selected mb) (l := s.mailboxes)
  have messages := List.filter_sublist
    (p := fun m => !((s.mailboxes.filter selected).map (·.id)).contains m.mailboxId)
    (l := s.messages)
  have valid : Tables.Constraints { s.toTables with
      mailboxes := s.mailboxes.filter fun mb => !selected mb
      messages := s.messages.filter fun m =>
        !((s.mailboxes.filter selected).map (·.id)).contains m.mailboxId } := by
    refine ⟨ids.sublist (mailboxes.map _), names.sublist (mailboxes.map _),
      messageIds.sublist (messages.map _), uids.sublist (messages.map _), ?_, ?_,
      fun m member => small m (messages.subset member)⟩
    · intro m member
      obtain ⟨listed, left⟩ := List.mem_filter.mp member
      have others : ∀ mb ∈ s.mailboxes, selected mb = true → mb.id ≠ m.mailboxId := by
        simpa using left
      obtain ⟨mb, among, isMailbox⟩ := List.mem_map.mp (references m listed)
      have kept : selected mb = false :=
        Bool.eq_false_iff.mpr fun chosen => others mb among chosen isMailbox
      exact List.mem_map.mpr ⟨mb, List.mem_filter.mpr ⟨among, by rw [kept]; rfl⟩, isMailbox⟩
    · intro mb member
      exact lt_of_le_of_lt (messages.filter _).length_le (counts mb (mailboxes.subset member))
  exact ⟨⟨_, valid⟩, dif_pos valid, rfl⟩

theorem cmdDelete_mailboxes (folder : Str) (other : isInbox folder = false) :
    (@cmdDelete Item userId tenantId folder s).1.mailboxes =
      s.mailboxes.filter fun mb => !namedBy userId tenantId folder mb := by
  rw [cmdDelete, other]
  by_cases named : s.mailboxes.any (namedBy userId tenantId folder) = true
  · obtain ⟨s', deleted, left⟩ := deleteMailboxes_accepted (namedBy userId tenantId folder) s
    rw [if_pos named, deleted]
    exact left
  · rw [if_neg named]
    symm
    apply List.filter_eq_self.mpr
    intro mb listed
    rw [Bool.not_eq_true', ← Bool.not_eq_true]
    exact fun found => named (List.any_eq_true.mpr ⟨mb, listed, found⟩)

theorem delete_session {folder : Str} :
    ∀ x' ∈ (@dispatch Item x s (.delete folder)).2.1, x' = x := by
  have same (replies : List (Reply Item)) (s : Store) : ∀ x' ∈ (s, some x, replies).2.1, x' = x :=
    fun x' isNew => (Option.mem_some_iff.mp isNew).symm
  exact withIdentity_rule (P := fun outcome => ∀ x' ∈ outcome.2.1, x' = x)
    (fun replies => same replies s) (fun _ x' finished => nomatch finished) fun _ _ _ _ => same _ _

theorem mem_owners_of_filter {q : Mailbox → Bool} {mb : Mailbox} (listed : mb ∈ s.mailboxes)
    (left : s'.mailboxes = s.mailboxes.filter q) :
    (mb.id, mb.userId, mb.tenantId) ∈ owners s' ↔ q mb = true := by
  rw [owners, left, List.mem_map]
  constructor
  · intro ⟨other, among, same⟩
    obtain ⟨listed', kept⟩ := List.mem_filter.mp among
    rw [← List.inj_on_of_nodup_map s.constraints.1 listed' listed (congrArg Prod.fst same)]
    exact kept
  · exact fun kept => ⟨mb, List.mem_filter.mpr ⟨listed, kept⟩, rfl⟩

theorem delete_orderly_iff (folder : Str) (consistent : Consistent s x) :
    Orderly x s (.delete folder : CommandBody Item) ↔
      ∀ x' ∈ (@dispatch Item x s (.delete folder)).2.1,
        Consistent (@dispatch Item x s (.delete folder)).1 x' := by
  cases selected : x.selected with
  | none =>
    have other : x.state ≠ .selected := fun isSelected => by
      simpa [selected] using consistent.selected_iff.mpr isSelected
    refine ⟨fun _ x' isNew => ?_, fun _ _ sel isSel => ?_⟩
    · rw [delete_session x' isNew]
      exact consistent_of_none selected other
    · rw [selected] at isSel
      cases isSel
  | some sel =>
    have state : x.state = .selected := consistent.selected_iff.mp (by rw [selected]; rfl)
    obtain ⟨userId, user, tenantId, tenant, owner⟩ := consistent.owned sel selected
    have ran : @dispatch Item x s (.delete folder) =
        inStore x (cmdDelete userId tenantId folder s) := by
      simp [dispatch, withIdentity, withLogin, state, Option.mem_def.mp user,
        Option.mem_def.mp tenant]
    rw [ran, Orderly]
    simp only [inStore, Option.mem_some_iff, forall_eq', selected, Option.mem_def.mp user,
      Option.mem_def.mp tenant]
    cases inbox : isInbox folder with
    | true =>
      rw [cmdDelete, inbox]
      exact ⟨fun _ => consistent, fun _ other => by cases other⟩
    | false =>
      have left := @cmdDelete_mailboxes s Item tenantId userId folder inbox
      obtain ⟨mb, listed, same⟩ := List.mem_map.mp owner
      have isId : mb.id = sel.mailboxId := congrArg Prod.fst same
      have still := mem_owners_of_filter listed left
      rw [same, Bool.not_eq_true'] at still
      constructor
      · intro orderly
        refine ⟨consistent.selected_iff, fun other isOther => ?_⟩
        rw [← Option.some.inj (selected.symm.trans isOther)]
        exact ⟨userId, user, tenantId, tenant, still.mpr (orderly rfl mb listed isId)⟩
      · intro kept _ other listed' isOther
        obtain ⟨user', isUser, tenant', isTenant, owner'⟩ := kept.owned sel selected
        rw [Option.mem_unique isUser user, Option.mem_unique isTenant tenant] at owner'
        rw [List.inj_on_of_nodup_map s.constraints.1 listed' listed (isOther.trans isId.symm)]
        exact still.mp owner'

theorem orderly_iff (command : CommandBody Item) (consistent : Consistent s x) :
    Orderly x s command ↔
      (∀ x' ∈ (dispatch x s command).2.1, Consistent (dispatch x s command).1 x') ∧
        FailsUnselected x s command := by
  by_cases select : ∃ folder readOnly, command = .select folder readOnly
  · obtain ⟨folder, readOnly, rfl⟩ := select
    exact select_orderly_iff folder readOnly consistent
  have notSelect : FailsUnselected x s command :=
    fun folder readOnly isSelect => absurd ⟨folder, readOnly, isSelect⟩ select
  rw [and_iff_left notSelect]
  cases command with
  | login row =>
    rw [login_orderly_iff row consistent]
    exact ⟨fun kept x' isNew => Option.mem_some_iff.mp isNew ▸ kept, fun kept => kept _ rfl⟩
  | authenticate plain message =>
    refine ⟨fun _ x' isNew => ?_, fun _ => trivial⟩
    rw [← Option.mem_some_iff.mp isNew]
    exact authenticate_consistent plain message consistent
  | select folder readOnly => exact absurd ⟨folder, readOnly, rfl⟩ select
  | close =>
    refine ⟨fun _ x' isNew => ?_, fun _ => trivial⟩
    rw [← Option.mem_some_iff.mp isNew]
    exact leave_consistent
  | unselect =>
    refine ⟨fun _ x' isNew => ?_, fun _ => trivial⟩
    rw [← Option.mem_some_iff.mp isNew, cmdUnselect]
    split
    · exact consistent
    · exact leave_consistent
  | delete folder => exact delete_orderly_iff folder consistent
  | _ => exact ⟨fun _ => (dispatch_frames rfl).consistent consistent, fun _ => trivial⟩

end

/-! ### Runs -/

/-- The tables, and the session until the connection is over. -/
structure Connection where
  store : Store
  session : Option Session

namespace Connection
open Transition

variable {Item : Type}

def step (k : Connection) (command : CommandBody Item) : Connection :=
  match k.session with
  | none => k
  | some x => ⟨(dispatch x k.store command).1, (dispatch x k.store command).2.1⟩

def Consistent (k : Connection) : Prop := ∀ x ∈ k.session, Imap.Consistent k.store x

def FailsUnselected (k : Connection) (command : CommandBody Item) : Prop :=
  ∀ x ∈ k.session, Imap.FailsUnselected x k.store command

def Orderly (k : Connection) (command : CommandBody Item) : Prop :=
  ∀ x ∈ k.session, Imap.Orderly x k.store command

theorem orderly_iff {k : Connection} (consistent : k.Consistent) (command : CommandBody Item) :
    k.Orderly command ↔ (k.step command).Consistent ∧ k.FailsUnselected command := by
  obtain ⟨s, session⟩ := k
  cases session with
  | none =>
    exact ⟨fun _ => ⟨consistent, fun _ member => nomatch member⟩,
      fun _ _ member => nomatch member⟩
  | some x =>
    have each := Imap.orderly_iff command (consistent x rfl)
    simpa only [Orderly, Consistent, FailsUnselected, step, Option.mem_some_iff, forall_eq']
      using each

/-- A connection before its first command. -/
def fresh (s : Store) : Connection := ⟨s, some ⟨.notAuthenticated, none, none, none⟩⟩

theorem fresh_consistent (s : Store) : (fresh s).Consistent := by
  intro x isSession
  rw [← Option.mem_some_iff.mp isSession]
  exact consistent_of_none rfl SessionState.noConfusion

theorem session_consistent_iff (s : Store) (commands : List (CommandBody Item)) :
    EachStep step Orderly (fresh s) commands ↔
      Throughout step Consistent (fresh s) commands ∧
        EachStep step FailsUnselected (fresh s) commands := by
  apply eachStep_iff_throughout_and
  · exact fun k command holds => orderly_iff holds command
  · exact fresh_consistent s

def inboxOnly : Store := ⟨foldersNamed ["INBOX".toList], by decide⟩

/-- The user 1 selects the inbox; then the user 2 logs in on the same connection. -/
def secondLogin : List (CommandBody Unit) :=
  [.login (some (1, 1)), .select "INBOX".toList false, .login (some (2, 1))]

/-- The user 1 selects the inbox, and then a folder that does not exist. -/
def missingFolder : List (CommandBody Unit) :=
  [.login (some (1, 1)), .select "INBOX".toList false, .select "Lost".toList false]

theorem session_inconsistent :
    ¬ Throughout step Consistent (fresh inboxOnly) secondLogin ∧
      ¬ EachStep step FailsUnselected (fresh inboxOnly) missingFolder := by
  constructor
  · intro holds
    have last := throughout_iff.mp holds secondLogin [] rfl
    have state : (secondLogin.foldl step (fresh inboxOnly)).session.map
        (fun x => (x.state, x.selected.isSome)) = some (.authenticated, true) := by decide
    obtain ⟨x, session, isState⟩ := Option.map_eq_some_iff.mp state
    obtain ⟨authenticated, selected⟩ := Prod.mk.inj isState
    have wrong := (last x session).selected_iff.mp selected
    rw [authenticated] at wrong
    cases wrong
  · intro ⟨_, _, clean, _⟩
    have session : ((missingFolder.take 2).foldl step (fresh inboxOnly)).session =
        some ⟨.selected, some 1, some 1, some ⟨0, 0, false, []⟩⟩ := by decide
    have kept := clean _ session _ _ rfl ⟨"mailbox not found", List.mem_cons_self⟩ _ rfl
    cases kept

end Connection

end Expresso.Imap
