import Expresso.Imap.Sequence

/-! The `EXPUNGE` responses, taken one after the other, turn the client's list into the
mailbox as it is after the deletion. -/

namespace Expresso.Imap
open Text Sql

section
variable {Item : Type} {sel : SelectedMailbox} {tenantId : Uuid} {s s' : Store}

/-- No constraint stands against a deletion. -/
theorem deleteMessages_accepted (selected : Message → Bool) (s : Store) :
    ∃ s', deleteMessages selected s = some s' := by
  obtain ⟨ids, names, messageIds, uids, references, counts, small⟩ := s.constraints
  have sub := List.filter_sublist (p := fun m => !selected m) (l := s.messages)
  rw [deleteMessages, commit, messagesSyncMailboxStats_eq]
  have kept : ∀ {α : Type} (f : Mailbox → α), (∀ messages mb, f (refreshed messages mb) = f mb) →
      ∀ (targets : List Uuid) (messages : List Message),
      (s.mailboxes.map fun mb => if mb.id ∈ targets then refreshed messages mb else mb).map f =
        s.mailboxes.map f := by
    intro α f same targets messages
    rw [List.map_map]
    apply List.map_congr_left
    intro mb _
    simp only [Function.comp_apply]
    split
    · exact same messages mb
    · rfl
  rw [dif_pos]
  · exact ⟨_, rfl⟩
  · refine ⟨?_, ?_, messageIds.sublist (sub.map _), uids.sublist (sub.map _), ?_, ?_, ?_⟩
    · rw [kept (·.id) fun _ _ => rfl]
      exact ids
    · rw [kept (fun mb => (mb.userId, mb.folderName)) fun _ _ => rfl]
      exact names
    · intro m member
      rw [kept (·.id) fun _ _ => rfl]
      exact references m (sub.subset member)
    · intro mb member
      obtain ⟨old, listed, same⟩ := List.mem_map.mp member
      have isId : mb.id = old.id := by
        rw [← same]
        split <;> rfl
      have fewer := (sub.filter fun m => m.mailboxId = mb.id).length_le
      have bound := counts old listed
      rw [← isId] at bound
      exact lt_of_le_of_lt fewer bound
    · exact fun m member => small m (sub.subset member)

theorem deleteMessages_messages {selected : Message → Bool}
    (done : deleteMessages selected s = some s') :
    s'.messages = s.messages.filter fun m => !selected m := by
  rw [deleteMessages] at done
  rw [commit_some done, messagesSyncMailboxStats_eq]

theorem mailboxRows_expunged {narrowed : Message → Bool}
    (done : deleteMessages (expunged sel.mailboxId tenantId narrowed) s = some s') :
    mailboxRows sel.mailboxId tenantId s' = (mailboxRows sel.mailboxId tenantId s).filter fun m =>
      !(m.flags.contains deletedFlag && narrowed m) := by
  rw [mailboxRows, deleteMessages_messages done, mailboxRows, filter_orderBy, List.filter_filter,
    List.filter_filter]
  congr 1
  apply List.filter_congr
  intro m _
  simp only [expunged, Bool.and_assoc]
  cases inMailbox sel.mailboxId tenantId m <;> simp

variable (sel tenantId s) in
theorem expungeSeqs_increasing (narrowed : Message → Bool) :
    (expungeSeqs narrowed sel tenantId s).Pairwise (· < ·) ∧
      ∀ n ∈ expungeSeqs narrowed sel tenantId s, 1 ≤ n ∧ n < 2 ^ 32 := by
  have small : (mailboxRows sel.mailboxId tenantId s).length < 2 ^ 31 := mailboxRows_length
  have sub := (List.filter_sublist (p := fun row : Message × Nat =>
    row.1.flags.contains deletedFlag && narrowed row.1) (l := rowNumbered
      (mailboxRows sel.mailboxId tenantId s))).map (·.2)
  rw [rowNumbered_map_snd] at sub
  refine ⟨(List.pairwise_lt_range' 1).sublist sub, ?_⟩
  intro n member
  have range := List.mem_range'_1.mp (sub.subset member)
  omega

theorem expungeRows_numbers (narrowed : Message → Bool) (completed : String) :
    applyExpunges (mailboxRows sel.mailboxId tenantId s)
        (expungesOf (expungeRows narrowed completed sel tenantId s :
          Store × SelectedMailbox × List (Response Item)).2.2) =
      mailboxRows sel.mailboxId tenantId
        (expungeRows narrowed completed sel tenantId s :
          Store × SelectedMailbox × List (Response Item)).1 := by
  obtain ⟨s', done⟩ := deleteMessages_accepted (expunged sel.mailboxId tenantId narrowed) s
  obtain ⟨increasing, range⟩ := expungeSeqs_increasing sel tenantId s narrowed
  have silent : expungesOf ((if (expungeSeqs narrowed sel tenantId s).isEmpty then []
      else [.existing (sel.existing - (expungeSeqs narrowed sel tenantId s).length)]) ++
        [(.ok none completed : Response Item)]) = [] := by
    split <;> rfl
  simp only [expungeRows, done, Option.getD_some, List.append_assoc]
  rw [expungesOf_responses increasing range silent, mailboxRows_expunged done, expungeSeqs]
  have kept := filter_rowNumbered_fst (fun m : Message =>
    !(m.flags.contains deletedFlag && narrowed m)) (mailboxRows sel.mailboxId tenantId s)
  rw [← kept]
  exact applyExpunges_selected (fun row : Message × Nat =>
    row.1.flags.contains deletedFlag && narrowed row.1) [] (mailboxRows sel.mailboxId tenantId s) 0

/-- For every content of the mailbox, whichever messages are marked as deleted, and every set of
UIDs. -/
theorem expunge_numbers_right (set : SequenceSet) :
    (applyExpunges (mailboxRows sel.mailboxId tenantId s)
        (expungesOf (cmdExpunge sel tenantId s :
          Store × SelectedMailbox × List (Response Item)).2.2) =
      mailboxRows sel.mailboxId tenantId
        (cmdExpunge sel tenantId s : Store × SelectedMailbox × List (Response Item)).1) ∧
    applyExpunges (mailboxRows sel.mailboxId tenantId s)
        (expungesOf (cmdExpungeUid set sel tenantId s :
          Store × SelectedMailbox × List (Response Item)).2.2) =
      mailboxRows sel.mailboxId tenantId
        (cmdExpungeUid set sel tenantId s : Store × SelectedMailbox × List (Response Item)).1 :=
  ⟨expungeRows_numbers _ _, expungeRows_numbers _ _⟩

end

end Expresso.Imap
