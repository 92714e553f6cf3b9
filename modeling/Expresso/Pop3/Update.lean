import Expresso.Pop3.Maildrop
import Mathlib.Data.List.Induction

/-! The rows that a session removes: those named by its deletions when it ends with `QUIT`. -/

namespace Expresso.Pop3
open Text Imap Transition

/-! ### The marks after one command -/

def deletedText (num : UInt32) : Str := "message ".toList ++ display num.toNat ++ " deleted".toList

theorem err_ne_ok (text reply : Str) : err text ≠ ok reply := by
  intro same
  have refused : (err text).map List.head? = [some 45] := rfl
  have accepted : (ok reply).map List.head? = [some 43] := by
    unfold ok
    split <;> rfl
  rw [same, accepted] at refused
  exact absurd refused (by decide)

section
variable {md : Maildrop}

theorem dele_ok_iff {num : UInt32} :
    (dele md num).2 = ok (deletedText num) ↔ ∃ idx, md.live num = some idx := by
  unfold dele
  cases md.live num with
  | none => exact ⟨fun same => absurd same (err_ne_ok _ _), fun ⟨_, found⟩ => nomatch found⟩
  | some idx => exact ⟨fun _ => ⟨idx, rfl⟩, fun _ => rfl⟩

variable (showSimple : Uuid → Str) (answers : Answers)

theorem dispatchTxn_tenant (cmd : Pop3Command) :
    (dispatchTxn answers showSimple md cmd).1.tenantId = md.tenantId := by
  cases cmd with
  | dele num =>
    show (dele md num).1.tenantId = md.tenantId
    unfold dele
    cases md.live num <;> rfl
  | _ => rfl

/-- Whether a slot is marked after a command. -/
def Maildrop.marksAfter (md : Maildrop) (idx : Nat) (was : Bool) : Pop3Command → Bool
  | .dele num => md.live num = some idx || was
  | .rset => false
  | _ => was

theorem marksAfter_iff {idx : Nat} {was : Bool} {cmd : Pop3Command} :
    md.marksAfter idx was cmd = true ↔
      (∃ num, cmd = .dele num ∧ md.live num = some idx) ∨ (was = true ∧ cmd ≠ .rset) := by
  cases cmd with
  | dele num =>
    show (decide (md.live num = some idx) || was) = true ↔ _
    rw [Bool.or_eq_true, decide_eq_true_eq]
    constructor
    · exact Or.imp (fun live => ⟨num, rfl, live⟩) fun marked => ⟨marked, nofun⟩
    · refine Or.imp ?_ And.left
      intro ⟨_, same, live⟩
      rwa [Pop3Command.dele.inj same]
  | rset =>
    show false = true ↔ _
    exact iff_of_false Bool.false_ne_true fun h => h.elim (fun ⟨_, same, _⟩ => nomatch same)
      fun both => both.2 rfl
  | _ =>
    show was = true ↔ _
    exact ⟨fun marked => .inr ⟨marked, nofun⟩, fun h => h.elim
      (fun ⟨_, same, _⟩ => nomatch same) And.left⟩

theorem dispatchTxn_slots (cmd : Pop3Command) (idx : Nat) :
    (dispatchTxn answers showSimple md cmd).1.slots[idx]? = (md.slots[idx]?).map fun slot =>
      ⟨slot.msg, md.marksAfter idx slot.deleted cmd⟩ := by
  cases cmd with
  | dele num =>
    show (dele md num).1.slots[idx]? = _
    unfold dele Maildrop.marksAfter
    cases found : md.live num with
    | none => simp [found]
    | some marked =>
      show (md.slots.modify marked _)[idx]? = _
      rw [List.getElem?_modify]
      by_cases here : marked = idx
      · simp [here, found]
      · simp [here, found]
  | rset =>
    show (md.slots.map _)[idx]? = _
    rw [List.getElem?_map]
    rfl
  | _ => exact Option.map_id'.symm

theorem dispatchTxn_messages (cmd : Pop3Command) :
    (dispatchTxn answers showSimple md cmd).1.messages = md.messages := by
  apply List.ext_getElem?
  intro idx
  rw [Maildrop.messages, Maildrop.messages, List.getElem?_map, List.getElem?_map,
    dispatchTxn_slots, Option.map_map]
  rfl

end

/-! ### The marks after a run -/

def Round.command (round : Round) : Option Pop3Command :=
  match round.turn with
  | .line buf _ _ => some (Pop3.command buf)
  | _ => none

section
variable (showSimple : Uuid → Str)

/-- A `DELE` that is answered with success. -/
def Deletes (num : UInt32) (st : State) (round : Round) : Prop :=
  round.command = some (.dele num) ∧ (step showSimple st round).2.1 = ok (deletedText num)

/-- A `DELE` of the number has succeeded, and no `RSET` came after it. -/
def Named (num : UInt32) : State → List Round → Prop :=
  Since (next showSimple) (Deletes showSimple num) fun round => round.command = some .rset

/-- The maildrop of the login, with the slots marked that the rounds have named. -/
def Tracks (tenantId : Uuid) (msgs : List Pop3Message) (st : State) (rounds : List Round) : Prop :=
  ∃ md, (run showSimple st rounds).session.drop = some md ∧ md.tenantId = tenantId ∧
    md.messages = msgs ∧
    ((run showSimple st rounds).ending = none → ∀ idx slot, md.slots[idx]? = some slot →
      (slot.deleted = true ↔ ∃ num, num.toNat = idx + 1 ∧ Named showSimple num st rounds))

variable {showSimple}

theorem run_snoc (st : State) (rounds : List Round) (last : Round) :
    run showSimple st (rounds ++ [last]) = next showSimple (run showSimple st rounds) last := by
  simp [run]

theorem step_closed {st : State} {ending : Ending} (ended : st.ending = some ending)
    (round : Round) : step showSimple st round = (st, [], round.db) := by
  unfold step
  rw [ended]

variable (showSimple) in
theorem step_line {st : State} {round : Round} {md : Maildrop} {buf : Octets} {answers : Answers}
    {written : Bool} (going : st.ending = none) (drop : st.session.drop = some md)
    (line : round.turn = .line buf answers written) (other : command buf ≠ .quit) :
    step showSimple st round =
      (⟨{ st.session with drop := some (dispatchTxn answers showSimple md (command buf)).1 },
        if written then none else some .broken⟩,
        (dispatchTxn answers showSimple md (command buf)).2, round.db) := by
  unfold step
  rw [going, line]
  simp only [other, ↓reduceIte, drop]

variable (showSimple) in
/-- A round without a command leaves the maildrop and the tables as they are. -/
theorem step_other {st : State} {round : Round} (going : st.ending = none)
    (other : round.command = none) : (step showSimple st round).1.session = st.session ∧
      (step showSimple st round).2.2 = round.db ∧
      (step showSimple st round).1.ending ≠ some .quit := by
  unfold step
  rw [going]
  unfold Round.command at other
  cases same : round.turn with
  | line buf answers written =>
    rw [same] at other
    cases other
  | tooLong written => exact ⟨rfl, rfl, by cases written <;> simp⟩
  | _ => exact ⟨rfl, rfl, by simp⟩

theorem command_eq_some {round : Round} {cmd : Pop3Command} (is : round.command = some cmd) :
    ∃ buf answers written, round.turn = .line buf answers written ∧ command buf = cmd := by
  unfold Round.command at is
  cases same : round.turn with
  | line buf answers written =>
    rw [same] at is
    exact ⟨buf, answers, written, rfl, Option.some.inj is⟩
  | _ =>
    rw [same] at is
    cases is

theorem step_quit {st : State} {round : Round} {buf : Octets} {answers : Answers} {written : Bool}
    (going : st.ending = none) (line : round.turn = .line buf answers written)
    (quits : command buf = .quit) :
    (step showSimple st round).1 = { st with ending := some .quit } ∧
      (step showSimple st round).2.2 = (commitQuit answers.served st.session.drop round.db).1 := by
  unfold step
  rw [going, line]
  simp only [quits, ↓reduceIte, and_self]

theorem tracks_nil {st : State} {userId tenantId : Uuid} {msgs : List Pop3Message}
    (opened : st.session.drop = some (.fresh userId tenantId msgs)) :
    Tracks showSimple tenantId msgs st [] := by
  refine ⟨_, opened, rfl, fresh_messages userId tenantId msgs, fun _ idx slot found => ?_⟩
  have unmarked : slot.deleted = false := by
    rw [Maildrop.fresh, List.getElem?_map, Option.map_eq_some_iff] at found
    obtain ⟨msg, _, rfl⟩ := found
    rfl
  rw [unmarked]
  simp only [Bool.false_eq_true, false_iff, not_exists, not_and]
  exact fun num _ => since_nil

theorem tracks_snoc {st : State} {tenantId : Uuid} {msgs : List Pop3Message} {rounds : List Round}
    {last : Round} (tracks : Tracks showSimple tenantId msgs st rounds) :
    Tracks showSimple tenantId msgs st (rounds ++ [last]) := by
  obtain ⟨md, drop, tenant, messages, marks⟩ := tracks
  unfold Tracks
  rw [run_snoc]
  have named : ∀ num, Named showSimple num st (rounds ++ [last]) ↔
      Deletes showSimple num (run showSimple st rounds) last ∨
        (Named showSimple num st rounds ∧ last.command ≠ some .rset) := fun num => since_snoc
  cases ending : (run showSimple st rounds).ending with
  | some ending' =>
    refine ⟨md, ?_, tenant, messages, fun going => ?_⟩
    · rw [next, step_closed ending]
      exact drop
    · rw [next, step_closed ending, ending] at going
      cases going
  | none =>
    cases cmd : last.command with
    | none =>
      obtain ⟨session, _, _⟩ := step_other showSimple ending cmd
      refine ⟨md, by rw [next, session, drop], tenant, messages, fun _ idx slot found => ?_⟩
      rw [marks ending idx slot found]
      simp only [named, Deletes, cmd, reduceCtorEq, false_and, false_or, ne_eq,
        not_false_eq_true, and_true]
    | some cmd' =>
      obtain ⟨buf, answers, written, line, rfl⟩ := command_eq_some cmd
      by_cases quits : command buf = .quit
      · refine ⟨md, ?_, tenant, messages, fun going => ?_⟩
        · rw [next, (step_quit ending line quits).1]
          exact drop
        · rw [next, (step_quit ending line quits).1] at going
          cases going
      · have after := step_line showSimple ending drop line quits
        refine ⟨_, by rw [next, after], (dispatchTxn_tenant ..).trans tenant,
          (dispatchTxn_messages ..).trans messages, fun _ idx slot found => ?_⟩
        rw [dispatchTxn_slots, Option.map_eq_some_iff] at found
        obtain ⟨old, before, rfl⟩ := found
        rw [marksAfter_iff, marks ending idx old before]
        have deletes : ∀ num : UInt32, num.toNat = idx + 1 →
            (Deletes showSimple num (run showSimple st rounds) last ↔
              command buf = .dele num ∧ md.live num = some idx) := by
          intro num number
          unfold Deletes
          rw [after, cmd, Option.some.injEq]
          apply and_congr_right
          intro dele
          rw [dele]
          show (Pop3.dele md num).2 = _ ↔ _
          rw [dele_ok_iff]
          constructor
          · rintro ⟨idx', live⟩
            have same := (live_eq_some_iff.mp live).1
            rwa [show idx = idx' by omega]
          · exact fun live => ⟨idx, live⟩
        constructor
        · rintro (⟨num, dele, live⟩ | ⟨⟨num, number, earlier⟩, kept⟩)
          · have number := (live_eq_some_iff.mp live).1
            exact ⟨num, number, (named num).mpr (.inl ((deletes num number).mpr ⟨dele, live⟩))⟩
          · refine ⟨num, number, (named num).mpr (.inr ⟨earlier, ?_⟩)⟩
            rwa [cmd, ne_eq, Option.some.injEq]
        · rintro ⟨num, number, now⟩
          rcases (named num).mp now with deleted | ⟨earlier, kept⟩
          · exact .inl ⟨num, (deletes num number).mp deleted⟩
          · rw [cmd, ne_eq, Option.some.injEq] at kept
            exact .inr ⟨⟨num, number, earlier⟩, kept⟩

variable (showSimple) in
theorem tracks {st : State} {userId tenantId : Uuid} {msgs : List Pop3Message}
    (opened : st.session.drop = some (.fresh userId tenantId msgs)) (rounds : List Round) :
    Tracks showSimple tenantId msgs st rounds := by
  induction rounds using List.reverseRecOn with
  | nil => exact tracks_nil opened
  | append_singleton rounds last ih => exact tracks_snoc ih

/-! ### The rows removed -/

theorem commitQuit_messages {served : Bool} {md : Maildrop} {db : Store} {m : Message}
    (row : m ∈ db.messages) :
    m ∉ (commitQuit served (some md) db).1.messages ↔
      served = true ∧ m.tenantId = md.tenantId ∧ m.id ∈ md.marked := by
  unfold commitQuit deleteIds
  by_cases empty : md.marked.isEmpty = true
  · have nothing : md.marked = [] := List.isEmpty_iff.mp empty
    simp [nothing, row]
  · simp only [empty, Bool.false_eq_true, ↓reduceIte]
    cases served with
    | false => simp [row]
    | true =>
      obtain ⟨db', done⟩ := deleteMessages_accepted
        (fun m => md.marked.contains m.id && m.tenantId = md.tenantId) db
      simp only [↓reduceIte, done, deleteMessages_messages done,
        List.mem_filter, row, true_and, Bool.not_eq_true', Bool.not_eq_false, Bool.and_eq_true,
        List.contains_iff_mem, decide_eq_true_eq]
      exact and_comm

variable (showSimple) in
/-- Some round of the session has taken the row from the tables. -/
def Removed (st : State) (rounds : List Round) (m : Message) : Prop :=
  ∃ before round after, rounds = before ++ round :: after ∧ m ∈ round.db.messages ∧
    m ∉ (step showSimple (run showSimple st before) round).2.2.messages

def Round.served (round : Round) : Bool :=
  match round.turn with
  | .line _ answers _ => answers.served
  | _ => false

variable (showSimple) in
/-- The session has come as far as a `QUIT`, after these rounds. -/
def Quits (st : State) (rounds before : List Round) (round : Round) : Prop :=
  (∃ after, rounds = before ++ round :: after) ∧
    (run showSimple st before).ending = none ∧ round.command = some .quit

variable (showSimple) in
/-- A deletion of a message of the maildrop has succeeded, and no `RSET` came after it. -/
def NamedMessage (msgs : List Pop3Message) (st : State) (rounds : List Round) (id : Uuid) : Prop :=
  ∃ (num : UInt32) (idx : Nat) (msg : Pop3Message), num.toNat = idx + 1 ∧
    Named showSimple num st rounds ∧ msgs[idx]? = some msg ∧ msg.id = id

theorem mem_marked {md : Maildrop} {id : Uuid} :
    id ∈ md.marked ↔
      ∃ (idx : Nat) (slot : Slot), md.slots[idx]? = some slot ∧ slot.deleted = true ∧
        slot.msg.id = id := by
  rw [Maildrop.marked, List.mem_map]
  simp only [List.mem_filter, List.mem_iff_getElem? (l := md.slots)]
  constructor
  · rintro ⟨slot, ⟨⟨idx, found⟩, marked⟩, same⟩
    exact ⟨idx, slot, found, marked, same⟩
  · rintro ⟨idx, slot, found, marked, same⟩
    exact ⟨slot, ⟨⟨idx, found⟩, marked⟩, same⟩

section
variable {st : State} {userId tenantId : Uuid} {msgs : List Pop3Message} {rounds : List Round}

theorem marked_iff_named {md : Maildrop} (messages : md.messages = msgs)
    (marks : ∀ idx slot, md.slots[idx]? = some slot →
      (slot.deleted = true ↔ ∃ num, num.toNat = idx + 1 ∧ Named showSimple num st rounds))
    {id : Uuid} : id ∈ md.marked ↔ NamedMessage showSimple msgs st rounds id := by
  rw [mem_marked]
  have message : ∀ idx : Nat, msgs[idx]? = (md.slots[idx]?).map (·.msg) := fun idx => by
    rw [← messages, Maildrop.messages, List.getElem?_map]
  constructor
  · rintro ⟨idx, slot, found, marked, same⟩
    obtain ⟨num, number, named⟩ := (marks idx slot found).mp marked
    exact ⟨num, idx, slot.msg, number, named, by rw [message, found]; rfl, same⟩
  · rintro ⟨num, idx, msg, number, named, found, same⟩
    rw [message, Option.map_eq_some_iff] at found
    obtain ⟨slot, here, rfl⟩ := found
    exact ⟨idx, slot, here, (marks idx slot here).mpr ⟨num, number, named⟩, same⟩

theorem step_removes_iff (opened : st.session.drop = some (.fresh userId tenantId msgs))
    {round : Round} {m : Message} (row : m ∈ round.db.messages) :
    m ∉ (step showSimple (run showSimple st rounds) round).2.2.messages ↔
      ((run showSimple st rounds).ending = none ∧ round.command = some .quit) ∧
        round.served = true ∧ m.tenantId = tenantId ∧ NamedMessage showSimple msgs st rounds m.id := by
  obtain ⟨md, drop, tenant, messages, marks⟩ := tracks showSimple opened rounds
  cases ending : (run showSimple st rounds).ending with
  | some ending' =>
    rw [step_closed ending]
    simp [row]
  | none =>
    cases cmd : round.command with
    | none =>
      rw [(step_other showSimple ending cmd).2.1]
      simp [row]
    | some cmd' =>
      obtain ⟨buf, answers, written, line, rfl⟩ := command_eq_some cmd
      by_cases quits : command buf = .quit
      · have served : round.served = answers.served := by rw [Round.served, line]
        rw [(step_quit ending line quits).2, drop, commitQuit_messages row, tenant, served, quits,
          marked_iff_named messages (marks ending)]
        simp
      · rw [step_line showSimple ending drop line quits]
        simp [row, quits]

theorem next_quit_iff (st : State) (round : Round) :
    (next showSimple st round).ending = some .quit ↔
      st.ending = some .quit ∨ (st.ending = none ∧ round.command = some .quit) := by
  cases ending : st.ending with
  | some ending' =>
    rw [next, step_closed ending, ending]
    simp
  | none =>
    simp only [reduceCtorEq, false_or, true_and]
    cases cmd : round.command with
    | none =>
      have other := (step_other showSimple ending cmd).2.2
      exact ⟨fun quits => absurd quits other, fun none => nomatch none⟩
    | some cmd' =>
      obtain ⟨buf, answers, written, line, rfl⟩ := command_eq_some cmd
      by_cases quits : command buf = .quit
      · rw [next, (step_quit ending line quits).1]
        simp [quits]
      · unfold next step
        rw [ending, line]
        simp only [quits, ↓reduceIte, Option.some.injEq, iff_false]
        cases written <;> simp

theorem ending_quit_iff (going : st.ending = none) (rounds : List Round) :
    (run showSimple st rounds).ending = some .quit ↔
      ∃ before round, Quits showSimple st rounds before round := by
  have since : (run showSimple st rounds).ending = some .quit ↔
      Since (next showSimple) (fun st round => st.ending = none ∧ round.command = some .quit)
        (fun _ => False) st rounds := by
    induction rounds using List.reverseRecOn with
    | nil => exact ⟨fun quits => (nomatch going.symm.trans quits), fun none => absurd none since_nil⟩
    | append_singleton rounds last ih =>
      rw [run_snoc, next_quit_iff, ih, since_snoc, not_false_eq_true, and_true, or_comm]
      rfl
  rw [since]
  constructor
  · rintro ⟨before, round, after, split, quits, _⟩
    exact ⟨before, round, ⟨after, split⟩, quits⟩
  · rintro ⟨before, round, ⟨after, split⟩, quits⟩
    exact ⟨before, round, after, split, quits, fun _ _ => not_false⟩

variable (showSimple) in
theorem session_semantics (opened : st.session.drop = some (.fresh userId tenantId msgs))
    (going : st.ending = none) (rounds : List Round) :
    (∃ md, (run showSimple st rounds).session.drop = some md ∧
      SameNumbers showSimple (.fresh userId tenantId msgs) md ∧ SameTotals showSimple md msgs) ∧
    ((run showSimple st rounds).ending = some .quit ↔
      ∃ before round, Quits showSimple st rounds before round) ∧
    ∀ m, Removed showSimple st rounds m ↔
      ∃ before round, Quits showSimple st rounds before round ∧ m ∈ round.db.messages ∧
        round.served = true ∧ m.tenantId = tenantId ∧
        NamedMessage showSimple msgs st before m.id := by
  obtain ⟨md, drop, _, messages, _⟩ := tracks showSimple opened rounds
  refine ⟨⟨md, drop, ?_, ?_⟩, ending_quit_iff going rounds, fun m => ?_⟩
  · have numbers := sameNumbers showSimple userId tenantId md
    rwa [messages] at numbers
  · have totals := sameTotals showSimple md
    rwa [messages] at totals
  · constructor
    · rintro ⟨before, round, after, split, row, gone⟩
      obtain ⟨quits, served, tenant, named⟩ := (step_removes_iff opened row).mp gone
      exact ⟨before, round, ⟨⟨after, split⟩, quits⟩, row, served, tenant, named⟩
    · rintro ⟨before, round, ⟨⟨after, split⟩, quits⟩, row, served, tenant, named⟩
      exact ⟨before, round, after, split, row,
        (step_removes_iff opened row).mpr ⟨quits, served, tenant, named⟩⟩

end

end

/-! ### One message, deleted -/

def oneRow : Message := ⟨3, 5, 2, 1, [], 15, "/m".toList, none, 0, 1, {}⟩

def oneMessage : Store :=
  ⟨⟨[⟨5, 1, 2, inbox, 1, 2, 1, 1, 15⟩], [oneRow], 2⟩, by decide⟩

def loggedIn : State := ⟨⟨none, some (.fresh 1 2 (loadInbox 1 2 oneMessage))⟩, none⟩

def typed (text : Str) (served : Bool) : Round :=
  ⟨.line (asBytes text) ⟨false, fun _ _ => none, served, fun _ => none⟩ true, oneMessage⟩

def deleFirst : Round := typed "DELE 1\r\n".toList true

/-- What the rounds of the sample are. -/
theorem sample_facts : deleFirst.command = some (.dele 1) ∧
    (∀ served, (typed "QUIT\r\n".toList served).command = some .quit) ∧
    (step (fun _ => []) loggedIn deleFirst).2.1 = ok (deletedText 1) ∧
    (loadInbox 1 2 oneMessage)[0]? = some ⟨3, 15, some "/m".toList⟩ ∧
    (run (fun _ => []) loggedIn [deleFirst]).ending = none ∧
    (run (fun _ => []) loggedIn [deleFirst, typed "QUIT\r\n".toList false]).ending = some .quit ∧
    oneRow ∈ oneMessage.messages := by
  decide

theorem deleFirst_names :
    NamedMessage (fun _ => []) (loadInbox 1 2 oneMessage) loggedIn [deleFirst] 3 := by
  obtain ⟨command, -, answered, inbox, -⟩ := sample_facts
  exact ⟨1, 0, _, rfl, ⟨[], deleFirst, [], rfl, ⟨command, answered⟩, by simp⟩, inbox, rfl⟩

theorem session_removes_first :
    Removed (fun _ => []) loggedIn [deleFirst, typed "QUIT\r\n".toList true] oneRow := by
  have opened : loggedIn.session.drop = some (.fresh 1 2 (loadInbox 1 2 oneMessage)) := rfl
  have rows := (session_semantics (fun _ => []) opened rfl
    [deleFirst, typed "QUIT\r\n".toList true]).2.2 oneRow
  obtain ⟨-, quit, -, -, open_, -, stored⟩ := sample_facts
  exact rows.mpr ⟨[deleFirst], typed "QUIT\r\n".toList true,
    ⟨⟨[], rfl⟩, open_, quit true⟩, stored, rfl, rfl, deleFirst_names⟩

/-- Where the statement of `QUIT` is not served, its row stays. -/
theorem refused_quit_removes_nothing :
    let rounds := [deleFirst, typed "QUIT\r\n".toList false]
    (run (fun _ => []) loggedIn rounds).ending = some .quit ∧
      NamedMessage (fun _ => []) (loadInbox 1 2 oneMessage) loggedIn [deleFirst] oneRow.id ∧
      ¬Removed (fun _ => []) loggedIn rounds oneRow := by
  obtain ⟨command, -, -, -, -, ended, -⟩ := sample_facts
  refine ⟨ended, deleFirst_names, ?_⟩
  intro ⟨before, round, after, split, row, gone⟩
  have opened : loggedIn.session.drop = some (.fresh 1 2 (loadInbox 1 2 oneMessage)) := rfl
  obtain ⟨⟨_, quits⟩, served, _⟩ := (step_removes_iff opened row).mp gone
  have member : round ∈ [deleFirst, typed "QUIT\r\n".toList false] := by
    rw [split]
    simp
  rcases List.mem_pair.mp member with rfl | rfl
  · rw [command] at quits
    cases quits
  · exact absurd served (by decide)

end Expresso.Pop3
