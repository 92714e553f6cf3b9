import Expresso.Pop3.Session
import Expresso.Imap.Expunge
import Expresso.Transition.Runs

/-! A maildrop over a whole session: what its numbers denote, its totals, and the rows that the
session removes. -/

namespace Expresso.Pop3
open Text Imap Transition

/-! ### Numbers -/

def Maildrop.messages (md : Maildrop) : List Pop3Message := md.slots.map (·.msg)

/-- The message that a number denotes. -/
def Maildrop.denoted (md : Maildrop) (num : UInt32) : Option Pop3Message :=
  ((md.live num).bind (md.slots[·]?)).map (·.msg)

section
variable {showSimple : Uuid → Str} {answers : Answers} {md : Maildrop}

theorem live_eq_some_iff {num : UInt32} {idx : Nat} :
    md.live num = some idx ↔
      num.toNat = idx + 1 ∧ ∃ slot, md.slots[idx]? = some slot ∧ slot.deleted = false := by
  unfold Maildrop.live
  by_cases zero : num.toNat = 0
  · simp [zero]
  · rw [if_neg zero]
    have back : ∀ i, num.toNat = i + 1 ↔ num.toNat - 1 = i := fun i => by omega
    rw [back]
    cases found : md.slots[num.toNat - 1]? with
    | none =>
      simp only [reduceCtorEq, false_iff, not_and]
      intro same
      rw [← same, found]
      simp
    | some slot =>
      cases marked : slot.deleted with
      | true =>
        simp only [marked, ↓reduceIte, reduceCtorEq, false_iff, not_and]
        intro same
        rw [← same, found]
        simp [marked]
      | false =>
        simp only [marked, Bool.false_eq_true, ↓reduceIte, Option.some.injEq]
        exact ⟨fun same => ⟨same, slot, by rw [← same, found], marked⟩, And.left⟩

theorem denoted_eq_some_iff {num : UInt32} {msg : Pop3Message} :
    md.denoted num = some msg ↔
      ∃ idx slot, num.toNat = idx + 1 ∧ md.slots[idx]? = some slot ∧ slot.deleted = false ∧
        slot.msg = msg := by
  simp only [Maildrop.denoted, Option.map_eq_some_iff, Option.bind_eq_some_iff, live_eq_some_iff]
  constructor
  · rintro ⟨slot, ⟨idx, ⟨number, slot', found, live⟩, same⟩, isMsg⟩
    rw [found] at same
    cases same
    exact ⟨idx, slot, number, found, live, isMsg⟩
  · rintro ⟨idx, slot, number, found, live, isMsg⟩
    exact ⟨slot, ⟨idx, ⟨number, slot, found, live⟩, found⟩, isMsg⟩

theorem fresh_messages (userId tenantId : Uuid) (msgs : List Pop3Message) :
    (Maildrop.fresh userId tenantId msgs).messages = msgs := by
  rw [Maildrop.messages, Maildrop.fresh, List.map_map]
  exact List.map_id msgs

theorem denoted_fresh (userId tenantId : Uuid) (msgs : List Pop3Message) {num : UInt32}
    {msg : Pop3Message} :
    (Maildrop.fresh userId tenantId msgs).denoted num = some msg ↔
      num.toNat ≠ 0 ∧ msgs[num.toNat - 1]? = some msg := by
  rw [denoted_eq_some_iff]
  simp only [Maildrop.fresh, List.getElem?_map, Option.map_eq_some_iff]
  constructor
  · rintro ⟨idx, slot, number, ⟨found, at', rfl⟩, _, rfl⟩
    exact ⟨by omega, by rw [number]; exact at'⟩
  · intro ⟨positive, found⟩
    exact ⟨num.toNat - 1, ⟨msg, false⟩, by omega, ⟨msg, found, rfl⟩, rfl, rfl⟩

/-- A number denotes what it did after the login, or nothing. -/
theorem denoted_same {userId tenantId : Uuid} {msgs : List Pop3Message} (same : md.messages = msgs)
    {num : UInt32} {msg : Pop3Message} (here : md.denoted num = some msg) :
    (Maildrop.fresh userId tenantId msgs).denoted num = some msg := by
  obtain ⟨idx, slot, number, found, _, isMsg⟩ := denoted_eq_some_iff.1 here
  rw [denoted_fresh]
  refine ⟨by omega, ?_⟩
  rw [number, ← same, Maildrop.messages, List.getElem?_map, Nat.add_sub_cancel, found, ← isMsg]
  rfl

/-- The replies about one message say nothing of the maildrop but the message. -/
def retrMessage (fetchBody : Str → Option Octets) (msg : Pop3Message) (topLines : Option UInt32) :
    Replies :=
  retr fetchBody (.fresh 0 0 [msg]) 1 topLines

theorem retr_eq (fetchBody : Str → Option Octets) (num : UInt32) (topLines : Option UInt32) :
    retr fetchBody md num topLines =
      (md.denoted num).elim (err "no such message".toList) fun msg =>
        retrMessage fetchBody msg topLines := by
  unfold Maildrop.denoted
  cases found : (md.live num).bind (md.slots[·]?) with
  | none =>
    unfold retr
    rw [found]
    rfl
  | some slot =>
    unfold retr
    rw [found]
    rfl

theorem list_eq (num : UInt32) (uidl : Bool) :
    list showSimple md (some num) uidl =
      (md.denoted num).elim (err "no such message".toList) fun msg =>
        ok (display num.toNat ++ ' ' :: scanValue showSimple ⟨msg, false⟩ uidl) := by
  unfold Maildrop.denoted
  cases found : (md.live num).bind (md.slots[·]?) with
  | none =>
    unfold list
    simp only [found]
    rfl
  | some slot =>
    unfold list
    simp only [found]
    rfl

end

/-- The replies about a number are those of the first maildrop, or that there is no such message. -/
def SameNumbers (showSimple : Uuid → Str) (first md : Maildrop) : Prop :=
  ∀ num : UInt32,
    (∀ msg, md.denoted num = some msg → first.denoted num = some msg) ∧
    (∀ fetchBody topLines, retr fetchBody md num topLines = retr fetchBody first num topLines ∨
      retr fetchBody md num topLines = err "no such message".toList) ∧
    ∀ uidl, list showSimple md (some num) uidl = list showSimple first (some num) uidl ∨
      list showSimple md (some num) uidl = err "no such message".toList

theorem sameNumbers (showSimple : Uuid → Str) (userId tenantId : Uuid) (md : Maildrop) :
    SameNumbers showSimple (.fresh userId tenantId md.messages) md := by
  intro num
  have same : ∀ msg, md.denoted num = some msg →
      (Maildrop.fresh userId tenantId md.messages).denoted num = some msg :=
    fun msg here => denoted_same rfl here
  refine ⟨same, fun fetchBody topLines => ?_, fun uidl => ?_⟩
  · rw [retr_eq, retr_eq]
    cases here : md.denoted num with
    | none => exact .inr rfl
    | some msg =>
      rw [same msg here]
      exact .inl rfl
  · rw [list_eq, list_eq]
    cases here : md.denoted num with
    | none => exact .inr rfl
    | some msg =>
      rw [same msg here]
      exact .inl rfl

/-! ### Totals -/

/-- The numbers and the sizes of a listing. -/
def scanRows : Nat → List Slot → List (Nat × Int)
  | _, [] => []
  | num, slot :: rest =>
      (if slot.deleted then [] else [(num, slot.msg.size)]) ++ scanRows (num + 1) rest

def scanLine (row : Nat × Int) : Octets :=
  asBytes (display row.1 ++ ' ' :: (display row.2 ++ "\r\n".toList))

theorem scanLines_eq (showSimple : Uuid → Str) (num : Nat) (slots : List Slot) :
    scanLines showSimple false num slots = (scanRows num slots).flatMap scanLine := by
  induction slots generalizing num with
  | nil => rfl
  | cons slot rest ih =>
    simp only [scanLines, scanRows, List.flatMap_append, ih]
    congr 1
    cases slot.deleted
    · simp [scanLine, scanValue]
    · rfl

theorem scanRows_snd (num : Nat) (slots : List Slot) :
    (scanRows num slots).map (·.2) = (slots.filter (!·.deleted)).map (·.msg.size) := by
  induction slots generalizing num with
  | nil => rfl
  | cons slot rest ih =>
    simp only [scanRows, List.map_append, ih]
    cases marked : slot.deleted <;> simp [marked]

theorem scanRows_length (num : Nat) (slots : List Slot) :
    (scanRows num slots).length = (slots.filter (!·.deleted)).length := by
  have sizes := congrArg List.length (scanRows_snd num slots)
  simpa using sizes

theorem mem_scanRows {num : Nat} {slots : List Slot} {row : Nat × Int}
    (member : row ∈ scanRows num slots) :
    num ≤ row.1 ∧ (slots[row.1 - num]?).map (·.msg.size) = some row.2 := by
  induction slots generalizing num with
  | nil => cases member
  | cons slot rest ih =>
    simp only [scanRows, List.mem_append] at member
    rcases member with here | later
    · cases marked : slot.deleted with
      | true => simp [marked] at here
      | false =>
        simp only [marked, Bool.false_eq_true, ↓reduceIte, List.mem_singleton] at here
        rw [here]
        simp
    · obtain ⟨beyond, found⟩ := ih later
      have index : row.1 - num = row.1 - (num + 1) + 1 := by omega
      rw [index, List.getElem?_cons_succ]
      exact ⟨by omega, found⟩

/-- `STAT` tells the number and the sum of the lines of `LIST`, each with the size of its message. -/
def SameTotals (showSimple : Uuid → Str) (md : Maildrop) (msgs : List Pop3Message) : Prop :=
  ∃ rows : List (Nat × Int),
    list showSimple md none false =
      [asBytes ("+OK ".toList ++ display rows.length ++ " messages\r\n".toList) ++
        rows.flatMap scanLine ++ asBytes ".\r\n".toList] ∧
    (∀ answers, (dispatchTxn answers showSimple md .stat).2 =
      ok (display rows.length ++ ' ' :: display (rows.map (·.2)).sum)) ∧
    ∀ row ∈ rows, 1 ≤ row.1 ∧ (msgs[row.1 - 1]?).map (·.size) = some row.2

theorem sameTotals (showSimple : Uuid → Str) (md : Maildrop) :
    SameTotals showSimple md md.messages := by
  refine ⟨scanRows 1 md.slots, ?_, fun answers => ?_, fun row member => ?_⟩
  · unfold list
    rw [scanLines_eq, scanRows_length]
    rfl
  · rw [scanRows_length, scanRows_snd]
    rfl
  · obtain ⟨positive, found⟩ := mem_scanRows member
    rw [Maildrop.messages, List.getElem?_map, Option.map_map]
    exact ⟨positive, found⟩

end Expresso.Pop3
