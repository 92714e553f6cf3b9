import Expresso.Imap.Sequence

/-! `STORE` as an operation on sets of flags. -/

namespace Expresso.Imap
open Text Sql

/-! ### Flags and their texts -/

/-- An atom of the protocol holds no backslash. -/
structure Atom where
  text : Str
  plain : '\\' ∉ text
  deriving DecidableEq

def systemTexts : List Str :=
  ["\\Seen".toList, "\\Answered".toList, "\\Flagged".toList, "\\Deleted".toList, "\\Draft".toList]

/-- A backslash before an atom, where that is no system flag. -/
structure FlagExtension where
  name : Atom
  other : '\\' :: name.text ∉ systemTexts
  deriving DecidableEq

inductive Flag where
  | seen | answered | flagged | deleted | draft
  | keyword (name : Atom)
  | extension (name : FlagExtension)
  deriving DecidableEq

/-- What the protocol calls a flag. -/
def Flag.text : Flag → Str
  | .seen => "\\Seen".toList
  | .answered => "\\Answered".toList
  | .flagged => "\\Flagged".toList
  | .deleted => "\\Deleted".toList
  | .draft => "\\Draft".toList
  | .keyword name => name.text
  | .extension ext => '\\' :: ext.name.text

def flagToStr : Flag → Str
  | .seen => "\\Seen".toList
  | .answered => "\\Answered".toList
  | .flagged => "\\Flagged".toList
  | .deleted => "\\Deleted".toList
  | .draft => "\\Draft".toList
  | _ => "\\Seen".toList

def parseFlag (s : Str) : Option Flag :=
  if s = "\\Seen".toList then some .seen
  else if s = "\\Answered".toList then some .answered
  else if s = "\\Flagged".toList then some .flagged
  else if s = "\\Deleted".toList then some .deleted
  else if s = "\\Draft".toList then some .draft
  else none

def Flag.IsSystem : Flag → Prop
  | .keyword _ => False
  | .extension _ => False
  | _ => True

instance : DecidablePred Flag.IsSystem
  | .keyword _ => .isFalse id
  | .extension _ => .isFalse id
  | .seen | .answered | .flagged | .deleted | .draft => .isTrue trivial

theorem flagToStr_system {f : Flag} (system : f.IsSystem) : flagToStr f = f.text := by
  cases f with
  | keyword name => exact system.elim
  | extension name => exact system.elim
  | _ => rfl

theorem flagToStr_other {f : Flag} (other : ¬f.IsSystem) : flagToStr f = Flag.seen.text := by
  cases f with
  | keyword name => rfl
  | extension name => rfl
  | _ => exact absurd trivial other

theorem flagToStr_mem (f : Flag) : flagToStr f ∈ systemTexts := by
  cases f with
  | keyword name => exact List.mem_cons_self
  | extension name => exact List.mem_cons_self
  | _ => decide

/-- The text of a flag is that of a system flag for the system flags alone. -/
theorem text_mem_iff (f : Flag) : f.text ∈ systemTexts ↔ f.IsSystem := by
  cases f with
  | keyword name =>
    refine iff_of_false (fun member => ?_) id
    have starts : ∀ text ∈ systemTexts, '\\' ∈ text := by decide
    exact name.plain (starts name.text member)
  | extension ext => exact iff_of_false ext.other id
  | seen => exact iff_of_true (by decide) trivial
  | answered => exact iff_of_true (by decide) trivial
  | flagged => exact iff_of_true (by decide) trivial
  | deleted => exact iff_of_true (by decide) trivial
  | draft => exact iff_of_true (by decide) trivial

/-- The text that is stored is read back as the flag, for the system flags alone. -/
theorem parseFlag_flagToStr_iff (f : Flag) : parseFlag (flagToStr f) = some f ↔ f.IsSystem := by
  cases f with
  | keyword name =>
    exact iff_of_false (fun same : some Flag.seen = some (.keyword name) => nomatch same) id
  | extension name =>
    exact iff_of_false (fun same : some Flag.seen = some (.extension name) => nomatch same) id
  | _ => exact iff_of_true (by decide) trivial

theorem text_injective {f g : Flag} (system : f.IsSystem) (same : g.text = f.text) : g = f := by
  have other : g.IsSystem := (text_mem_iff g).mp (same ▸ (text_mem_iff f).mpr system)
  have read := (parseFlag_flagToStr_iff g).mpr other
  rw [flagToStr_system other, same, ← flagToStr_system system,
    (parseFlag_flagToStr_iff f).mpr system] at read
  exact (Option.some.inj read).symm

/-! ### Sets of flags -/

/-- The set that is stored is the one that the command asks for, each flag once. -/
def Stored (kind : StoreType) (flags : List Flag) (old new : List Str) : Prop :=
  new.Nodup ∧ ∀ text, text ∈ new ↔
    match kind with
    | .replace => text ∈ flags.map Flag.text
    | .add => text ∈ old ∨ text ∈ flags.map Flag.text
    | .remove => text ∈ old ∧ text ∉ flags.map Flag.text

section
variable {flags : List Flag}

theorem map_flagToStr_system (system : ∀ f ∈ flags, f.IsSystem) :
    flags.map flagToStr = flags.map Flag.text :=
  List.map_congr_left fun f member => flagToStr_system (system f member)

theorem nodup_map_flagToStr (system : ∀ f ∈ flags, f.IsSystem) (nodup : flags.Nodup) :
    (flags.map flagToStr).Nodup := by
  rw [map_flagToStr_system system]
  exact nodup.map_on fun g _ f member same => text_injective (system f member) same

/-- A flag that is no system flag is stored as `\Seen`, which then is not given beside it. -/
theorem system_of_nodup (nodup : (flags.map flagToStr).Nodup)
    (given : ∀ c ∈ flags.map flagToStr, c ∈ flags.map Flag.text) : ∀ f ∈ flags, f.IsSystem := by
  intro f member
  by_contra other
  have written : Flag.seen.text ∈ flags.map flagToStr :=
    flagToStr_other other ▸ List.mem_map_of_mem member
  obtain ⟨g, among, spelt⟩ := List.mem_map.mp (given _ written)
  have seen : g = .seen := text_injective trivial spelt
  subst seen
  have same := List.inj_on_of_nodup_map nodup member among ((flagToStr_other other).trans rfl)
  exact other (same ▸ trivial)

theorem stored_replace_iff (old : List Str) :
    Stored .replace flags old (storeFlags .replace (flags.map flagToStr) old) ↔
      flags.Nodup ∧ ∀ f ∈ flags, f.IsSystem := by
  unfold Stored storeFlags
  constructor
  · rintro ⟨nodup, same⟩
    exact ⟨nodup.of_map, system_of_nodup nodup fun c member => (same c).mp member⟩
  · rintro ⟨nodup, system⟩
    refine ⟨nodup_map_flagToStr system nodup, fun text => ?_⟩
    rw [map_flagToStr_system system]

theorem stored_add_iff (old : List Str) :
    Stored .add flags old (storeFlags .add (flags.map flagToStr) old) ↔
      old.Nodup ∧ flags.Nodup ∧ (∀ f ∈ flags, f.IsSystem) ∧ ∀ f ∈ flags, f.text ∉ old := by
  unfold Stored storeFlags
  dsimp only
  rw [List.nodup_append']
  constructor
  · rintro ⟨⟨once, nodup, apart⟩, same⟩
    have given : ∀ c ∈ flags.map flagToStr, c ∈ flags.map Flag.text := fun c member =>
      ((same c).mp (List.mem_append_right old member)).resolve_left fun held => apart held member
    have system := system_of_nodup nodup given
    refine ⟨once, nodup.of_map, system, fun f member held => apart held ?_⟩
    rw [map_flagToStr_system system]
    exact List.mem_map_of_mem member
  · rintro ⟨once, nodup, system, fresh⟩
    refine ⟨⟨once, nodup_map_flagToStr system nodup, fun c held member => ?_⟩, fun text => ?_⟩
    · rw [map_flagToStr_system system] at member
      obtain ⟨f, among, rfl⟩ := List.mem_map.mp member
      exact fresh f among held
    · rw [map_flagToStr_system system, List.mem_append]

/-- What is written for the given flags names the same of the stored flags as these do. -/
theorem named_iff (old : List Str) :
    (∀ text ∈ old, text ∈ flags.map flagToStr ↔ text ∈ flags.map Flag.text) ↔
      ∀ f ∈ flags, f.IsSystem ∨ f.text ∉ old ∧ (Flag.seen.text ∈ old → Flag.seen ∈ flags) := by
  constructor
  · intro same f member
    by_cases system : f.IsSystem
    · exact .inl system
    refine .inr ⟨fun held => ?_, fun held => ?_⟩
    · obtain ⟨g, -, spelt⟩ :=
        List.mem_map.mp ((same _ held).mpr (List.mem_map_of_mem member))
      exact system ((text_mem_iff f).mp (spelt ▸ flagToStr_mem g))
    · have written : Flag.seen.text ∈ flags.map flagToStr :=
        flagToStr_other system ▸ List.mem_map_of_mem member
      obtain ⟨g, among, spelt⟩ := List.mem_map.mp ((same _ held).mp written)
      have seen : g = .seen := text_injective trivial spelt
      exact seen ▸ among
  · intro each text held
    constructor
    · intro written
      obtain ⟨f, member, spelt⟩ := List.mem_map.mp written
      by_cases system : f.IsSystem
      · rw [flagToStr_system system] at spelt
        exact spelt ▸ List.mem_map_of_mem member
      · rw [flagToStr_other system] at spelt
        have given := ((each f member).resolve_left system).2 (spelt ▸ held)
        exact spelt ▸ List.mem_map_of_mem given
    · intro given
      obtain ⟨f, member, spelt⟩ := List.mem_map.mp given
      by_cases system : f.IsSystem
      · exact spelt ▸ flagToStr_system system ▸ List.mem_map_of_mem member
      · exact absurd (spelt ▸ held) ((each f member).resolve_left system).1

theorem stored_remove_iff (old : List Str) :
    Stored .remove flags old (storeFlags .remove (flags.map flagToStr) old) ↔
      (old.filter (· ∉ flags.map flagToStr)).Nodup ∧
        ∀ f ∈ flags, f.IsSystem ∨ f.text ∉ old ∧ (Flag.seen.text ∈ old → Flag.seen ∈ flags) := by
  have spelt : storeFlags .remove (flags.map flagToStr) old =
      old.filter (· ∉ flags.map flagToStr) := by
    unfold storeFlags
    exact List.filter_congr fun c _ => by rw [List.contains_eq_mem, decide_not]
  rw [Stored, spelt, ← named_iff]
  apply and_congr Iff.rfl
  simp only [List.mem_filter, decide_eq_true_eq]
  constructor
  · intro same text held
    have iff := same text
    simp only [held, true_and] at iff
    exact not_iff_not.mp iff
  · intro same text
    exact and_congr_right fun held => not_congr (same text held)

/-- Where nothing is written. -/
theorem stored_remove_unchanged_iff (old : List Str) : Stored .remove flags old old ↔
    old.Nodup ∧ ∀ f ∈ flags, f.text ∉ old := by
  unfold Stored
  apply and_congr Iff.rfl
  constructor
  · intro same f member held
    exact ((same f.text).mp held).2 (List.mem_map_of_mem member)
  · intro absent text
    refine ⟨fun held => ⟨held, fun given => ?_⟩, And.left⟩
    obtain ⟨f, member, rfl⟩ := List.mem_map.mp given
    exact absent f member held

end

/-! ### The rows of the table -/

section
variable {s s' : Store} {change : Message → Option Message}

/-- A change of what is neither key nor mailbox keeps the constraints. -/
theorem updateMessages_isSome
    (same : ∀ m m', change m = some m' → identity m' = identity m) :
    (updateMessages change s).isSome := by
  obtain ⟨mailboxIds, folders, ids, uids, references, counts, small⟩ := s.constraints
  have rows := changeRows_identity same s.modseq s.messages
  have column {β : Type} (f : Uuid × Uuid × Uuid × Int × Int → β) :
      (changeRows change s.modseq s.messages).map (fun m => f (identity m)) =
        s.messages.map fun m => f (identity m) := by
    have through := congrArg (List.map f) rows
    rwa [List.map_map, List.map_map] at through
  rw [updateMessages, commit, dif_pos]
  · rfl
  rw [messagesSyncMailboxStats_eq]
  have known {β : Type} (f : Mailbox → β) (targets : List Uuid)
      (kept : ∀ mb, f (refreshed (changeRows change s.modseq s.messages) mb) = f mb) :
      (s.mailboxes.map fun mb => if mb.id ∈ targets then
        refreshed (changeRows change s.modseq s.messages) mb else mb).map f = s.mailboxes.map f := by
    rw [List.map_map]
    apply List.map_congr_left
    intro mb _
    rw [Function.comp_apply]
    split
    · exact kept mb
    · rfl
  refine ⟨?_, ?_, ?_, ?_, ?_, ?_, ?_⟩
  · rwa [known _ _ fun _ => rfl]
  · rwa [known (fun mb => (mb.userId, mb.folderName)) _ fun _ => rfl]
  · exact (column (·.1)).symm ▸ ids
  · exact (column fun row => (row.2.1, row.2.2.2.1)).symm ▸ uids
  · rw [known _ _ fun _ => rfl]
    have among : ∀ id ∈ s.messages.map (·.mailboxId), id ∈ s.mailboxes.map (·.id) :=
      List.forall_mem_map.mpr references
    exact List.forall_mem_map.mp ((column (·.2.1)).symm ▸ among)
  · have each : ∀ id ∈ s.mailboxes.map (·.id),
        (s.messages.filter fun m => m.mailboxId = id).length < 2 ^ 31 :=
      List.forall_mem_map.mpr counts
    rw [← known (·.id) _ fun _ => rfl] at each
    intro mb member
    have count (ms : List Message) : (ms.filter fun m => m.mailboxId = mb.id).length =
        ((ms.map (·.mailboxId)).filter (· = mb.id)).length := by
      rw [List.filter_map, List.length_map]
      rfl
    have here := each mb.id (List.mem_map_of_mem member)
    rw [count] at here ⊢
    exact (column (·.2.1)).symm ▸ here
  · have each : ∀ uid ∈ (changeRows change s.modseq s.messages).map (·.uid), uid < 2 ^ 63 - 1 :=
      (column (·.2.2.2.1)).symm ▸ List.forall_mem_map.mpr small
    intro m member
    exact each m.uid (List.mem_map_of_mem member)

end

theorem changeRows_map {β : Type} {f : Message → β}
    (blind : ∀ m modseq, f { m with modSequence := modseq } = f m)
    (change : Message → Option Message) (modseq : Int) (rows : List Message) :
    (changeRows change modseq rows).map f = rows.map fun m => f ((change m).getD m) := by
  induction rows generalizing modseq with
  | nil => rfl
  | cons m rest ih =>
    rw [changeRows, List.map_cons]
    cases result : change m with
    | none => exact congrArg (f m :: ·) (ih modseq)
    | some m' =>
      rw [List.map_cons, blind, ih]
      rfl

/-- The `UPDATE` is refused: a row that is to lose flags would keep none. -/
def RefusesLast (kind : StoreType) (codes : List Str) (selected : Message → Bool) (s : Store) :
    Prop :=
  kind = .remove ∧ ∃ m ∈ s.messages, selected m = true ∧ ∀ c ∈ m.flags, c ∈ codes

theorem refusesLast_iff (kind : StoreType) (codes : List Str) (selected : Message → Bool)
    (s : Store) : (kind = .remove ∧
      (s.messages.any fun m => selected m && (storeFlags kind codes m.flags).isEmpty) = true) ↔
        RefusesLast kind codes selected s := by
  apply and_congr_right
  rintro rfl
  rw [List.any_eq_true]
  apply exists_congr
  intro m
  apply and_congr_right
  intro _
  rw [Bool.and_eq_true, List.isEmpty_iff, storeFlags, List.filter_eq_nil_iff]
  simp

/-- The flags of a row after the command. -/
def flagsAfter (kind : StoreType) (codes : List Str) (selected : Message → Bool) (m : Message) :
    List Str :=
  if selected m then storeFlags kind codes m.flags else m.flags

/-- An update that is not refused sets the flags of the rows it selects, and nothing else. -/
theorem storeMessages_flags {kind : StoreType} {codes : List Str} {selected : Message → Bool}
    {s : Store} (accepted : ¬RefusesLast kind codes selected s) :
    ((storeMessages kind codes selected s).getD s).messages.map (fun m => (identity m, m.flags)) =
      s.messages.map fun m => (identity m, flagsAfter kind codes selected m) := by
  have same : ∀ m m', (if selected m then
      some { m with flags := storeFlags kind codes m.flags } else none) = some m' →
        identity m' = identity m := by
    intro m m' changedTo
    split at changedTo
    · cases changedTo
      rfl
    · cases changedTo
  obtain ⟨s', updated⟩ := Option.isSome_iff_exists.mp (updateMessages_isSome (s := s) same)
  have stored : storeMessages kind codes selected s = some s' := by
    rw [storeMessages, if_neg (mt (refusesLast_iff kind codes selected s).mp accepted), updated]
  have rows := congrArg Tables.messages (commit_some updated)
  rw [messagesSyncMailboxStats_eq] at rows
  rw [stored, Option.getD_some, rows, changeRows_map (fun _ _ => rfl)]
  apply List.map_congr_left
  intro m _
  unfold flagsAfter
  split <;> rfl

theorem storeMessages_refused {kind : StoreType} {codes : List Str} {selected : Message → Bool}
    {s : Store} (refused : RefusesLast kind codes selected s) :
    storeMessages kind codes selected s = none :=
  if_pos ((refusesLast_iff kind codes selected s).mpr refused)

/-! ### The command -/

/-- Every selected row has the set that is asked for, and every other row the flags it had. -/
def Applied (kind : StoreType) (flags : List Flag) (selected : Message → Bool) (s s' : Store) :
    Prop :=
  ∀ m ∈ s.messages, ∃ m' ∈ s'.messages, m'.id = m.id ∧
    if selected m then Stored kind flags m.flags m'.flags else m'.flags = m.flags

/-- The list that is written to a row is the set that is asked for. -/
def Fits (kind : StoreType) (flags : List Flag) (old : List Str) : Prop :=
  match kind with
  | .replace => flags.Nodup ∧ ∀ f ∈ flags, f.IsSystem
  | .add => old.Nodup ∧ flags.Nodup ∧ (∀ f ∈ flags, f.IsSystem) ∧ ∀ f ∈ flags, f.text ∉ old
  | .remove => (old.filter (· ∉ flags.map flagToStr)).Nodup ∧
      ∀ f ∈ flags, f.IsSystem ∨ f.text ∉ old ∧ (Flag.seen.text ∈ old → Flag.seen ∈ flags)

theorem stored_iff (kind : StoreType) (flags : List Flag) (old : List Str) :
    Stored kind flags old (storeFlags kind (flags.map flagToStr) old) ↔ Fits kind flags old := by
  cases kind with
  | add => exact stored_add_iff old
  | remove => exact stored_remove_iff old
  | replace => exact stored_replace_iff old

theorem applied_iff {kind : StoreType} {flags : List Flag} {selected : Message → Bool}
    {s s' : Store} {written : Message → List Str}
    (rows : s'.messages.map (fun m => (identity m, m.flags)) =
      s.messages.map fun m => (identity m, if selected m then written m else m.flags)) :
    Applied kind flags selected s s' ↔
      ∀ m ∈ s.messages, selected m = true → Stored kind flags m.flags (written m) := by
  have only : ∀ m ∈ s.messages, ∀ m' ∈ s'.messages, m'.id = m.id →
      m'.flags = if selected m then written m else m.flags := by
    intro m member m' member' same
    have among : (identity m', m'.flags) ∈
        s'.messages.map fun m => (identity m, m.flags) := List.mem_map_of_mem member'
    rw [rows] at among
    obtain ⟨m'', member'', pair⟩ := List.mem_map.mp among
    obtain ⟨ident, flags'⟩ := Prod.mk.inj pair
    have ids : m''.id = m.id := (congrArg Prod.fst ident).trans same
    have one : m'' = m := List.inj_on_of_nodup_map s.constraints.2.2.1 member'' member ids
    exact (one ▸ flags').symm
  constructor
  · intro applied m member chosen
    obtain ⟨m', member', same, stored⟩ := applied m member
    have value := only m member m' member' same
    rw [if_pos chosen] at stored value
    exact value ▸ stored
  · intro each m member
    have among : (identity m, if selected m then written m else m.flags) ∈
        s.messages.map fun m => (identity m, if selected m then written m else m.flags) :=
      List.mem_map_of_mem (f := fun m => (identity m, if selected m then written m else m.flags))
        member
    rw [← rows] at among
    obtain ⟨m', member', pair⟩ := List.mem_map.mp among
    obtain ⟨ident, value⟩ := Prod.mk.inj pair
    refine ⟨m', member', congrArg Prod.fst ident, ?_⟩
    cases chosen : selected m with
    | true =>
      rw [if_pos rfl, value, if_pos chosen]
      exact each m member chosen
    | false =>
      rw [if_neg (by decide), value, if_neg (by simp [chosen])]

/-- What is asked for is done, just where the list that is written is right, or the update is
refused and has nothing to do. -/
theorem storeMessages_applied_iff (kind : StoreType) (flags : List Flag)
    (selected : Message → Bool) (s : Store) :
    Applied kind flags selected s
        ((storeMessages kind (flags.map flagToStr) selected s).getD s) ↔
      (¬RefusesLast kind (flags.map flagToStr) selected s →
        ∀ m ∈ s.messages, selected m = true → Fits kind flags m.flags) ∧
      (RefusesLast kind (flags.map flagToStr) selected s →
        ∀ m ∈ s.messages, selected m = true → m.flags.Nodup ∧ ∀ f ∈ flags, f.text ∉ m.flags) := by
  by_cases refused : RefusesLast kind (flags.map flagToStr) selected s
  · have unchanged : s.messages.map (fun m => (identity m, m.flags)) =
        s.messages.map fun m => (identity m, if selected m then m.flags else m.flags) :=
      List.map_congr_left fun m _ => by rw [ite_self]
    rw [storeMessages_refused refused, Option.getD_none, applied_iff unchanged]
    simp only [refused, not_true, false_implies, true_and, true_implies]
    rw [refused.1]
    exact forall₃_congr fun m _ _ => stored_remove_unchanged_iff m.flags
  · rw [applied_iff (storeMessages_flags refused)]
    simp only [refused, not_false_iff, true_implies, false_implies, and_true]
    exact forall₃_congr fun m _ _ => stored_iff kind flags m.flags

/-- The rows a command selects are told by what `STORE` leaves alone, before and after it. -/
theorem storeSelects_identity (set : SequenceSet) (uid : Bool) {sel sel' : SelectedMailbox}
    (tenantId : Uuid) {s s' : Store}
    (rows : s'.messages.map identity = s.messages.map identity)
    (mailbox : sel'.mailboxId = sel.mailboxId) (existing : sel'.existing = sel.existing) :
    ∃ chosen : Uuid × Uuid × Uuid × Int × Int → Bool,
      (∀ m, storeSelects set uid sel tenantId s m = chosen (identity m)) ∧
        ∀ m, storeSelects set uid sel' tenantId s' m = chosen (identity m) := by
  cases uid with
  | true =>
    refine ⟨fun row => row.2.1 = sel.mailboxId && row.2.2.1 = tenantId &&
      (sequenceRanges set u32Max).any fun range =>
        (range.1 : Int) ≤ row.2.2.2.1 && row.2.2.2.1 ≤ (range.2 : Int), fun m => rfl, fun m => ?_⟩
    rw [storeSelects, if_pos rfl, mailbox]
    rfl
  | false =>
    let numbered (rows : List (Uuid × Uuid × Uuid × Int × Int)) : List Uuid :=
      ((rowNumbered rows).filter fun row =>
        seqClause (sequenceRanges set sel.existing) row.2).map (·.1.1)
    have ids (t : Store) : (numberedRows set false sel tenantId (fun _ => true) t).map (·.1.id) =
        numbered ((mailboxRows sel.mailboxId tenantId t).map identity) := by
      rw [numberedRows_seq, List.filter_true]
      change _ = ((((mailboxRows sel.mailboxId tenantId t).map identity).zipIdx 1).filter fun row =>
        seqClause (sequenceRanges set sel.existing) row.2).map (·.1.1)
      rw [List.zipIdx_map, List.filter_map, List.map_map]
      rfl
    refine ⟨fun row => (numbered ((mailboxRows sel.mailboxId tenantId s).map identity)).contains
      row.1, fun m => ?_, fun m => ?_⟩
    · rw [storeSelects, if_neg (by decide), ids]
      rfl
    · have same : numberedRows set false sel' tenantId (fun _ => true) s' =
          numberedRows set false sel tenantId (fun _ => true) s' := by
        rw [numberedRows_seq, numberedRows_seq, mailbox, existing]
      rw [storeSelects, if_neg (by decide), same, ids, mailboxRows_identity _ _ rows]
      rfl

/-- What the command can read and write of the rows. -/
def rowsOf (s : Store) : List ((Uuid × Uuid × Uuid × Int × Int) × List Str) :=
  s.messages.map fun m => (identity m, m.flags)

section
variable (kind : StoreType) (codes : List Str)
  (chosen : Uuid × Uuid × Uuid × Int × Int → Bool)

def writeRow (row : (Uuid × Uuid × Uuid × Int × Int) × List Str) :
    (Uuid × Uuid × Uuid × Int × Int) × List Str :=
  (row.1, if chosen row.1 then storeFlags kind codes row.2 else row.2)

theorem rowsOf_storeMessages {selected : Message → Bool} {s : Store}
    (told : ∀ m, selected m = chosen (identity m)) (accepted : ¬RefusesLast kind codes selected s) :
    rowsOf ((storeMessages kind codes selected s).getD s) =
      (rowsOf s).map (writeRow kind codes chosen) := by
  rw [rowsOf, storeMessages_flags accepted, rowsOf, List.map_map]
  apply List.map_congr_left
  intro m _
  rw [Function.comp_apply, writeRow, flagsAfter, told]

theorem refusesLast_rowsOf_iff {selected : Message → Bool} {s : Store}
    (told : ∀ m, selected m = chosen (identity m)) : RefusesLast kind codes selected s ↔
      kind = .remove ∧ ∃ row ∈ rowsOf s, chosen row.1 = true ∧ ∀ c ∈ row.2, c ∈ codes := by
  unfold RefusesLast rowsOf
  simp only [List.mem_map, exists_exists_and_eq_and, told]

/-- Removing flags a second time removes nothing, and a row that kept a flag keeps it. -/
theorem writeRow_twice_iff (row : (Uuid × Uuid × Uuid × Int × Int) × List Str) :
    writeRow kind codes chosen (writeRow kind codes chosen row) = writeRow kind codes chosen row ↔
      (kind = .add → codes = [] ∨ chosen row.1 = false) := by
  unfold writeRow
  cases here : chosen row.1 with
  | false => simp
  | true =>
    cases kind with
    | add => simp [storeFlags]
    | remove => simp [storeFlags, List.filter_filter]
    | replace => simp [storeFlags]

end

section
variable {Item : Type} (set : SequenceSet) (kind : StoreType) (answer : Bool) (flags : List Flag)
  (uid : Bool) (flagsItem : List Str → Item) (sel : SelectedMailbox) (tenantId : Uuid) (s : Store)

/-- `STORE` with the flags of the command. -/
def storeCommand : Store × SelectedMailbox × List (Response Item) :=
  cmdStore set kind answer (flags.map flagToStr) uid flagsItem sel tenantId s

def storeTwice : Store × SelectedMailbox × List (Response Item) :=
  let first := storeCommand set kind answer flags uid flagsItem sel tenantId s
  storeCommand set kind answer flags uid flagsItem first.2.1 tenantId first.1

theorem storeCommand_writable (writable : sel.readOnly = false) :
    (storeCommand set kind answer flags uid flagsItem sel tenantId s).1 =
        (storeMessages kind (flags.map flagToStr) (storeSelects set uid sel tenantId s) s).getD s ∧
      (∃ snapshot, (storeCommand set kind answer flags uid flagsItem sel tenantId s).2.1 =
        { sel with flagsSnapshot := snapshot }) ∧
      ∃ code text, .ok code text ∈
        (storeCommand set kind answer flags uid flagsItem sel tenantId s).2.2 := by
  unfold storeCommand cmdStore
  rw [writable]
  exact ⟨rfl, ⟨_, rfl⟩, none, _, List.mem_append_right _ List.mem_cons_self⟩

/-- A command that is sent again finds its flags there, unless it adds them. -/
theorem storeTwice_iff :
    rowsOf (storeTwice set kind answer flags uid flagsItem sel tenantId s).1 =
        rowsOf (storeCommand set kind answer flags uid flagsItem sel tenantId s).1 ↔
      (kind = .add → sel.readOnly = true ∨ flags = [] ∨
        ∀ m ∈ s.messages, storeSelects set uid sel tenantId s m = false) := by
  cases readOnly : sel.readOnly with
  | true =>
    refine iff_of_true ?_ fun _ => .inl rfl
    simp only [storeTwice, storeCommand, cmdStore, readOnly, if_true]
  | false =>
    obtain ⟨first, ⟨snapshot, after⟩, -⟩ :=
      storeCommand_writable set kind answer flags uid flagsItem sel tenantId s readOnly
    have again := (storeCommand_writable set kind answer flags uid flagsItem
      { sel with flagsSnapshot := snapshot } tenantId
      (storeCommand set kind answer flags uid flagsItem sel tenantId s).1 readOnly).1
    have second : (storeTwice set kind answer flags uid flagsItem sel tenantId s).1 =
        (storeCommand set kind answer flags uid flagsItem { sel with flagsSnapshot := snapshot }
          tenantId (storeCommand set kind answer flags uid flagsItem sel tenantId s).1).1 := by
      rw [← after]
      rfl
    rw [second, again, first]
    generalize codes_ : flags.map flagToStr = codes
    have none_ : flags = [] ↔ codes = [] := by rw [← codes_, List.map_eq_nil_iff]
    rw [none_]
    by_cases refused : RefusesLast kind codes (storeSelects set uid sel tenantId s) s
    · rw [storeMessages_refused refused, Option.getD_none]
      have same : storeSelects set uid { sel with flagsSnapshot := snapshot } tenantId s =
          storeSelects set uid sel tenantId s := rfl
      rw [same, storeMessages_refused refused, Option.getD_none]
      exact iff_of_true rfl fun adds => by cases refused.1.symm.trans adds
    · have written := storeMessages_flags refused
      have rows : ((storeMessages kind codes (storeSelects set uid sel tenantId s) s).getD
          s).messages.map identity = s.messages.map identity := by
        have firsts := congrArg (List.map Prod.fst) written
        rwa [List.map_map, List.map_map] at firsts
      obtain ⟨chosen, before, later⟩ := @storeSelects_identity set uid sel
        { sel with flagsSnapshot := snapshot } tenantId _ _ rows rfl rfl
      have once := rowsOf_storeMessages kind codes chosen before refused
      have still : ¬RefusesLast kind codes (storeSelects set uid { sel with flagsSnapshot := snapshot }
          tenantId ((storeMessages kind codes (storeSelects set uid sel tenantId s) s).getD s))
          ((storeMessages kind codes (storeSelects set uid sel tenantId s) s).getD s) := by
        rw [refusesLast_rowsOf_iff kind codes chosen later, once]
        rintro ⟨rfl, row', member', picked, gone⟩
        obtain ⟨row, member, rfl⟩ := List.mem_map.mp member'
        apply refused
        rw [refusesLast_rowsOf_iff .remove codes chosen before]
        have picked' : chosen row.1 = true := picked
        refine ⟨rfl, row, member, picked', fun c held => ?_⟩
        by_contra kept
        apply kept
        apply gone
        rw [writeRow, if_pos picked']
        exact List.mem_filter.mpr ⟨held, by simpa using kept⟩
      rw [rowsOf_storeMessages kind codes chosen later still, once, List.map_map,
        List.map_inj_left]
      simp only [Function.comp_apply, writeRow_twice_iff, rowsOf, List.forall_mem_map, ← before]
      constructor
      · intro each adds
        by_cases empty : codes = []
        · exact .inr (.inl empty)
        · exact .inr (.inr fun m member => (each m member adds).resolve_left empty)
      · intro whole m member adds
        rcases whole adds with writable | empty | none_
        · exact absurd writable (by decide)
        · exact .inl empty
        · exact .inr (none_ m member)

/-- A `STORE` that is answered with `OK` has done what it says, and does nothing more when it is
repeated: the exact conditions. -/
theorem store_sets_iff :
    (((∃ code text, .ok code text ∈
          (storeCommand set kind answer flags uid flagsItem sel tenantId s).2.2) →
        Applied kind flags (storeSelects set uid sel tenantId s) s
          (storeCommand set kind answer flags uid flagsItem sel tenantId s).1) ↔
      (sel.readOnly = false →
        (¬RefusesLast kind (flags.map flagToStr) (storeSelects set uid sel tenantId s) s →
          ∀ m ∈ s.messages, storeSelects set uid sel tenantId s m = true →
            Fits kind flags m.flags) ∧
        (RefusesLast kind (flags.map flagToStr) (storeSelects set uid sel tenantId s) s →
          ∀ m ∈ s.messages, storeSelects set uid sel tenantId s m = true →
            m.flags.Nodup ∧ ∀ f ∈ flags, f.text ∉ m.flags))) ∧
    (rowsOf (storeTwice set kind answer flags uid flagsItem sel tenantId s).1 =
        rowsOf (storeCommand set kind answer flags uid flagsItem sel tenantId s).1 ↔
      (kind = .add → sel.readOnly = true ∨ flags = [] ∨
        ∀ m ∈ s.messages, storeSelects set uid sel tenantId s m = false)) := by
  refine ⟨?_, storeTwice_iff set kind answer flags uid flagsItem sel tenantId s⟩
  cases readOnly : sel.readOnly with
  | true =>
    refine iff_of_true ?_ fun writable => nomatch writable
    rintro ⟨code, text, member⟩
    simp [storeCommand, cmdStore, readOnly] at member
  | false =>
    obtain ⟨tables, -, ok⟩ :=
      storeCommand_writable set kind answer flags uid flagsItem sel tenantId s readOnly
    rw [tables, ← storeMessages_applied_iff]
    exact ⟨fun applied _ => applied ok, fun applied _ => applied rfl⟩

end

def projectFlag : Flag := .keyword ⟨"Project".toList, by decide⟩

/-- The command on the first of two messages. -/
def storeFirst (kind : StoreType) (flag : Flag) (s : Store) :
    Store × SelectedMailbox × List (Response (List Str)) :=
  storeCommand [.single (.value 1)] kind false [flag] false (fun flags => flags) selectedOfTwo 1 s

/-- A keyword is stored as `\Seen`, a second `+FLAGS` stores its flag twice, and the last flag of a
message is not taken away, with the answer `OK`. -/
theorem store_misses_sets :
    (¬Applied .add [projectFlag]
        (storeSelects [.single (.value 1)] false selectedOfTwo 1 inboxOfTwo) inboxOfTwo
        (storeFirst .add projectFlag inboxOfTwo).1 ∧
      (rowsOf (storeFirst .add projectFlag inboxOfTwo).1).map (·.2) = [["\\Seen".toList], []]) ∧
    (rowsOf (storeFirst .add .draft (storeFirst .add .draft inboxOfTwo).1).1).map (·.2) =
        [["\\Draft".toList, "\\Draft".toList], []] ∧
    (rowsOf (storeFirst .remove .draft (storeFirst .add .draft inboxOfTwo).1).1).map (·.2) =
        [["\\Draft".toList], []] ∧
    (storeFirst .remove .draft (storeFirst .add .draft inboxOfTwo).1).2.2 =
        [.ok none "STORE completed"] := by
  refine ⟨⟨fun applied => ?_, by decide⟩, by decide, by decide, rfl⟩
  have exact_ := (storeMessages_applied_iff .add [projectFlag]
    (storeSelects [.single (.value 1)] false selectedOfTwo 1 inboxOfTwo) inboxOfTwo).mp applied
  have fits := exact_.1 (fun refused => nomatch refused.1) (message 10 1) List.mem_cons_self
    (by decide)
  exact fits.2.2.1 projectFlag List.mem_cons_self

end Expresso.Imap
