import Expresso.Imap.Sequence

/-! The messages that a sequence set names, and those that a command with the set reads. -/

namespace Expresso.Imap
open Text Sql

/-! ### Meaning -/

/-- The number that is meant, where `*` stands for the last one. -/
def SeqOrUid.meaning (last : Int) : SeqOrUid → Int
  | .value n => n
  | .asterisk => last

def Sequence.Names (last number : Int) : Sequence → Prop
  | .single val => number = val.meaning last
  | .range first final =>
      min (first.meaning last) (final.meaning last) ≤ number ∧
        number ≤ max (first.meaning last) (final.meaning last)

def Named (set : SequenceSet) (last number : Int) : Prop := ∃ sequence ∈ set, sequence.Names last number

/-- The numbers of a set are 32-bit and not zero. -/
def SeqOrUid.Valid : SeqOrUid → Prop
  | .value n => 1 ≤ n ∧ n ≤ u32Max
  | .asterisk => True

def Sequence.Valid : Sequence → Prop
  | .single val => val.Valid
  | .range first final => first.Valid ∧ final.Valid

def ValidSet (set : SequenceSet) : Prop := ∀ sequence ∈ set, sequence.Valid

def Sequence.mentionsLast : Sequence → Bool
  | .single val => val = .asterisk
  | .range first final => first = .asterisk || final = .asterisk

section
variable (set : SequenceSet) (uid : Bool) (sel : SelectedMailbox) (tenantId : Uuid) (s : Store)

def highestUid : Option Int := ((mailboxRows sel.mailboxId tenantId s).map (·.uid)).max?

/-- The set names the message: by its position, where `*` is the number of messages, or by its
UID, where `*` is the highest one. -/
def InSet (row : Message × Nat) : Prop :=
  if uid then ∃ last, highestUid sel tenantId s = some last ∧ Named set last row.1.uid
  else row.2 ≤ sel.existing ∧ Named set sel.existing row.2

/-- The messages that `FETCH` reads are those that the set names. -/
def ReadsNamed : Prop :=
  ∀ m, m ∈ (numberedRows set uid sel tenantId (changedSince none) s).map (·.1) ↔
    ∃ row ∈ rowNumbered (mailboxRows sel.mailboxId tenantId s),
      row.1 = m ∧ InSet set uid sel tenantId s row

/-- By UID, a set with `*` names the highest UID also where `*` stands for the last 32-bit number;
by position, a single number above all positions stands beside something that names the last
message. -/
def LastReached : Prop :=
  if uid then ∀ last, highestUid sel tenantId s = some last →
    (∃ sequence ∈ set, sequence.mentionsLast) → last ≤ u32Max ∧ Named set u32Max last
  else ∀ n, .single (.value n) ∈ set → sel.existing < n → 1 ≤ sel.existing →
    sel.existing ≤ (mailboxRows sel.mailboxId tenantId s).length →
      Named set sel.existing sel.existing

end

/-! ### Ranges -/

/-- The bounds that are asked for. -/
def Sequence.bounds (existing : Nat) : Sequence → Nat × Nat
  | .single val =>
      let n := min (max (seqOrUidVal val existing) 1) existing
      (n, n)
  | .range first last =>
      let a := seqOrUidVal first existing
      let b := seqOrUidVal last existing
      (max (min a b) 1, min (max a b) existing)

theorem sequenceRanges_eq (set : SequenceSet) (existing : Nat) :
    sequenceRanges set existing = set.map (Sequence.bounds existing) := rfl

theorem meaning_eq (val : SeqOrUid) (existing : Nat) :
    val.meaning existing = seqOrUidVal val existing := by
  cases val <;> rfl

/-- A single number above all stands for the last one. -/
theorem Sequence.bounds_iff {sequence : Sequence} {existing number : Nat} (valid : sequence.Valid)
    (positive : 1 ≤ number) :
    ((sequence.bounds existing).1 ≤ number ∧ number ≤ (sequence.bounds existing).2) ↔
      (number ≤ existing ∧ sequence.Names existing number) ∨
        (number = existing ∧ ∃ n, sequence = .single (.value n) ∧ existing < n) := by
  cases sequence with
  | single val =>
    simp only [Sequence.bounds, Sequence.Names, meaning_eq]
    cases val with
    | value n =>
      have lower : 1 ≤ n := valid.1
      simp only [seqOrUidVal, Sequence.single.injEq, SeqOrUid.value.injEq, exists_eq_left',
        Int.natCast_inj]
      omega
    | asterisk =>
      simp only [seqOrUidVal, Sequence.single.injEq, reduceCtorEq, false_and, exists_false,
        and_false, or_false, Int.natCast_inj]
      omega
  | range first final =>
    simp only [Sequence.bounds, Sequence.Names, meaning_eq, reduceCtorEq, false_and, exists_false,
      and_false, or_false]
    omega

section
variable {set : SequenceSet} {uid : Bool} {sel : SelectedMailbox} {tenantId : Uuid} {s : Store}

theorem seqClause_iff {existing number : Nat} (valid : ValidSet set) (positive : 1 ≤ number) :
    seqClause (sequenceRanges set existing) number = true ↔
      (number ≤ existing ∧ Named set existing number) ∨
        (number = existing ∧ ∃ n, .single (.value n) ∈ set ∧ existing < n) := by
  simp only [seqClause, sequenceRanges_eq, List.any_map, List.any_eq_true, Function.comp_apply,
    Bool.and_eq_true, decide_eq_true_eq]
  constructor
  · intro ⟨sequence, member, inside⟩
    cases (Sequence.bounds_iff (valid sequence member) positive).mp inside with
    | inl named => exact .inl ⟨named.1, sequence, member, named.2⟩
    | inr above =>
      obtain ⟨same, n, single, more⟩ := above
      exact .inr ⟨same, n, single ▸ member, more⟩
  · intro named
    cases named with
    | inl named =>
      obtain ⟨within, sequence, member, named⟩ := named
      exact ⟨sequence, member,
        (Sequence.bounds_iff (valid sequence member) positive).mpr (.inl ⟨within, named⟩)⟩
    | inr above =>
      obtain ⟨same, n, member, more⟩ := above
      exact ⟨_, member,
        (Sequence.bounds_iff (valid _ member) positive).mpr (.inr ⟨same, n, rfl, more⟩)⟩

theorem Named.positive {last number : Int} (valid : ValidSet set) (some_ : 1 ≤ last)
    (named : Named set last number) : 1 ≤ number := by
  obtain ⟨sequence, member, named⟩ := named
  have least (val : SeqOrUid) (valid : val.Valid) : 1 ≤ val.meaning last := by
    cases val with
    | value n => exact Int.ofNat_le.mpr valid.1
    | asterisk => exact some_
  cases sequence with
  | single val => exact named ▸ least val (valid _ member)
  | range first final =>
    have lower := least first (valid _ member).1
    have lower' := least final (valid _ member).2
    have bound := named.1
    omega

theorem uidClause_iff {m : Message} (valid : ValidSet set) :
    uidClause (sequenceRanges set u32Max) m = true ↔ m.uid ≤ u32Max ∧ Named set u32Max m.uid := by
  by_cases positive : 1 ≤ m.uid
  · obtain ⟨number, isNumber⟩ := Int.eq_ofNat_of_zero_le (show 0 ≤ m.uid by omega)
    have clause : uidClause (sequenceRanges set u32Max) m =
        seqClause (sequenceRanges set u32Max) number := by
      simp only [uidClause, seqClause, isNumber, Int.ofNat_le]
    have none : ¬∃ n, Sequence.single (.value n) ∈ set ∧ u32Max < n := by
      intro ⟨n, member, above⟩
      exact absurd (valid _ member).2 (by omega)
    rw [clause, seqClause_iff valid (by omega), isNumber]
    simp only [none, and_false, or_false, Int.ofNat_le]
  · constructor
    · intro inside
      simp only [uidClause, sequenceRanges_eq, List.any_map, List.any_eq_true,
        Function.comp_apply, Bool.and_eq_true, decide_eq_true_eq] at inside
      obtain ⟨sequence, member, low, -⟩ := inside
      have least : 1 ≤ (sequence.bounds u32Max).1 := by
        cases sequence with
        | single val =>
          show 1 ≤ min (max _ 1) u32Max
          unfold u32Max
          omega
        | range first final =>
          show 1 ≤ max _ 1
          omega
      omega
    · intro ⟨_, named⟩
      exact absurd (named.positive valid (by decide)) positive

theorem Sequence.names_last_iff {sequence : Sequence} {last most number : Int}
    (within : last ≤ most) (below : number ≤ last) :
    sequence.Names last number ↔
      sequence.Names most number ∨ (number = last ∧ sequence.mentionsLast = true) := by
  cases sequence with
  | single val =>
    cases val with
    | value n => simp [Sequence.Names, SeqOrUid.meaning, Sequence.mentionsLast]
    | asterisk =>
      simp only [Sequence.Names, SeqOrUid.meaning, Sequence.mentionsLast, decide_true, and_true]
      omega
  | range first final =>
    cases first <;> cases final <;>
      simp only [Sequence.Names, SeqOrUid.meaning, Sequence.mentionsLast, decide_true,
        reduceCtorEq, decide_false, Bool.or_true, Bool.true_or, Bool.or_self, and_true,
        Bool.false_eq_true, and_false, or_false] <;>
      omega

/-- Up to the last number, a larger meaning of `*` takes away that number at most. -/
theorem named_last_iff {last most number : Int} (within : last ≤ most) (below : number ≤ last) :
    Named set last number ↔ Named set most number ∨
      (number = last ∧ ∃ sequence ∈ set, sequence.mentionsLast = true) := by
  simp only [Named, Sequence.names_last_iff within below]
  constructor
  · intro ⟨sequence, member, named⟩
    exact named.imp (⟨sequence, member, ·⟩) fun ends => ⟨ends.1, sequence, member, ends.2⟩
  · intro named
    cases named with
    | inl named =>
      obtain ⟨sequence, member, named⟩ := named
      exact ⟨sequence, member, .inl named⟩
    | inr ends =>
      obtain ⟨same, sequence, member, mentions⟩ := ends
      exact ⟨sequence, member, .inr ⟨same, mentions⟩⟩

theorem named_of_mentionsLast {last : Int}
    (mentions : ∃ sequence ∈ set, sequence.mentionsLast = true) : Named set last last := by
  obtain ⟨sequence, member, mentions⟩ := mentions
  have top : last ≤ last := le_refl last
  exact ⟨sequence, member, (Sequence.names_last_iff top top).mpr (.inr ⟨rfl, mentions⟩)⟩

theorem named_congr {last last' number : Int}
    (none : ¬∃ sequence ∈ set, sequence.mentionsLast = true) :
    Named set last number ↔ Named set last' number := by
  simp only [not_exists, not_and, Bool.not_eq_true] at none
  apply exists_congr
  intro sequence
  apply and_congr_right
  intro member
  have fixed := none sequence member
  cases sequence with
  | single val => cases val <;> simp_all [Sequence.mentionsLast, Sequence.Names, SeqOrUid.meaning]
  | range first final =>
    cases first <;> cases final <;>
      simp_all [Sequence.mentionsLast, Sequence.Names, SeqOrUid.meaning]

theorem Named.bounded {number : Int} (valid : ValidSet set) (named : Named set u32Max number) :
    number ≤ u32Max := by
  obtain ⟨sequence, member, named⟩ := named
  have most (val : SeqOrUid) (valid : val.Valid) : val.meaning u32Max ≤ u32Max := by
    cases val with
    | value n => exact Int.ofNat_le.mpr valid.2
    | asterisk => exact le_refl _
  cases sequence with
  | single val => exact named ▸ most val (valid _ member)
  | range first final =>
    have upper := most first (valid _ member).1
    have upper' := most final (valid _ member).2
    have bound := named.2
    omega

/-! ### Rows -/

theorem changedSince_none : changedSince none = fun _ => true := rfl

theorem readsNamed_uid_iff (valid : ValidSet set) :
    ReadsNamed set true sel tenantId s ↔ ∀ m ∈ mailboxRows sel.mailboxId tenantId s,
      (Named set u32Max m.uid ↔
        ∃ last, highestUid sel tenantId s = some last ∧ Named set last m.uid) := by
  have read (m : Message) :
      m ∈ (numberedRows set true sel tenantId (changedSince none) s).map (·.1) ↔
        m ∈ mailboxRows sel.mailboxId tenantId s ∧ Named set u32Max m.uid := by
    have bounded : m.uid ≤ u32Max ∧ Named set u32Max m.uid ↔ Named set u32Max m.uid :=
      and_iff_right_of_imp (Named.bounded valid)
    simp only [numberedRows_uid, rowNumbered_map_fst, changedSince_none, Bool.and_true, List.mem_filter,
      uidClause_iff valid, bounded]
  have named (m : Message) : (∃ row ∈ rowNumbered (mailboxRows sel.mailboxId tenantId s),
      row.1 = m ∧ InSet set true sel tenantId s row) ↔
        m ∈ mailboxRows sel.mailboxId tenantId s ∧
          ∃ last, highestUid sel tenantId s = some last ∧ Named set last m.uid := by
    conv_rhs => rw [← rowNumbered_map_fst (mailboxRows sel.mailboxId tenantId s), List.mem_map]
    constructor
    · intro ⟨row, member, same, inSet⟩
      subst same
      exact ⟨⟨row, member, rfl⟩, inSet⟩
    · intro ⟨⟨row, member, same⟩, inSet⟩
      subst same
      exact ⟨row, member, rfl, inSet⟩
  simp only [ReadsNamed, read, named, and_congr_right_iff]

theorem readsNamed_seq_iff :
    ReadsNamed set false sel tenantId s ↔
      ∀ row ∈ rowNumbered (mailboxRows sel.mailboxId tenantId s),
        (seqClause (sequenceRanges set sel.existing) row.2 = true ↔
          row.2 ≤ sel.existing ∧ Named set sel.existing row.2) := by
  have distinct : ((rowNumbered (mailboxRows sel.mailboxId tenantId s)).map (·.1)).Nodup := by
    rw [rowNumbered_map_fst]
    exact mailboxRows_nodup.of_map _
  have read (m : Message) :
      m ∈ (numberedRows set false sel tenantId (changedSince none) s).map (·.1) ↔
        ∃ row ∈ rowNumbered (mailboxRows sel.mailboxId tenantId s), row.1 = m ∧
          seqClause (sequenceRanges set sel.existing) row.2 = true := by
    rw [changedSince_none, numberedRows_whole, List.mem_map]
    simp only [List.mem_filter, and_assoc, and_comm (a := _ = m)]
  simp only [ReadsNamed, read]
  constructor
  · intro same row member
    have here := same row.1
    constructor
    · intro inside
      obtain ⟨other, among, equal, inSet⟩ := here.mp ⟨row, member, rfl, inside⟩
      exact List.inj_on_of_nodup_map distinct among member equal ▸ inSet
    · intro inSet
      obtain ⟨other, among, equal, inside⟩ := here.mpr ⟨row, member, rfl, inSet⟩
      exact List.inj_on_of_nodup_map distinct among member equal ▸ inside
  · intro same m
    apply exists_congr
    intro row
    apply and_congr_right
    intro member
    exact and_congr_right fun _ => same row member

/-- The messages that are read are those that are named if and only if the last one is reached. -/
theorem readsNamed_iff (valid : ValidSet set) :
    ReadsNamed set uid sel tenantId s ↔ LastReached set uid sel tenantId s := by
  cases uid with
  | true =>
    rw [readsNamed_uid_iff valid, LastReached, if_pos rfl]
    constructor
    · intro same last isLast mentions
      obtain ⟨m, member, isTop⟩ := List.mem_map.mp (List.max?_mem isLast)
      subst isTop
      have named := (same m member).mpr ⟨_, isLast, named_of_mentionsLast mentions⟩
      exact ⟨named.bounded valid, named⟩
    · intro reached m member
      obtain ⟨last, isLast⟩ : ∃ last, highestUid sel tenantId s = some last := by
        apply Option.ne_none_iff_exists'.mp
        intro empty
        have nothing := List.max?_eq_none_iff.mp empty
        exact absurd (List.mem_map_of_mem (f := (·.uid)) member) (by simp [nothing])
      have below : m.uid ≤ last :=
        (List.max?_eq_some_iff.mp isLast).2 m.uid (List.mem_map_of_mem member)
      have meant : (∃ last, highestUid sel tenantId s = some last ∧ Named set last m.uid) ↔
          Named set last m.uid := by
        simp only [isLast, Option.some.injEq, exists_eq_left']
      rw [meant]
      by_cases mentions : ∃ sequence ∈ set, sequence.mentionsLast = true
      · obtain ⟨within, named⟩ := reached last isLast mentions
        rw [named_last_iff within below]
        refine ⟨.inl, fun either => either.elim id fun ends => ?_⟩
        rw [ends.1]
        exact named
      · exact named_congr mentions
  | false =>
    rw [readsNamed_seq_iff, LastReached, if_neg Bool.false_ne_true]
    constructor
    · intro same n member above some_ present
      have row : ((mailboxRows sel.mailboxId tenantId s)[sel.existing - 1], sel.existing) ∈
          rowNumbered (mailboxRows sel.mailboxId tenantId s) :=
        mem_rowNumbered.mpr ⟨some_, List.getElem?_eq_getElem (by omega)⟩
      have inside := (seqClause_iff valid some_).mpr (.inr ⟨rfl, n, member, above⟩)
      exact ((same _ row).mp inside).2
    · intro reached row member
      obtain ⟨positive, found⟩ := mem_rowNumbered.mp member
      have present := (List.getElem?_eq_some_iff.mp found).1
      rw [seqClause_iff valid positive]
      refine ⟨fun either => either.elim id fun above => ?_, .inl⟩
      obtain ⟨same, n, single, more⟩ := above
      rw [same]
      exact ⟨le_refl _, reached n single more (by omega) (by omega)⟩

end

/-- `*` as a UID, and a position above the last one. -/
theorem sequenceSet_misread :
    ¬ReadsNamed [.single .asterisk] true selectedOfTwo 1 inboxOfTwo ∧
      ¬ReadsNamed [.single (.value 5)] false selectedOfTwo 1 inboxOfTwo := by
  have second : (message 11 2, 2) ∈ rowNumbered (mailboxRows 1 1 inboxOfTwo) := by decide
  constructor
  · intro same
    have nothing : (numberedRows [.single .asterisk] true selectedOfTwo 1 (changedSince none)
        inboxOfTwo).map (·.1) = [] := by decide
    have named := (same (message 11 2)).mpr
      ⟨_, second, rfl, 2, by decide, .single .asterisk, List.mem_singleton_self _, rfl⟩
    rw [nothing] at named
    cases named
  · intro same
    have read : message 11 2 ∈ (numberedRows [.single (.value 5)] false selectedOfTwo 1
        (changedSince none) inboxOfTwo).map (·.1) := by decide
    obtain ⟨row, -, -, within, sequence, member, named⟩ := (same (message 11 2)).mp read
    rw [List.mem_singleton.mp member] at named
    have five : (row.2 : Int) = 5 := named
    have two : row.2 ≤ 2 := within
    omega

theorem sequenceSet_two_to_last :
    ReadsNamed [.range (.value 2) .asterisk] true selectedOfTwo 1 inboxOfTwo ↔
      LastReached [.range (.value 2) .asterisk] true selectedOfTwo 1 inboxOfTwo :=
  readsNamed_iff (by simp [ValidSet, Sequence.Valid, SeqOrUid.Valid, u32Max])

end Expresso.Imap
