import Expresso.Contacts.Repo

/-! Columns and child rows beside the text they are read from. `replaceByUid` leaves the birthday,
the nickname and the child rows as they are. -/

namespace Expresso.Contacts
open Text
open CalDav (Crates)
open Transition

/-- The columns and the child rows of a contact are those of a card. -/
def Shows (t : Tables) (c : Contact) (p : ParsedVCard) : Prop :=
  c.toColumns = p.columns ∧ t.emailsOf c.id = emailRows c.tenantId c.id p.emails ∧
    t.addressesOf c.id = addressRows c.tenantId c.id p.addresses

instance (t : Tables) (c : Contact) (p : ParsedVCard) : Decidable (Shows t c p) :=
  inferInstanceAs (Decidable (_ ∧ _ ∧ _))

/-- Every contact shows the card that its text is. -/
def Matching (t : Tables) : Prop :=
  ∀ c ∈ t.contacts, ∃ p ∈ (parse c.vcardRaw).toOption, Shows t c p

instance (t : Tables) : Decidable (Matching t) :=
  inferInstanceAs (Decidable (∀ c ∈ t.contacts, ∃ p ∈ (parse c.vcardRaw).toOption, Shows t c p))

/-- What `replaceByUid` leaves as it is agrees with the card: nothing for a new contact, the old
birthday, nickname and child rows for one that is there. -/
def Agrees (t : Tables) (p : ParsedVCard) : Option Contact → Prop
  | none => p.birthday = none ∧ p.nickname = none ∧ p.emails = [] ∧ p.addresses = []
  | some c => c.birthday = p.birthday ∧ c.nickname = p.nickname ∧
      t.emailsOf c.id = emailRows c.tenantId c.id p.emails ∧
      t.addressesOf c.id = addressRows c.tenantId c.id p.addresses

/-- The tables let `replaceByUid` write. -/
def Accepts (t : Tables) (tenant book id : Uuid) (raw : Str) : Option Contact → Prop
  | none => '\x00' ∉ raw ∧ t.hasBook tenant book = true ∧ ∀ c ∈ t.contacts, c.id ≠ id
  | some c => '\x00' ∉ raw ∧ c.tenantId = tenant

/-- Where a `replaceByUid` writes, it leaves nothing stale. -/
def Refreshes (t : Tables) : Command → Prop
  | .replaceByUid tenant book id raw =>
      ∀ p ∈ (parse raw).toOption,
        Accepts t tenant book id raw (t.contacts.find? (·.under book p.uid)) →
          Agrees t p (t.contacts.find? (·.under book p.uid))
  | _ => True

instance (t : Tables) (p : ParsedVCard) : ∀ old, Decidable (Agrees t p old)
  | none => inferInstanceAs (Decidable (_ ∧ _ ∧ _ ∧ _))
  | some _ => inferInstanceAs (Decidable (_ ∧ _ ∧ _ ∧ _))

instance (t : Tables) (tenant book id : Uuid) (raw : Str) :
    ∀ old, Decidable (Accepts t tenant book id raw old)
  | none => inferInstanceAs (Decidable (_ ∧ _ ∧ ∀ c ∈ t.contacts, c.id ≠ id))
  | some _ => inferInstanceAs (Decidable (_ ∧ _))

instance (t : Tables) : ∀ command, Decidable (Refreshes t command)
  | .replaceByUid tenant book id raw =>
      inferInstanceAs (Decidable (∀ p ∈ (parse raw).toOption,
        Accepts t tenant book id raw (t.contacts.find? (·.under book p.uid)) →
          Agrees t p (t.contacts.find? (·.under book p.uid))))
  | .create .. | .update .. | .delete .. | .deleteByUid .. => .isTrue trivial

/-! ### One write -/

section
variable {t t' : Tables} {row : Contact}

theorem mem_toOption {ε α : Type} {x : Except ε α} {a : α} : a ∈ x.toOption ↔ x = .ok a := by
  cases x <;> simp [Except.toOption]

theorem Shows.elsewhere {i : Uuid} (elsewhere : Elsewhere i t t') {c : Contact} (other : c.id ≠ i)
    {p : ParsedVCard} (shows : Shows t c p) : Shows t' c p :=
  ⟨shows.1, (elsewhere.emails c.id other).trans shows.2.1,
    (elsewhere.addresses c.id other).trans shows.2.2⟩

/-- After a write only the row written is in question. -/
theorem matching_iff (matching : Matching t) (saved : Saved row t t') :
    Matching t' ↔ ∃ p ∈ (parse row.vcardRaw).toOption, Shows t' row p := by
  constructor
  · intro holds
    exact holds row saved.stored
  · intro shown c member
    by_cases same : c.id = row.id
    · rw [List.inj_on_of_nodup_map saved.coherent.ids member saved.stored same]
      exact shown
    · obtain ⟨p, read, shows⟩ := matching c ((saved.elsewhere.contacts c same).mp member)
      exact ⟨p, read, shows.elsewhere saved.elsewhere same⟩

theorem owner_emailRows {tenant contact : Uuid} {emails : List ContactEmail} {r : EmailRow}
    (member : r ∈ emailRows tenant contact emails) :
    r.tenantId = tenant ∧ r.contactId = contact := by
  obtain ⟨_, _, rfl⟩ := List.mem_mapIdx.mp member
  exact ⟨rfl, rfl⟩

theorem owner_addressRows {tenant contact : Uuid} {addresses : List ContactAddress}
    {r : AddressRow} (member : r ∈ addressRows tenant contact addresses) :
    r.tenantId = tenant ∧ r.contactId = contact := by
  obtain ⟨_, _, rfl⟩ := List.mem_mapIdx.mp member
  exact ⟨rfl, rfl⟩

/-- The rows of an owner that are all deleted first are the new ones. -/
theorem filter_replaced {α : Type} (owner : α → Uuid) (stays : α → Bool) {i : Uuid}
    {old new : List α} (deleted : ∀ r ∈ old, owner r = i → stays r = false)
    (fresh : ∀ r ∈ new, owner r = i) :
    (old.filter stays ++ new).filter (owner · = i) = new := by
  have all : new.filter (owner · = i) = new := by
    rw [List.filter_eq_self]
    exact fun r member => decide_eq_true (fresh r member)
  have none : (old.filter stays).filter (owner · = i) = [] := by
    rw [List.filter_filter, List.filter_eq_nil_iff]
    intro r member both
    rw [Bool.and_eq_true, decide_eq_true_eq] at both
    rw [deleted r member both.1] at both
    cases both.2
  rw [List.filter_append, none, all, List.nil_append]

/-- A row whose child rows are its tenant's shows the card it is synchronised with. -/
theorem shows_sync {p : ParsedVCard} (columns : row.toColumns = p.columns)
    (emails : ∀ r ∈ t.emailsOf row.id, r.tenantId = row.tenantId)
    (addresses : ∀ r ∈ t.addressesOf row.id, r.tenantId = row.tenantId) :
    Shows (syncAddresses row.tenantId row.id p.addresses
      (syncEmails row.tenantId row.id p.emails t)) row p := by
  refine ⟨columns, ?_, ?_⟩
  · apply filter_replaced EmailRow.contactId
      (fun r => !(r.tenantId = row.tenantId && r.contactId = row.id))
    · intro r member mine
      have tenant := emails r (List.mem_filter.mpr ⟨member, decide_eq_true mine⟩)
      simp [tenant, mine]
    · exact fun r member => (owner_emailRows member).2
  · apply filter_replaced AddressRow.contactId
      (fun r => !(r.tenantId = row.tenantId && r.contactId = row.id))
    · intro r member mine
      have tenant := addresses r (List.mem_filter.mpr ⟨member, decide_eq_true mine⟩)
      simp [tenant, mine]
    · exact fun r member => (owner_addressRows member).2

/-- A new row has no child rows. -/
theorem Coherent.none_of_fresh (coherent : Coherent t) {i : Uuid}
    (fresh : ∀ c ∈ t.contacts, c.id ≠ i) : t.emailsOf i = [] ∧ t.addressesOf i = [] := by
  unfold Tables.emailsOf Tables.addressesOf
  rw [List.filter_eq_nil_iff, List.filter_eq_nil_iff]
  constructor
  · intro r member mine
    obtain ⟨c, listed, same⟩ := coherent.emails r member
    exact fresh c listed (same.trans (of_decide_eq_true mine))
  · intro r member mine
    obtain ⟨c, listed, same⟩ := coherent.addresses r member
    exact fresh c listed (same.trans (of_decide_eq_true mine))

end

section
variable {crates : Crates} {tenant book id : Uuid} {raw : Str} {t t' : Tables} {row : Contact}

theorem matching_create (coherent : Coherent t) (matching : Matching t)
    (done : ContactRepo.create crates tenant book id raw t = .ok (t', row)) : Matching t' := by
  rw [matching_iff matching (saved_create coherent done)]
  obtain ⟨p, t₁, read, shape, written, rfl⟩ := ContactRepo.create_ok done
  obtain ⟨emails, addresses⟩ := insert_children written row.id
  obtain ⟨noEmails, noAddresses⟩ := coherent.none_of_fresh (insert_ok written).1.2.2.1
  have columns : row.toColumns = p.columns := by rw [shape]
  have text : row.vcardRaw = raw := by rw [shape]
  have owner : row.tenantId = tenant := by rw [shape]
  refine ⟨p, by rwa [text, mem_toOption], ?_⟩
  rw [← owner]
  apply shows_sync columns
  · rw [emails, noEmails]
    exact List.forall_mem_nil _
  · rw [addresses, noAddresses]
    exact List.forall_mem_nil _

theorem matching_update (coherent : Coherent t) (matching : Matching t)
    (done : ContactRepo.update crates tenant id raw t = .ok (t', row)) : Matching t' := by
  rw [matching_iff matching (saved_update coherent done)]
  obtain ⟨p, old, t₁, read, member, mine, same, shape, written, rfl⟩ := ContactRepo.update_ok done
  obtain ⟨_, _, _, oldEmails, oldAddresses⟩ := matching old member
  have columns : row.toColumns = p.columns := by rw [shape]
  have text : row.vcardRaw = raw := by rw [shape]
  have owner : row.tenantId = tenant := by rw [shape]
  have name : row.id = id := by rw [shape]
  obtain ⟨emails, addresses⟩ := rewrite_children written row.id
  refine ⟨p, by rwa [text, mem_toOption], ?_⟩
  rw [← owner, ← name]
  apply shows_sync columns
  · rw [emails, name, ← same, oldEmails, owner, ← mine]
    exact fun r listed => (owner_emailRows listed).1
  · rw [addresses, name, ← same, oldAddresses, owner, ← mine]
    exact fun r listed => (owner_addressRows listed).1

theorem filter_kept {α : Type} (owner : α → Uuid) (stays : α → Bool) {i : Uuid} {old : List α}
    (kept : ∀ r ∈ old, owner r = i → stays r = true) :
    (old.filter stays).filter (owner · = i) = old.filter (owner · = i) := by
  rw [List.filter_filter]
  apply List.filter_congr
  intro r member
  by_cases mine : owner r = i
  · rw [kept r member mine, Bool.and_true]
  · rw [decide_eq_false mine, Bool.false_and]

theorem matching_remove (coherent : Coherent t) (matching : Matching t)
    (selected : Contact → Bool) : Matching (t.remove selected) := by
  intro c member
  obtain ⟨listed, kept⟩ := List.mem_filter.mp member
  obtain ⟨p, read, columns, emails, addresses⟩ := matching c listed
  have stays : (t.contacts.any fun d => selected d && d.id = c.id) = false := by
    rw [List.any_eq_false]
    intro d among both
    rw [Bool.and_eq_true, decide_eq_true_eq] at both
    rw [List.inj_on_of_nodup_map coherent.ids among listed both.2] at both
    rw [both.1] at kept
    cases kept
  refine ⟨p, read, columns, ?_, ?_⟩
  · rw [← emails]
    apply filter_kept EmailRow.contactId
    intro r _ mine
    rw [mine]
    exact congrArg Bool.not stays
  · rw [← addresses]
    apply filter_kept AddressRow.contactId
    intro r _ mine
    rw [mine]
    exact congrArg Bool.not stays

/-- Without a child row a contact has none to show. -/
theorem emailRows_eq_nil {contact : Uuid} {emails : List ContactEmail} :
    [] = emailRows tenant contact emails ↔ emails = [] := by
  unfold emailRows
  rw [eq_comm, List.mapIdx_eq_nil_iff]

theorem addressRows_eq_nil {contact : Uuid} {addresses : List ContactAddress} :
    [] = addressRows tenant contact addresses ↔ addresses = [] := by
  unfold addressRows
  rw [eq_comm, List.mapIdx_eq_nil_iff]

/-- The row that `replaceByUid` writes shows the card if what it leaves agrees with it. -/
theorem shows_replacement (coherent : Coherent t) {p : ParsedVCard}
    (shape : row = ContactRepo.replacement crates tenant book id raw p
      (t.contacts.find? (·.under book p.uid)))
    (written : match t.contacts.find? (·.under book p.uid) with
      | none => t.insert row = .ok t'
      | some old => old.tenantId = tenant ∧ t.rewrite row = .ok t') :
    Shows t' row p ↔ Agrees t p (t.contacts.find? (·.under book p.uid)) := by
  cases found : t.contacts.find? (·.under book p.uid) with
  | none =>
    rw [found] at shape written
    obtain ⟨emails, addresses⟩ := insert_children written row.id
    obtain ⟨noEmails, noAddresses⟩ := coherent.none_of_fresh (insert_ok written).1.2.2.1
    unfold Shows Agrees
    rw [emails, addresses, noEmails, noAddresses, emailRows_eq_nil, addressRows_eq_nil, shape]
    simp only [ContactRepo.replacement, ParsedVCard.columns, Option.bind_none, Columns.mk.injEq,
      true_and, and_assoc, eq_comm]
  | some old =>
    rw [found] at shape written
    obtain ⟨mine, rewritten⟩ := written
    obtain ⟨emails, addresses⟩ := rewrite_children rewritten row.id
    unfold Shows Agrees
    rw [emails, addresses, shape, ← mine]
    simp only [ContactRepo.replacement, ParsedVCard.columns, Option.bind_some, Columns.mk.injEq,
      Option.map_some, Option.getD_some, true_and, and_assoc]

theorem exists_insert : (∃ t', t.insert row = .ok t') ↔ t.Admits row := by
  unfold Tables.insert
  split_ifs with admitted <;> simp [admitted]

theorem exists_rewrite : (∃ t', t.rewrite row = .ok t') ↔ t.Allows row := by
  unfold Tables.rewrite
  split_ifs with allowed <;> simp [allowed]

/-- Whether a `replaceByUid` succeeds. -/
theorem accepts_iff (coherent : Coherent t) {p : ParsedVCard} (read : parse raw = .ok p) :
    Accepts t tenant book id raw (t.contacts.find? (·.under book p.uid)) ↔
      ∃ t' row, ContactRepo.replaceByUid crates tenant book id raw t = .ok (t', row) := by
  have only (t' : Tables) (row : Contact) :
      ContactRepo.replaceByUid crates tenant book id raw t = .ok (t', row) ↔
        row = ContactRepo.replacement crates tenant book id raw p
            (t.contacts.find? (·.under book p.uid)) ∧
          match t.contacts.find? (·.under book p.uid) with
          | none => t.insert row = .ok t'
          | some old => old.tenantId = tenant ∧ t.rewrite row = .ok t' := by
    rw [ContactRepo.replaceByUid_ok]
    constructor
    · rintro ⟨q, read', shape⟩
      cases read.symm.trans read'
      exact shape
    · exact fun shape => ⟨p, read, shape⟩
  simp only [only, exists_eq_left]
  cases found : t.contacts.find? (·.under book p.uid) with
  | none =>
    have free : ∀ c ∈ t.contacts, c.under book p.uid = false := fun c member =>
      Bool.eq_false_iff.mpr (List.find?_eq_none.mp found c member)
    rw [exists_insert]
    unfold Accepts Tables.Admits
    constructor
    · intro ⟨noZero, known, fresh⟩
      exact ⟨known, noZero, fresh, free⟩
    · intro ⟨known, noZero, fresh, _⟩
      exact ⟨noZero, known, fresh⟩
  | some old =>
    have under : old.under book p.uid = true := List.find?_some found
    have free : ∀ c ∈ t.contacts, c.id ≠ old.id → c.under book p.uid = false := by
      intro c member other
      by_contra taken
      rw [Bool.not_eq_false] at taken
      have same := List.inj_on_of_nodup_map coherent.keys member (List.mem_of_find?_eq_some found)
        ((under_iff.mp taken).trans (under_iff.mp under).symm)
      exact other (congrArg (·.id) same)
    rw [exists_and_left, exists_rewrite]
    unfold Accepts Tables.Allows
    constructor
    · intro ⟨noZero, mine⟩
      exact ⟨mine, noZero, free⟩
    · intro ⟨mine, noZero, _⟩
      exact ⟨noZero, mine⟩

theorem result_ok {x : Except ContactsError (Tables × Contact)} (done : x = .ok (t', row)) :
    (x.map (·.1)).toOption.getD t = t' := by
  rw [done]
  rfl

/-- Tables that a write leaves as they were, or leaves matching. -/
theorem matching_result (matching : Matching t) {x : Except ContactsError (Tables × Contact)}
    (saved : ∀ t' row, x = .ok (t', row) → Matching t') :
    Matching ((x.map (·.1)).toOption.getD t) := by
  cases x with
  | error _ => exact matching
  | ok result => exact saved result.1 result.2 rfl

theorem refreshes_replaceByUid (coherent : Coherent t) (matching : Matching t) :
    Refreshes t (.replaceByUid tenant book id raw) ↔
      Matching (t.after crates (.replaceByUid tenant book id raw)) := by
  unfold Refreshes
  by_cases done : ∃ t' row, ContactRepo.replaceByUid crates tenant book id raw t = .ok (t', row)
  · obtain ⟨t', row, written⟩ := done
    have saved := saved_replaceByUid coherent written
    obtain ⟨p, read, shape, place⟩ := ContactRepo.replaceByUid_ok.mp written
    have accepted := (accepts_iff coherent read).mpr ⟨t', row, written⟩
    have text : row.vcardRaw = raw := by rw [shape]; rfl
    have result : t.after crates (.replaceByUid tenant book id raw) = t' := result_ok written
    rw [result, matching_iff matching saved, text]
    constructor
    · intro refreshes
      have agrees := refreshes p (mem_toOption.mpr read) accepted
      exact ⟨p, mem_toOption.mpr read, (shows_replacement coherent shape place).mpr agrees⟩
    · rintro ⟨q, read', shows⟩ q' read'' _
      cases read.symm.trans (mem_toOption.mp read')
      cases read.symm.trans (mem_toOption.mp read'')
      exact (shows_replacement coherent shape place).mp shows
  · constructor
    · intro _
      exact matching_result matching fun t' row written => absurd ⟨t', row, written⟩ done
    · intro _ p read accepted
      exact absurd ((accepts_iff coherent (mem_toOption.mp read)).mp accepted) done

theorem refreshes_iff (s : Store) (command : Command) (matching : Matching s.toTables) :
    Refreshes s.toTables command ↔ Matching (s.step crates command).toTables := by
  cases command with
  | create tenant book id raw =>
    apply iff_of_true trivial
    exact matching_result matching fun _ _ => matching_create s.coherent matching
  | update tenant id raw =>
    apply iff_of_true trivial
    exact matching_result matching fun _ _ => matching_update s.coherent matching
  | replaceByUid tenant book id raw => exact refreshes_replaceByUid s.coherent matching
  | delete tenant id => exact iff_of_true trivial (matching_remove s.coherent matching _)
  | deleteByUid tenant book uid =>
    exact iff_of_true trivial (matching_remove s.coherent matching _)

end

/-- Along a run the columns and child rows of every contact are those of its card if and only if
no `replaceByUid` leaves a birthday, a nickname or child rows that the card does not have. -/
theorem columns_match (crates : Crates) (s : Store) (commands : List Command)
    (matching : Matching s.toTables) :
    EachStep (Store.step crates) (fun s command => Refreshes s.toTables command) s commands ↔
      Throughout (Store.step crates) (fun s => Matching s.toTables) s commands :=
  eachStep_iff_throughout (fun s command => refreshes_iff s command) matching commands

/-! ### A first synchronised card -/

/-- One empty address book. -/
def emptyBook : Store where
  addressbooks := [⟨1, 1⟩]
  contacts := []
  contactEmails := []
  contactAddresses := []
  coherent := ⟨List.nodup_nil, List.nodup_nil, List.forall_mem_nil _, List.forall_mem_nil _,
    List.forall_mem_nil _⟩

def birthdayCard : Str :=
  "BEGIN:VCARD\r\nUID:1\r\nBDAY:1990-05-15\r\nEMAIL;TYPE=HOME:a@x\r\nEND:VCARD\r\n".toList

def nameCard : Str := "BEGIN:VCARD\r\nUID:2\r\nFN:Ana\r\nEND:VCARD\r\n".toList

/-- A card without what is left out, and a card with it that is created and renewed over REST. -/
theorem columns_match_rest :
    Throughout (Store.step ⟨id, fun _ => none, fun _ => none⟩) (fun s => Matching s.toTables)
      emptyBook
      [.create 1 1 10 birthdayCard, .replaceByUid 1 1 11 nameCard, .update 1 10 birthdayCard] :=
  (columns_match _ emptyBook _ (by decide)).mp (by decide)

theorem birthday_left_out :
    Matching emptyBook.toTables ∧
      ¬Matching (emptyBook.step ⟨id, fun _ => none, fun _ => none⟩
        (.replaceByUid 1 1 10 birthdayCard)).toTables := by decide

end Expresso.Contacts
