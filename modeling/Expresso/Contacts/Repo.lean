import Expresso.Contacts.VCard
import Expresso.Transition.Runs
import Mathlib.Data.List.Nodup

/-! The contact tables and the writes of `ContactRepo`: a contact is kept as its text, its columns
and two child tables. -/

namespace Expresso.Contacts
open Text
open CalDav (Crates hexByte)
open Transition (bind_eq_ok_iff)

abbrev Uuid := Nat

/-! ### Tables -/

structure Addressbook where
  id : Uuid
  tenantId : Uuid
  deriving DecidableEq

/-- The columns that are read from the card. -/
structure Columns where
  uid : Str
  fullName : Option Str
  familyName : Option Str
  givenName : Option Str
  organization : Option Str
  emailPrimary : Option Str
  phonePrimary : Option Str
  birthday : Option Str
  nickname : Option Str
  deriving DecidableEq

/-- A row of `contacts`. -/
structure Contact extends Columns where
  id : Uuid
  addressbookId : Uuid
  tenantId : Uuid
  etag : Str
  vcardRaw : Str
  deriving DecidableEq

/-- A row of `contact_emails`. -/
structure EmailRow extends ContactEmail where
  tenantId : Uuid
  contactId : Uuid
  position : Nat
  deriving DecidableEq

/-- A row of `contact_addresses`. -/
structure AddressRow extends ContactAddress where
  tenantId : Uuid
  contactId : Uuid
  position : Nat
  deriving DecidableEq

structure Tables where
  addressbooks : List Addressbook
  contacts : List Contact
  contactEmails : List EmailRow
  contactAddresses : List AddressRow
  deriving DecidableEq

inductive ContactsError where
  | database
  | invalidVCard (message : Str)
  deriving DecidableEq

def Contact.under (book : Uuid) (uid : Str) (c : Contact) : Bool :=
  c.addressbookId = book && c.uid = uid

namespace Tables

def hasBook (tenant book : Uuid) (t : Tables) : Bool :=
  t.addressbooks.any fun b => b.id = book && b.tenantId = tenant

def emailsOf (t : Tables) (contact : Uuid) : List EmailRow :=
  t.contactEmails.filter (·.contactId = contact)

def addressesOf (t : Tables) (contact : Uuid) : List AddressRow :=
  t.contactAddresses.filter (·.contactId = contact)

/-- Whether a new row is let in: the trigger finds the address book among the tenant's, the text
has no zero character, the id and the UID are free. -/
def Admits (row : Contact) (t : Tables) : Prop :=
  t.hasBook row.tenantId row.addressbookId = true ∧ '\x00' ∉ row.vcardRaw ∧
    (∀ c ∈ t.contacts, c.id ≠ row.id) ∧
    ∀ c ∈ t.contacts, c.under row.addressbookId row.uid = false

instance (row : Contact) (t : Tables) : Decidable (t.Admits row) :=
  inferInstanceAs (Decidable (_ ∧ _ ∧ (∀ c ∈ t.contacts, _) ∧ ∀ c ∈ t.contacts, _))

/-- Whether the row in place of the one with its id is let in. -/
def Allows (row : Contact) (t : Tables) : Prop :=
  '\x00' ∉ row.vcardRaw ∧
    ∀ c ∈ t.contacts, c.id ≠ row.id → c.under row.addressbookId row.uid = false

instance (row : Contact) (t : Tables) : Decidable (t.Allows row) :=
  inferInstanceAs (Decidable (_ ∧ ∀ c ∈ t.contacts, _ → _))

/-- `INSERT INTO contacts` -/
def insert (row : Contact) (t : Tables) : Except ContactsError Tables :=
  if t.Admits row then .ok { t with contacts := t.contacts ++ [row] } else .error .database

/-- `UPDATE contacts` of the row with the id. -/
def rewrite (row : Contact) (t : Tables) : Except ContactsError Tables :=
  if t.Allows row then
    .ok { t with contacts := t.contacts.map fun c => if c.id = row.id then row else c }
  else .error .database

/-- `DELETE FROM contacts`, with the child rows. -/
def remove (selected : Contact → Bool) (t : Tables) : Tables :=
  let gone (contact : Uuid) : Bool := t.contacts.any fun c => selected c && c.id = contact
  { t with
    contacts := t.contacts.filter (!selected ·)
    contactEmails := t.contactEmails.filter (!gone ·.contactId)
    contactAddresses := t.contactAddresses.filter (!gone ·.contactId) }

end Tables

/-! ### The repository -/

def ParsedVCard.columns (p : ParsedVCard) : Columns where
  uid := p.uid
  fullName := p.fullName
  familyName := p.familyName
  givenName := p.givenName
  organization := p.organization
  emailPrimary := p.email
  phonePrimary := p.phone
  birthday := p.birthday
  nickname := p.nickname

def emailRows (tenant contact : Uuid) (emails : List ContactEmail) : List EmailRow :=
  emails.mapIdx fun i e => ⟨e, tenant, contact, i⟩

def addressRows (tenant contact : Uuid) (addresses : List ContactAddress) : List AddressRow :=
  addresses.mapIdx fun i a => ⟨a, tenant, contact, i⟩

def syncEmails (tenant contact : Uuid) (emails : List ContactEmail) (t : Tables) : Tables :=
  { t with
    contactEmails :=
      t.contactEmails.filter (fun r => !(r.tenantId = tenant && r.contactId = contact))
        ++ emailRows tenant contact emails }

def syncAddresses (tenant contact : Uuid) (addresses : List ContactAddress) (t : Tables) : Tables :=
  { t with
    contactAddresses :=
      t.contactAddresses.filter (fun r => !(r.tenantId = tenant && r.contactId = contact))
        ++ addressRows tenant contact addresses }

namespace ContactRepo
variable (crates : Crates)

def computeEtag (raw : Str) : Str := (crates.sha256 (asBytes raw)).flatMap hexByte

def parsed (raw : Str) : Except ContactsError ParsedVCard :=
  (parse raw).mapError ContactsError.invalidVCard

def create (tenant book id : Uuid) (raw : Str) (t : Tables) :
    Except ContactsError (Tables × Contact) := do
  let p ← parsed raw
  let row : Contact := ⟨p.columns, id, book, tenant, computeEtag crates raw, raw⟩
  let t ← t.insert row
  let t := syncAddresses tenant row.id p.addresses (syncEmails tenant row.id p.emails t)
  return (t, row)

def update (tenant id : Uuid) (raw : Str) (t : Tables) :
    Except ContactsError (Tables × Contact) := do
  let p ← parsed raw
  match t.contacts.find? fun c => c.tenantId = tenant && c.id = id with
  | none => throw .database
  | some old =>
      let row : Contact := ⟨p.columns, old.id, old.addressbookId, old.tenantId,
        computeEtag crates raw, raw⟩
      let t ← t.rewrite row
      let t := syncAddresses tenant id p.addresses (syncEmails tenant id p.emails t)
      return (t, row)

/-- A new row has no birthday and no nickname, an old one keeps its own. -/
def replaceByUid (tenant book id : Uuid) (raw : Str) (t : Tables) :
    Except ContactsError (Tables × Contact) := do
  let p ← parsed raw
  match t.contacts.find? (·.under book p.uid) with
  | none =>
      let columns := { p.columns with birthday := none, nickname := none }
      let row : Contact := ⟨columns, id, book, tenant, computeEtag crates raw, raw⟩
      let t ← t.insert row
      return (t, row)
  | some old =>
      if old.tenantId = tenant then
        let columns := { p.columns with birthday := old.birthday, nickname := old.nickname }
        let row : Contact := ⟨columns, old.id, old.addressbookId, old.tenantId,
          computeEtag crates raw, raw⟩
        let t ← t.rewrite row
        return (t, row)
      else throw .database

def delete (tenant id : Uuid) (t : Tables) : Tables :=
  t.remove fun c => c.tenantId = tenant && c.id = id

def deleteByUid (tenant book : Uuid) (uid : Str) (t : Tables) : Tables :=
  t.remove fun c => c.tenantId = tenant && c.under book uid

end ContactRepo

/-- A write, with the id that a new row would get. -/
inductive Command where
  | create (tenant book id : Uuid) (raw : Str)
  | update (tenant id : Uuid) (raw : Str)
  | replaceByUid (tenant book id : Uuid) (raw : Str)
  | delete (tenant id : Uuid)
  | deleteByUid (tenant book : Uuid) (uid : Str)
  deriving DecidableEq

/-- The tables after a command; a refused one is rolled back. -/
def Tables.after (crates : Crates) (t : Tables) : Command → Tables
  | .create tenant book id raw =>
      ((ContactRepo.create crates tenant book id raw t).map (·.1)).toOption.getD t
  | .update tenant id raw => ((ContactRepo.update crates tenant id raw t).map (·.1)).toOption.getD t
  | .replaceByUid tenant book id raw =>
      ((ContactRepo.replaceByUid crates tenant book id raw t).map (·.1)).toOption.getD t
  | .delete tenant id => ContactRepo.delete tenant id t
  | .deleteByUid tenant book uid => ContactRepo.deleteByUid tenant book uid t

/-! ### Rows that fit together -/

/-- Ids are unique, a UID names one contact of an address book, an address book has the contacts
of its tenant, and child rows belong to a contact. -/
structure Coherent (t : Tables) : Prop where
  ids : (t.contacts.map (·.id)).Nodup
  keys : (t.contacts.map fun c => (c.addressbookId, c.uid)).Nodup
  owned : ∀ c ∈ t.contacts, t.hasBook c.tenantId c.addressbookId = true
  emails : ∀ r ∈ t.contactEmails, ∃ c ∈ t.contacts, c.id = r.contactId
  addresses : ∀ r ∈ t.contactAddresses, ∃ c ∈ t.contacts, c.id = r.contactId

structure Store extends Tables where
  coherent : Coherent toTables

section
variable {t t' : Tables} {row : Contact}

theorem insert_ok (done : t.insert row = .ok t') :
    t.Admits row ∧ t' = { t with contacts := t.contacts ++ [row] } := by
  unfold Tables.insert at done
  split_ifs at done with admitted
  exact ⟨admitted, (Except.ok.inj done).symm⟩

theorem rewrite_ok (done : t.rewrite row = .ok t') :
    t.Allows row ∧
      t' = { t with contacts := t.contacts.map fun c => if c.id = row.id then row else c } := by
  unfold Tables.rewrite at done
  split_ifs at done with allowed
  exact ⟨allowed, (Except.ok.inj done).symm⟩

/-- Child rows are written only by the synchronisation. -/
theorem insert_children (done : t.insert row = .ok t') (i : Uuid) :
    t'.emailsOf i = t.emailsOf i ∧ t'.addressesOf i = t.addressesOf i := by
  obtain ⟨_, rfl⟩ := insert_ok done
  exact ⟨rfl, rfl⟩

theorem rewrite_children (done : t.rewrite row = .ok t') (i : Uuid) :
    t'.emailsOf i = t.emailsOf i ∧ t'.addressesOf i = t.addressesOf i := by
  obtain ⟨_, rfl⟩ := rewrite_ok done
  exact ⟨rfl, rfl⟩

theorem under_iff {book : Uuid} {uid : Str} {c : Contact} :
    c.under book uid = true ↔ (c.addressbookId, c.uid) = (book, uid) := by
  unfold Contact.under
  rw [Bool.and_eq_true, decide_eq_true_eq, decide_eq_true_eq, Prod.mk.injEq]

theorem Coherent.insert (coherent : Coherent t) (done : t.insert row = .ok t') : Coherent t' := by
  obtain ⟨⟨book, _, freeId, freeUid⟩, rfl⟩ := insert_ok done
  refine ⟨?_, ?_, ?_, ?_, ?_⟩
  · rw [List.map_append, List.nodup_append]
    refine ⟨coherent.ids, by simp, ?_⟩
    intro a old b new
    obtain ⟨c, member, rfl⟩ := List.mem_map.mp old
    rw [List.mem_singleton.mp new]
    exact freeId c member
  · rw [List.map_append, List.nodup_append]
    refine ⟨coherent.keys, by simp, ?_⟩
    intro a old b new
    obtain ⟨c, member, rfl⟩ := List.mem_map.mp old
    rw [List.mem_singleton.mp new]
    intro same
    have taken := under_iff.2 same
    rw [freeUid c member] at taken
    cases taken
  · intro c member
    rcases List.mem_append.mp member with old | new
    · exact coherent.owned c old
    · rw [List.mem_singleton.mp new]
      exact book
  · intro r member
    obtain ⟨c, old, same⟩ := coherent.emails r member
    exact ⟨c, List.mem_append_left _ old, same⟩
  · intro r member
    obtain ⟨c, old, same⟩ := coherent.addresses r member
    exact ⟨c, List.mem_append_left _ old, same⟩

/-- A row is changed in its address book. -/
theorem Coherent.rewrite (coherent : Coherent t) {old : Contact} (member : old ∈ t.contacts)
    (sameBook : row.addressbookId = old.addressbookId) (sameTenant : row.tenantId = old.tenantId)
    (done : t.rewrite row = .ok t') : Coherent t' := by
  obtain ⟨⟨_, free⟩, rfl⟩ := rewrite_ok done
  have ids : (t.contacts.map fun c => if c.id = row.id then row else c).map (·.id) =
      t.contacts.map (·.id) := by
    rw [List.map_map]
    apply List.map_congr_left
    intro c _
    show (if c.id = row.id then row else c).id = c.id
    split_ifs with same
    · exact same.symm
    · rfl
  have kept : ∀ i, (∃ c ∈ t.contacts, c.id = i) →
      ∃ c ∈ t.contacts.map fun c => if c.id = row.id then row else c, c.id = i := by
    intro i present
    have listed : i ∈ t.contacts.map (·.id) := List.mem_map.mpr present
    rw [← ids] at listed
    exact List.mem_map.mp listed
  refine ⟨?_, ?_, ?_, ?_, ?_⟩
  · rw [ids]
    exact coherent.ids
  · rw [List.map_map]
    apply List.Nodup.map_on _ (List.Nodup.of_map _ coherent.ids)
    intro c listed c' listed' same
    have clash (d : Contact) (among : d ∈ t.contacts) (other : d.id ≠ row.id)
        (taken : (d.addressbookId, d.uid) = (row.addressbookId, row.uid)) : False := by
      have under := under_iff.2 taken
      rw [free d among other] at under
      cases under
    by_cases here : c.id = row.id
    · by_cases here' : c'.id = row.id
      · exact List.inj_on_of_nodup_map coherent.ids listed listed' (here.trans here'.symm)
      · simp only [Function.comp_apply, if_pos here, if_neg here'] at same
        exact (clash c' listed' here' same.symm).elim
    · by_cases here' : c'.id = row.id
      · simp only [Function.comp_apply, if_pos here', if_neg here] at same
        exact (clash c listed here same).elim
      · simp only [Function.comp_apply, if_neg here', if_neg here] at same
        exact List.inj_on_of_nodup_map coherent.keys listed listed' same
  · intro c member'
    obtain ⟨c₀, listed, rfl⟩ := List.mem_map.mp member'
    split_ifs
    · rw [sameBook, sameTenant]
      exact coherent.owned old member
    · exact coherent.owned c₀ listed
  · intro r listed
    exact kept _ (coherent.emails r listed)
  · intro r listed
    exact kept _ (coherent.addresses r listed)

theorem Coherent.remove (coherent : Coherent t) (selected : Contact → Bool) :
    Coherent (t.remove selected) := by
  have kept : ∀ i, (∃ c ∈ t.contacts, c.id = i) →
      (!t.contacts.any fun c => selected c && c.id = i) = true →
      ∃ c ∈ t.contacts.filter (!selected ·), c.id = i := by
    rintro i ⟨c, member, same⟩ stays
    refine ⟨c, List.mem_filter.mpr ⟨member, ?_⟩, same⟩
    by_contra chosen
    have gone : (t.contacts.any fun c => selected c && c.id = i) = true :=
      List.any_eq_true.mpr ⟨c, member, by simpa [same] using chosen⟩
    rw [gone] at stays
    cases stays
  refine ⟨?_, ?_, ?_, ?_, ?_⟩
  · exact coherent.ids.sublist (List.filter_sublist.map _)
  · exact coherent.keys.sublist (List.filter_sublist.map _)
  · exact fun c member => coherent.owned c (List.mem_of_mem_filter member)
  · intro r member
    obtain ⟨old, stays⟩ := List.mem_filter.mp member
    exact kept _ (coherent.emails r old) stays
  · intro r member
    obtain ⟨old, stays⟩ := List.mem_filter.mp member
    exact kept _ (coherent.addresses r old) stays

theorem Coherent.syncEmails (coherent : Coherent t) {c : Contact} (member : c ∈ t.contacts)
    (tenant : Uuid) (emails : List ContactEmail) : Coherent (syncEmails tenant c.id emails t) := by
  refine ⟨coherent.ids, coherent.keys, coherent.owned, ?_, coherent.addresses⟩
  intro r listed
  rcases List.mem_append.mp listed with old | new
  · exact coherent.emails r (List.mem_of_mem_filter old)
  · obtain ⟨i, _, rfl⟩ := List.mem_mapIdx.mp new
    exact ⟨c, member, rfl⟩

theorem Coherent.syncAddresses (coherent : Coherent t) {c : Contact} (member : c ∈ t.contacts)
    (tenant : Uuid) (addresses : List ContactAddress) :
    Coherent (syncAddresses tenant c.id addresses t) := by
  refine ⟨coherent.ids, coherent.keys, coherent.owned, coherent.emails, ?_⟩
  intro r listed
  rcases List.mem_append.mp listed with old | new
  · exact coherent.addresses r (List.mem_of_mem_filter old)
  · obtain ⟨i, _, rfl⟩ := List.mem_mapIdx.mp new
    exact ⟨c, member, rfl⟩

end

/-! ### What a write leaves elsewhere -/

/-- The tables agree on every other contact. -/
structure Elsewhere (i : Uuid) (t t' : Tables) : Prop where
  contacts : ∀ c, c.id ≠ i → (c ∈ t'.contacts ↔ c ∈ t.contacts)
  emails : ∀ j, j ≠ i → t'.emailsOf j = t.emailsOf j
  addresses : ∀ j, j ≠ i → t'.addressesOf j = t.addressesOf j

theorem Elsewhere.trans {i : Uuid} {t u v : Tables} (first : Elsewhere i t u)
    (second : Elsewhere i u v) : Elsewhere i t v where
  contacts c other := (second.contacts c other).trans (first.contacts c other)
  emails j other := (second.emails j other).trans (first.emails j other)
  addresses j other := (second.addresses j other).trans (first.addresses j other)

section
variable {t t' : Tables} {row : Contact}

theorem elsewhere_insert (done : t.insert row = .ok t') : Elsewhere row.id t t' := by
  obtain ⟨_, rfl⟩ := insert_ok done
  refine ⟨fun c other => ?_, fun _ _ => rfl, fun _ _ => rfl⟩
  have new : c ≠ row := fun same => other (congrArg (·.id) same)
  simp [new]

theorem elsewhere_rewrite (done : t.rewrite row = .ok t') : Elsewhere row.id t t' := by
  obtain ⟨_, rfl⟩ := rewrite_ok done
  refine ⟨fun c other => ?_, fun _ _ => rfl, fun _ _ => rfl⟩
  constructor
  · intro member
    obtain ⟨old, listed, same⟩ := List.mem_map.mp member
    split_ifs at same with here
    · rw [← same] at other
      exact absurd rfl other
    · exact same ▸ listed
  · intro listed
    exact List.mem_map.mpr ⟨c, listed, if_neg other⟩

theorem filter_sync {α : Type} (owner : α → Uuid) (stays : α → Bool) {i j : Uuid} (other : j ≠ i)
    {old new : List α} (kept : ∀ r ∈ old, owner r ≠ i → stays r = true)
    (fresh : ∀ r ∈ new, owner r = i) :
    (old.filter stays ++ new).filter (owner · = j) = old.filter (owner · = j) := by
  have none : new.filter (owner · = j) = [] := by
    rw [List.filter_eq_nil_iff]
    intro r member same
    exact other ((of_decide_eq_true same).symm.trans (fresh r member))
  rw [List.filter_append, none, List.append_nil, List.filter_filter]
  apply List.filter_congr
  intro r member
  by_cases mine : owner r = j
  · rw [decide_eq_true mine, kept r member (mine ▸ other), Bool.and_self]
  · rw [decide_eq_false mine, Bool.false_and]

theorem elsewhere_syncEmails (tenant i : Uuid) (emails : List ContactEmail) (t : Tables) :
    Elsewhere i t (syncEmails tenant i emails t) where
  contacts _ _ := Iff.rfl
  emails j other := by
    apply filter_sync EmailRow.contactId
      (fun r => !(r.tenantId = tenant && r.contactId = i)) other
    · intro r _ mine
      simp [mine]
    · intro r member
      obtain ⟨_, _, rfl⟩ := List.mem_mapIdx.mp member
      rfl
  addresses _ _ := rfl

theorem elsewhere_syncAddresses (tenant i : Uuid) (addresses : List ContactAddress) (t : Tables) :
    Elsewhere i t (syncAddresses tenant i addresses t) where
  contacts _ _ := Iff.rfl
  emails _ _ := rfl
  addresses j other := by
    apply filter_sync AddressRow.contactId
      (fun r => !(r.tenantId = tenant && r.contactId = i)) other
    · intro r _ mine
      simp [mine]
    · intro r member
      obtain ⟨_, _, rfl⟩ := List.mem_mapIdx.mp member
      rfl

end

/-! ### The writes by their rows -/

namespace ContactRepo
variable {crates : Crates} {tenant book id : Uuid} {raw : Str} {t t' : Tables} {row : Contact}

theorem parsed_ok {p : ParsedVCard} : parsed raw = .ok p ↔ parse raw = .ok p := by
  unfold parsed
  cases parse raw <;> simp [Except.mapError]

theorem create_ok (done : create crates tenant book id raw t = .ok (t', row)) :
    ∃ p t₁, parse raw = .ok p ∧
      row = ⟨p.columns, id, book, tenant, computeEtag crates raw, raw⟩ ∧ t.insert row = .ok t₁ ∧
      t' = syncAddresses tenant row.id p.addresses (syncEmails tenant row.id p.emails t₁) := by
  obtain ⟨p, read, rest⟩ := bind_eq_ok_iff.mp done
  obtain ⟨t₁, written, result⟩ := bind_eq_ok_iff.mp rest
  obtain ⟨rfl, rfl⟩ := Prod.mk.inj (Except.ok.inj result)
  exact ⟨p, t₁, parsed_ok.1 read, rfl, written, rfl⟩

theorem update_ok (done : update crates tenant id raw t = .ok (t', row)) :
    ∃ p old t₁, parse raw = .ok p ∧ old ∈ t.contacts ∧ old.tenantId = tenant ∧ old.id = id ∧
      row = ⟨p.columns, id, old.addressbookId, tenant, computeEtag crates raw, raw⟩ ∧
      t.rewrite row = .ok t₁ ∧
      t' = syncAddresses tenant id p.addresses (syncEmails tenant id p.emails t₁) := by
  obtain ⟨p, read, rest⟩ := bind_eq_ok_iff.mp done
  split at rest
  · cases rest
  · next old found =>
    obtain ⟨t₁, written, result⟩ := bind_eq_ok_iff.mp rest
    obtain ⟨rfl, rfl⟩ := Prod.mk.inj (Except.ok.inj result)
    have mine := List.find?_some found
    simp only [Bool.and_eq_true, decide_eq_true_eq] at mine
    obtain ⟨rfl, rfl⟩ := mine
    exact ⟨p, old, t₁, parsed_ok.1 read, List.mem_of_find?_eq_some found, rfl, rfl, rfl, written,
      rfl⟩

/-- The row that `replaceByUid` writes, in the place of an old one or of none. -/
def replacement (crates : Crates) (tenant book id : Uuid) (raw : Str) (p : ParsedVCard)
    (old : Option Contact) : Contact where
  toColumns := { p.columns with
    birthday := old.bind (·.birthday)
    nickname := old.bind (·.nickname) }
  id := (old.map (·.id)).getD id
  addressbookId := book
  tenantId := tenant
  etag := computeEtag crates raw
  vcardRaw := raw

theorem replaceByUid_ok : replaceByUid crates tenant book id raw t = .ok (t', row) ↔
    ∃ p, parse raw = .ok p ∧
      row = replacement crates tenant book id raw p (t.contacts.find? (·.under book p.uid)) ∧
      match t.contacts.find? (·.under book p.uid) with
      | none => t.insert row = .ok t'
      | some old => old.tenantId = tenant ∧ t.rewrite row = .ok t' := by
  unfold replaceByUid
  rw [bind_eq_ok_iff]
  apply exists_congr
  intro p
  rw [parsed_ok]
  apply and_congr_right
  intro _
  cases found : t.contacts.find? (·.under book p.uid) with
  | none =>
    constructor
    · intro done
      obtain ⟨t₁, written, result⟩ := bind_eq_ok_iff.mp done
      obtain ⟨rfl, rfl⟩ := Prod.mk.inj (Except.ok.inj result)
      exact ⟨rfl, written⟩
    · rintro ⟨rfl, written⟩
      exact bind_eq_ok_iff.mpr ⟨t', written, rfl⟩
  | some old =>
    have under := List.find?_some found
    simp only [Contact.under, Bool.and_eq_true, decide_eq_true_eq] at under
    obtain ⟨rfl, _⟩ := under
    by_cases mine : old.tenantId = tenant
    · subst mine
      show (if old.tenantId = old.tenantId then _ else _ : Except ContactsError _) = _ ↔ _
      rw [if_pos rfl]
      constructor
      · intro done
        obtain ⟨t₁, written, result⟩ := bind_eq_ok_iff.mp done
        obtain ⟨rfl, rfl⟩ := Prod.mk.inj (Except.ok.inj result)
        exact ⟨rfl, rfl, written⟩
      · rintro ⟨rfl, _, written⟩
        exact bind_eq_ok_iff.mpr ⟨t', written, rfl⟩
    · show (if old.tenantId = tenant then _ else _ : Except ContactsError _) = _ ↔ _
      rw [if_neg mine]
      constructor
      · intro done
        cases done
      · rintro ⟨_, other, _⟩
        exact absurd other mine

end ContactRepo

section
variable {t t' : Tables} {row : Contact}

theorem stored_insert (done : t.insert row = .ok t') : row ∈ t'.contacts := by
  obtain ⟨_, rfl⟩ := insert_ok done
  exact List.mem_append_right _ List.mem_cons_self

theorem stored_rewrite {old : Contact} (member : old ∈ t.contacts) (same : old.id = row.id)
    (done : t.rewrite row = .ok t') : row ∈ t'.contacts := by
  obtain ⟨_, rfl⟩ := rewrite_ok done
  exact List.mem_map.mpr ⟨old, member, if_pos same⟩

/-- A successful write leaves the row in the tables and every other contact as it was. -/
structure Saved (row : Contact) (t t' : Tables) : Prop where
  coherent : Coherent t'
  stored : row ∈ t'.contacts
  elsewhere : Elsewhere row.id t t'

theorem Saved.sync (saved : Saved row t t') (tenant : Uuid) (p : ParsedVCard) :
    Saved row t
      (syncAddresses tenant row.id p.addresses (syncEmails tenant row.id p.emails t')) where
  coherent :=
    (saved.coherent.syncEmails saved.stored tenant p.emails).syncAddresses saved.stored tenant
      p.addresses
  stored := saved.stored
  elsewhere := saved.elsewhere.trans ((elsewhere_syncEmails tenant row.id p.emails t').trans
    (elsewhere_syncAddresses tenant row.id p.addresses _))

theorem saved_insert (coherent : Coherent t) (done : t.insert row = .ok t') : Saved row t t' :=
  ⟨coherent.insert done, stored_insert done, elsewhere_insert done⟩

theorem saved_rewrite (coherent : Coherent t) (done : t.rewrite row = .ok t') {old : Contact}
    (member : old ∈ t.contacts) (same : old.id = row.id)
    (book : row.addressbookId = old.addressbookId) (tenant : row.tenantId = old.tenantId) :
    Saved row t t' :=
  ⟨coherent.rewrite member book tenant done, stored_rewrite member same done,
    elsewhere_rewrite done⟩

variable {crates : Crates} {tenant book id : Uuid} {raw : Str}

theorem saved_create (coherent : Coherent t)
    (done : ContactRepo.create crates tenant book id raw t = .ok (t', row)) : Saved row t t' := by
  obtain ⟨p, t₁, _, _, written, rfl⟩ := ContactRepo.create_ok done
  exact (saved_insert coherent written).sync tenant p

theorem saved_update (coherent : Coherent t)
    (done : ContactRepo.update crates tenant id raw t = .ok (t', row)) : Saved row t t' := by
  obtain ⟨p, old, t₁, _, member, rfl, rfl, rfl, written, rfl⟩ := ContactRepo.update_ok done
  exact (saved_rewrite coherent written member rfl rfl rfl).sync old.tenantId p

theorem saved_replaceByUid (coherent : Coherent t)
    (done : ContactRepo.replaceByUid crates tenant book id raw t = .ok (t', row)) :
    Saved row t t' := by
  obtain ⟨p, _, shape, written⟩ := ContactRepo.replaceByUid_ok.mp done
  cases found : t.contacts.find? (·.under book p.uid) with
  | none =>
    rw [found] at written
    exact saved_insert coherent written
  | some old =>
    rw [found] at written shape
    have under := List.find?_some found
    simp only [Contact.under, Bool.and_eq_true, decide_eq_true_eq] at under
    rw [shape] at written ⊢
    exact saved_rewrite coherent written.2 (List.mem_of_find?_eq_some found) rfl under.1.symm
      written.1.symm

theorem saved_result {x : Except ContactsError (Tables × Contact)}
    (saved : ∀ t' row, x = .ok (t', row) → Coherent t') (coherent : Coherent t) :
    Coherent ((x.map (·.1)).toOption.getD t) := by
  cases x with
  | error _ => exact coherent
  | ok result => exact saved result.1 result.2 rfl

theorem Coherent.after (coherent : Coherent t) (command : Command) :
    Coherent (t.after crates command) := by
  cases command with
  | create tenant book id raw =>
    exact saved_result (fun _ _ done => (saved_create coherent done).coherent) coherent
  | update tenant id raw =>
    exact saved_result (fun _ _ done => (saved_update coherent done).coherent) coherent
  | replaceByUid tenant book id raw =>
    exact saved_result (fun _ _ done => (saved_replaceByUid coherent done).coherent) coherent
  | delete tenant id => exact coherent.remove _
  | deleteByUid tenant book uid => exact coherent.remove _

end

/-! ### Texts under their UID -/

/-- The text is stored under the UID that it has. -/
def Contact.Keyed (c : Contact) : Prop :=
  '\x00' ∉ c.vcardRaw ∧ ∃ p, parse c.vcardRaw = .ok p ∧ p.uid = c.uid

def Keyed (t : Tables) : Prop := ∀ c ∈ t.contacts, c.Keyed

/-- A contact that has the text as its card has the UID of the card. -/
theorem Contact.Keyed.uid_eq {c : Contact} (keyed : c.Keyed) {raw : Str} (text : c.vcardRaw = raw)
    {p : ParsedVCard} (read : parse raw = .ok p) : c.uid = p.uid := by
  obtain ⟨_, q, read', uid⟩ := keyed
  rw [text] at read'
  cases read.symm.trans read'
  exact uid.symm

section
variable {crates : Crates} {t t' : Tables} {row : Contact}

theorem admitted_plain (done : t.insert row = .ok t') : '\x00' ∉ row.vcardRaw :=
  (insert_ok done).1.2.1

theorem allowed_plain (done : t.rewrite row = .ok t') : '\x00' ∉ row.vcardRaw :=
  (rewrite_ok done).1.1

theorem keyed_saved (keyed : Keyed t) (saved : Saved row t t') (own : row.Keyed) : Keyed t' := by
  intro c member
  by_cases same : c.id = row.id
  · have one := List.inj_on_of_nodup_map saved.coherent.ids member saved.stored same
    exact one ▸ own
  · exact keyed c ((saved.elsewhere.contacts c same).mp member)

theorem keyed_replaceByUid {tenant book id : Uuid} {raw : Str}
    (done : ContactRepo.replaceByUid crates tenant book id raw t = .ok (t', row)) : row.Keyed := by
  obtain ⟨p, read, shape, written⟩ := ContactRepo.replaceByUid_ok.mp done
  refine ⟨?_, p, ?_, ?_⟩
  · cases found : t.contacts.find? (·.under book p.uid) with
    | none =>
      rw [found] at written
      exact admitted_plain written
    | some old =>
      rw [found] at written
      exact allowed_plain written.2
  · rw [shape]
    exact read
  · rw [shape]
    rfl

theorem keyed_result {x : Except ContactsError (Tables × Contact)} (keyed : Keyed t)
    (saved : ∀ t' row, x = .ok (t', row) → Saved row t t' ∧ row.Keyed) :
    Keyed ((x.map (·.1)).toOption.getD t) := by
  cases x with
  | error _ => exact keyed
  | ok result =>
    obtain ⟨written, own⟩ := saved result.1 result.2 rfl
    exact keyed_saved keyed written own

theorem Keyed.after (keyed : Keyed t) (coherent : Coherent t) (command : Command) :
    Keyed (t.after crates command) := by
  cases command with
  | create tenant book id raw =>
    apply keyed_result keyed
    intro t' row done
    obtain ⟨p, t₁, read, shape, written, _⟩ := ContactRepo.create_ok done
    refine ⟨saved_create coherent done, admitted_plain written, p, ?_, ?_⟩
    · rw [shape]
      exact read
    · rw [shape]
      rfl
  | update tenant id raw =>
    apply keyed_result keyed
    intro t' row done
    obtain ⟨p, old, t₁, read, _, _, _, shape, written, _⟩ := ContactRepo.update_ok done
    refine ⟨saved_update coherent done, allowed_plain written, p, ?_, ?_⟩
    · rw [shape]
      exact read
    · rw [shape]
      rfl
  | replaceByUid tenant book id raw =>
    apply keyed_result keyed
    exact fun t' row done => ⟨saved_replaceByUid coherent done, keyed_replaceByUid done⟩
  | delete tenant id => exact fun c member => keyed c (List.mem_of_mem_filter member)
  | deleteByUid tenant book uid => exact fun c member => keyed c (List.mem_of_mem_filter member)

end

/-- One write of the service. -/
def Store.step (crates : Crates) (s : Store) (command : Command) : Store :=
  ⟨s.toTables.after crates command, s.coherent.after command⟩

end Expresso.Contacts
