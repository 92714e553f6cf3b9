import Expresso.CalDav.Replace
import Expresso.Contacts.Replace
import Expresso.Eas.Commands
import Expresso.Eas.Delivery

/-! What a `Change` or a `Delete` of a device does to the contact or the event that was sent under
its `ServerId`. The id of the row goes out; the UID of the row selects what an upload replaces. -/

namespace Expresso.Eas
open Text Wbxml
open CalDav (Timestamp parseVevent)
open Contacts (Contact)
open Imap (Uuid)

/-! ### Items that are sent -/

/-- Nothing for a text that is missing or empty. -/
def pushOpt (page token : UInt8) : Option Str → List Event
  | some (c :: text) => pushText page token (c :: text)
  | _ => []

/-- An `Add` of an item with its data. -/
def addItem (serverId : Str) (data : List Event) : List Event :=
  start Page.airSync AirSync.add :: (pushText Page.airSync AirSync.serverId serverId ++
    start Page.airSync AirSync.applicationData :: (data ++ [.endElement, .endElement]))

/-- The compact date-time; none outside the range of dates. -/
def easDt (t : Timestamp) : Option Str :=
  (CalDav.ofTimestamp t).map fun d =>
    let seconds := d.nanos / 1000000000
    padded 4 d.date.year ++ padded 2 d.date.month.number ++ padded 2 d.date.day ++ 'T' ::
      (padded 2 (seconds / 3600) ++ padded 2 (seconds / 60 % 60) ++ padded 2 (seconds % 60) ++
        ['Z'])

def contactData (c : Contact) : List Event :=
  pushOpt Page.contacts ContactToken.fileAs c.fullName ++
    pushOpt Page.contacts ContactToken.firstName c.givenName ++
    pushOpt Page.contacts ContactToken.lastName c.familyName ++
    pushOpt Page.contacts ContactToken.companyName c.organization ++
    pushOpt Page.contacts ContactToken.email1Address c.emailPrimary ++
    pushOpt Page.contacts ContactToken.mobilePhone c.phonePrimary

def eventData (e : CalDav.Event) : List Event :=
  let optional (token : UInt8) (text : Option Str) : List Event :=
    text.elim [] (pushText Page.calendar token)
  pushText Page.calendar CalendarToken.uid e.uid ++
    optional CalendarToken.subject e.summary ++
    optional CalendarToken.location e.location ++
    optional CalendarToken.startTime (e.dtstart.bind easDt) ++
    optional CalendarToken.endTime (e.dtend.bind easDt)

/-- The items of a collection, in the window that a response has. The order of names is that of
the database. -/
def loadContacts (le : Str → Str → Bool) (tenant book : Uuid) (t : Contacts.Tables) :
    List Contact :=
  ((t.contacts.filter fun c => c.addressbookId = book && c.tenantId = tenant).mergeSort
    fun a b => le (a.fullName.getD []) (b.fullName.getD [])).take windowSize

def loadEvents (tenant calendar : Uuid) (s : CalDav.Store) : List CalDav.Event :=
  ((s.events.filter fun e => e.calendarId = calendar && e.tenantId = tenant).mergeSort
    fun a b => a.dtstart.elim b.dtstart.isNone fun first =>
      b.dtstart.elim true fun second => first ≤ second).take windowSize

/-- What `ok` encodes, for contacts and for events. -/
def collectionOk (collectionId : Str) (key : Int) (items : List (List Event)) : List Event :=
  [start Page.airSync AirSync.sync, start Page.airSync AirSync.collections,
    start Page.airSync AirSync.collection] ++
  pushText Page.airSync AirSync.syncKey (display key) ++
  pushText Page.airSync AirSync.collectionId collectionId ++
  pushText Page.airSync AirSync.status ['1'] ++
  (if items.isEmpty then []
    else start Page.airSync AirSync.commands :: items.flatten ++ [.endElement]) ++
  [.endElement, .endElement, .endElement]

section
variable (crates : Crates)

def pushContact (c : Contact) : List Event := addItem (crates.showUuid c.id) (contactData c)

def pushEvent (e : CalDav.Event) : List Event := addItem (crates.showUuid e.id) (eventData e)

def contactsOk (le : Str → Str → Bool) (tenant book : Uuid) (collectionId : Str) (key : Int)
    (t : Contacts.Tables) : List Event :=
  collectionOk collectionId key ((loadContacts le tenant book t).map (pushContact crates))

def calendarOk (tenant calendar : Uuid) (collectionId : Str) (key : Int) (s : CalDav.Store) :
    List Event :=
  collectionOk collectionId key ((loadEvents tenant calendar s).map (pushEvent crates))

end

/-! ### What goes out -/

section
variable {crates : Crates}

theorem not_mem_pushOpt {page token : UInt8} (text : Option Str) (other : page ≠ Page.airSync) :
    start Page.airSync AirSync.add ∉ pushOpt page token text := by
  match text with
  | none => exact List.not_mem_nil
  | some [] => exact List.not_mem_nil
  | some (c :: rest) => exact not_mem_pushText (c :: rest) (.inl other)

theorem addedIds_addItem (serverId : Str) {data : List Event}
    (noAdd : start Page.airSync AirSync.add ∉ data) (rest : List Event) :
    addedIds (addItem serverId data ++ rest) = serverId :: addedIds rest := by
  have tail : start Page.airSync AirSync.add ∉ (addItem serverId data).tail := by
    have id := @not_mem_pushText Page.airSync AirSync.serverId serverId (.inr (by decide))
    have inner := @start_add_ne Page.airSync AirSync.applicationData (.inr (by decide))
    have ends : start Page.airSync AirSync.add ≠ .endElement := nofun
    simp [addItem, id, inner, noAdd, ends]
  calc addedIds (addItem serverId data ++ rest)
      = serverId :: addedIds ((addItem serverId data).tail ++ rest) := rfl
    _ = serverId :: addedIds rest := by rw [addedIds_append_of_not_mem rest tail]

theorem addedIds_collectionOk {α : Type} (collectionId : Str) (key : Int) (items : List α)
    (serverId : α → Str) (data : α → List Event)
    (noAdd : ∀ a, start Page.airSync AirSync.add ∉ data a) :
    addedIds (collectionOk collectionId key (items.map fun a => addItem (serverId a) (data a))) =
      items.map serverId := by
  have head : start Page.airSync AirSync.add ∉
      [start Page.airSync AirSync.sync, start Page.airSync AirSync.collections,
        start Page.airSync AirSync.collection] ++
      pushText Page.airSync AirSync.syncKey (display key) ++
      pushText Page.airSync AirSync.collectionId collectionId ++
      pushText Page.airSync AirSync.status ['1'] := by
    simp only [List.mem_append, not_or]
    refine ⟨⟨⟨by decide, ?_⟩, ?_⟩, ?_⟩
    all_goals exact not_mem_pushText _ (by decide)
  have adds (items : List α) (rest : List Event) :
      addedIds ((items.map fun a => addItem (serverId a) (data a)).flatten ++ rest) =
        items.map serverId ++ addedIds rest := by
    induction items with
    | nil => rfl
    | cons a others ih =>
      rw [List.map_cons, List.flatten_cons, List.append_assoc, addedIds_addItem _ (noAdd a), ih]
      rfl
  unfold collectionOk
  rw [List.append_assoc _ (ite _ _ _), addedIds_append_of_not_mem _ head]
  cases items with
  | nil => rfl
  | cons a others =>
    rw [List.isEmpty_map, List.isEmpty_cons, if_neg Bool.false_ne_true, List.append_assoc,
      List.cons_append]
    exact (adds (a :: others) _).trans (List.append_nil _)

/-- A contact is sent under the text of its id. -/
theorem addedIds_contactsOk (le : Str → Str → Bool) (tenant book : Uuid) (collectionId : Str)
    (key : Int) (t : Contacts.Tables) :
    addedIds (contactsOk crates le tenant book collectionId key t) =
      (loadContacts le tenant book t).map fun c => crates.showUuid c.id := by
  apply addedIds_collectionOk
  intro c
  have away : Page.contacts ≠ Page.airSync := by decide
  simp only [contactData, List.mem_append, not_or, not_mem_pushOpt _ away, not_false_eq_true,
    and_self]

/-- An event is sent under the text of its id. -/
theorem addedIds_calendarOk (tenant calendar : Uuid) (collectionId : Str) (key : Int)
    (s : CalDav.Store) :
    addedIds (calendarOk crates tenant calendar collectionId key s) =
      (loadEvents tenant calendar s).map fun e => crates.showUuid e.id := by
  apply addedIds_collectionOk
  intro e
  have away : Page.calendar ≠ Page.airSync := by decide
  have optional (token : UInt8) (text : Option Str) :
      start Page.airSync AirSync.add ∉ text.elim [] (pushText Page.calendar token) := by
    cases text with
    | none => exact List.not_mem_nil
    | some v => exact not_mem_pushText v (.inl away)
  simp only [eventData, List.mem_append, not_or, optional, not_false_eq_true, and_true]
  exact not_mem_pushText e.uid (.inl away)

end

/-! ### Commands that arrive -/

section
variable (crates : Crates) (service : CalDav.Crates) (tenant collection fresh : Uuid)

/-- A call of the contacts service, in a transaction of its own. -/
def ConCommand.apply : ConCommand → Contacts.Tables → Contacts.Tables
  | upsert u, t => t.after service (.replaceByUid tenant collection fresh u.buildVcard)
  | delete contactId, t => match crates.parseUuid contactId with
      | some id => t.after service (.delete tenant id)
      | none => t

/-- A call of the calendar service. -/
def CalCommand.apply (now : Timestamp) : CalCommand → CalDav.Store → CalDav.Store
  | upsert u, s => s.afterReplace service tenant collection u.buildVevent fresh now
  | delete eventId, s => match crates.parseUuid eventId with
      | some id => s.afterDelete tenant id now
      | none => s

end

section
variable (crates : Crates) (service : CalDav.Crates) (newUid : Nat → Str) (fresh : Nat → Uuid)
  (now : Nat → Timestamp) (tenant collection : Uuid) (body : List UInt8)

/-- A call that fails is logged, and the next command follows. -/
def applyContactChanges (t : Contacts.Tables) : Contacts.Tables :=
  (parseContactCommands newUid body).zipIdx.foldl
    (fun t numbered => numbered.1.apply crates service tenant collection (fresh numbered.2) t) t

def applyCalendarChanges (s : CalDav.Store) : CalDav.Store :=
  (parseCalendarCommands body).zipIdx.foldl
    (fun s numbered =>
      numbered.1.apply crates service tenant collection (fresh numbered.2) (now numbered.2) s) s

end

/-! ### Edits in place -/

/-- A row that a device has been sent. -/
inductive Item where
  | contact (c : Contact)
  | event (e : CalDav.Event)
  deriving DecidableEq

/-- A `Change` with the fields that it gives, or a `Delete`. -/
inductive Edit where
  | change (fields : List (UInt8 × Str))
  | delete
  deriving DecidableEq

structure Services where
  contacts : Contacts.Tables
  calendar : CalDav.Store

namespace Item

def id : Item → Uuid
  | contact c => c.id
  | event e => e.id

def page : Item → UInt8
  | contact _ => Page.contacts
  | event _ => Page.calendar

/-- The row is in the collection. -/
def Listed (tenant collection : Uuid) (s : Services) : Item → Prop
  | contact c => c ∈ s.contacts.contacts ∧ c.tenantId = tenant ∧ c.addressbookId = collection
  | event e => e ∈ s.calendar.events ∧ e.tenantId = tenant ∧ e.calendarId = collection

end Item

/-- The command that carries the `ServerId` of an item. -/
def Edit.command (crates : Crates) (item : Item) : Edit → List Event
  | change fields => changeItem (crates.showUuid item.id) item.page fields
  | delete => deleteItem (crates.showUuid item.id)

/-- The contact that a `Change` uploads. -/
def uploadedContact (sid : Str) (fields : List (UInt8 × Str)) : ContactUpsert :=
  .ofValues sid (fieldValues Page.contacts fields fun _ => none)

/-- The event that a `Change` uploads, under the UID that is given or else under the `ServerId`. -/
def uploadedEvent (sid : Str) (fields : List (UInt8 × Str)) : EventUpsert :=
  let v := fieldValues Page.calendar fields fun _ => none
  .ofValues ((v (Page.calendar, CalendarToken.uid)).getD sid) v

section
variable (crates : Crates) (service : CalDav.Crates) (newUid : Nat → Str) (fresh : Nat → Uuid)
  (now : Nat → Timestamp) (tenant collection : Uuid) (body : List UInt8)

/-- The stores after a request for the collection of an item. -/
def Services.after (s : Services) : Item → Services
  | .contact _ => { s with
      contacts := applyContactChanges crates service newUid fresh tenant collection body
        s.contacts }
  | .event _ => { s with
      calendar := applyCalendarChanges crates service fresh now tenant collection body
        s.calendar }

/-- The item has the text that was written for the device, or is gone, and every other row of both
services is as it was. -/
def EditsInPlace (s s' : Services) : Item → Edit → Prop
  | .contact c, edit => s'.calendar = s.calendar ∧ Contacts.Elsewhere c.id s.contacts s'.contacts ∧
      match edit with
      | .change fields => ∃ row ∈ s'.contacts.contacts, row.id = c.id ∧
          row.vcardRaw = (uploadedContact (crates.showUuid c.id) fields).buildVcard
      | .delete => ∀ row ∈ s'.contacts.contacts, row.id ≠ c.id
  | .event e, edit => s'.contacts = s.contacts ∧
      (∀ x, x.id ≠ e.id → (x ∈ s'.calendar.events ↔ x ∈ s.calendar.events)) ∧
      match edit with
      | .change fields => ∃ row ∈ s'.calendar.events, row.id = e.id ∧
          row.icalRaw = (uploadedEvent (crates.showUuid e.id) fields).buildVevent
      | .delete => ∀ row ∈ s'.calendar.events, row.id ≠ e.id

/-- When an edit finds its item. A contact has the text of its id as its UID; the written event is
read with the UID of the event, and can be stored. -/
def FindsItem (s : Services) : Item → Edit → Prop
  | .contact _, .delete => True
  | .contact c, .change fields => c.uid = crates.showUuid c.id ∧
      '\x00' ∉ (uploadedContact (crates.showUuid c.id) fields).buildVcard
  | .event _, .delete => CalDav.ctagOf s.calendar.calendars tenant collection + 1 < 2 ^ 63
  | .event e, .change fields =>
      let raw := (uploadedEvent (crates.showUuid e.id) fields).buildVevent
      ∃ parsed, parseVevent service raw = .ok parsed ∧ parsed.uid = e.uid ∧
        (e.icalRaw = raw ∨ CalDav.AcceptedBody service raw parsed ∧
          CalDav.Writable service tenant collection (fresh 0) raw s.calendar parsed)

end

/-! ### The one command of a request -/

theorem fieldValues_update {page : UInt8} {tag : Tag} (away : tag.1 ≠ page) (text : Option Str)
    (fields : List (UInt8 × Str)) (v : Values) :
    fieldValues page fields (Function.update v tag text) =
      Function.update (fieldValues page fields v) tag text := by
  induction fields generalizing v with
  | nil => rfl
  | cons f rest ih =>
    have other : (page, f.1) ≠ tag := fun same => away (congrArg Prod.fst same).symm
    unfold fieldValues at ih ⊢
    rw [List.foldl_cons, List.foldl_cons, Function.update_comm other.symm, ih]

theorem serverIdTag_ne {page token : UInt8} (away : page ≠ Page.airSync) :
    (page, token) ≠ serverIdTag := fun same => away (congrArg Prod.fst same)

section
variable {syncKey collectionId sid : Str} {body : List UInt8} {newUid : Nat → Str}

theorem parse_contact_change {fields : List (UInt8 × Str)} (request : decode body =
      .ok (syncRequest syncKey collectionId (changeItem sid Page.contacts fields))) :
    parseContactCommands newUid body = [.upsert (uploadedContact sid fields)] := by
  have away : Page.contacts ≠ Page.airSync := by decide
  unfold parseContactCommands
  rw [request]
  show scanCommands _ _ = _
  rw [scan_change _ _ _ away, fieldValues_update away.symm]
  simp only [contactCommand, Bool.false_eq_true, if_false, Function.update_self, Option.isSome_some,
    true_or, if_true, Option.getD_some, uploadedContact, ContactUpsert.ofValues,
    Function.update_of_ne (serverIdTag_ne away)]

theorem parse_contact_delete (request : decode body =
      .ok (syncRequest syncKey collectionId (deleteItem sid))) :
    parseContactCommands newUid body = [.delete sid] := by
  unfold parseContactCommands
  rw [request]
  show scanCommands _ _ = _
  rw [scan_delete]
  simp only [contactCommand, if_true, Function.update_self, Option.toList_some, List.map_cons,
    List.map_nil]

theorem parse_event_change {fields : List (UInt8 × Str)} (request : decode body =
      .ok (syncRequest syncKey collectionId (changeItem sid Page.calendar fields))) :
    parseCalendarCommands body = [.upsert (uploadedEvent sid fields)] := by
  have away : Page.calendar ≠ Page.airSync := by decide
  unfold parseCalendarCommands
  rw [request]
  show scanCommands _ _ = _
  rw [scan_change _ _ _ away, fieldValues_update away.symm]
  simp only [calendarCommand, Bool.false_eq_true, if_false, Function.update_self, uploadedEvent,
    EventUpsert.ofValues, Function.update_of_ne (serverIdTag_ne away)]
  cases fieldValues Page.calendar fields (fun _ => none) (Page.calendar, CalendarToken.uid) <;> rfl

theorem parse_event_delete (request : decode body =
      .ok (syncRequest syncKey collectionId (deleteItem sid))) :
    parseCalendarCommands body = [.delete sid] := by
  unfold parseCalendarCommands
  rw [request]
  show scanCommands _ _ = _
  rw [scan_delete]
  simp only [calendarCommand, if_true, Function.update_self, Option.toList_some, List.map_cons,
    List.map_nil]

end

/-! ### The text of an id -/

/-- How the text of an id is read. -/
structure Shown (crates : Crates) (id : Uuid) : Prop where
  parsed : crates.parseUuid (crates.showUuid id) = some id
  nonempty : crates.showUuid id ≠ []
  letters : ∀ c ∈ crates.showUuid id, c = '-' ∨ c.isAlphanum = true

section
variable {crates : Crates}

theorem isWhitespace_of_letter {c : Char} (letter : c = '-' ∨ c.isAlphanum = true) :
    isWhitespace c = false := by
  have code : c.toNat = 45 ∨ (65 ≤ c.toNat ∧ c.toNat ≤ 90) ∨ (97 ≤ c.toNat ∧ c.toNat ≤ 122) ∨
      (48 ≤ c.toNat ∧ c.toNat ≤ 57) := by
    rcases letter with rfl | letter
    · exact .inl rfl
    · have same : c.val.toNat = c.toNat := rfl
      simp only [Char.isAlphanum, Char.isAlpha, Char.isUpper, Char.isLower, Char.isDigit,
        Bool.or_eq_true, Bool.and_eq_true, decide_eq_true_eq, UInt32.le_iff_toNat_le] at letter
      simp at letter
      omega
  unfold isWhitespace
  simp
  omega

theorem Shown.plain {id : Uuid} (shown : Shown crates id) :
    trim (crates.showUuid id) = crates.showUuid id ∧ '\n' ∉ crates.showUuid id := by
  have visible : ∀ c ∈ crates.showUuid id, isWhitespace c = false := fun c member =>
    isWhitespace_of_letter (shown.letters c member)
  refine ⟨trim_eq_self_iff.mpr ⟨?_, ?_⟩, ?_⟩
  · exact fun c head => visible c (List.mem_of_mem_head? head)
  · exact fun c last => visible c (List.mem_of_getLast? last)
  · intro inside
    exact absurd (visible _ inside) (by decide)

end

section
variable {crates : Crates} {service : CalDav.Crates} {newUid : Nat → Str} {fresh : Nat → Uuid}
  {now : Nat → Timestamp} {tenant collection : Uuid} {body : List UInt8}

section
variable {syncKey collectionId : Str} {id : Uuid}

theorem applyContactChanges_change {fields : List (UInt8 × Str)} (t : Contacts.Tables)
    (request : decode body = .ok (syncRequest syncKey collectionId
      (changeItem (crates.showUuid id) Page.contacts fields))) :
    applyContactChanges crates service newUid fresh tenant collection body t =
      t.after service (.replaceByUid tenant collection (fresh 0)
        (uploadedContact (crates.showUuid id) fields).buildVcard) := by
  unfold applyContactChanges
  rw [parse_contact_change request]
  simp only [List.zipIdx_singleton, List.foldl_cons, List.foldl_nil, ConCommand.apply]

theorem applyContactChanges_delete (shown : Shown crates id) (t : Contacts.Tables)
    (request : decode body = .ok (syncRequest syncKey collectionId
      (deleteItem (crates.showUuid id)))) :
    applyContactChanges crates service newUid fresh tenant collection body t =
      t.after service (.delete tenant id) := by
  unfold applyContactChanges
  rw [parse_contact_delete request]
  simp only [List.zipIdx_singleton, List.foldl_cons, List.foldl_nil, ConCommand.apply,
    shown.parsed]

theorem applyCalendarChanges_change {fields : List (UInt8 × Str)} (s : CalDav.Store)
    (request : decode body = .ok (syncRequest syncKey collectionId
      (changeItem (crates.showUuid id) Page.calendar fields))) :
    applyCalendarChanges crates service fresh now tenant collection body s =
      s.afterReplace service tenant collection
        (uploadedEvent (crates.showUuid id) fields).buildVevent (fresh 0) (now 0) := by
  unfold applyCalendarChanges
  rw [parse_event_change request]
  simp only [List.zipIdx_singleton, List.foldl_cons, List.foldl_nil, CalCommand.apply]

theorem applyCalendarChanges_delete (shown : Shown crates id) (s : CalDav.Store)
    (request : decode body = .ok (syncRequest syncKey collectionId
      (deleteItem (crates.showUuid id)))) :
    applyCalendarChanges crates service fresh now tenant collection body s =
      s.afterDelete tenant id (now 0) := by
  unfold applyCalendarChanges
  rw [parse_event_delete request]
  simp only [List.zipIdx_singleton, List.foldl_cons, List.foldl_nil, CalCommand.apply,
    shown.parsed]

end

/-- An edit under the `ServerId` of an item reaches that item and no other exactly when what was
sent also names the row to the service. The id names it for a deletion; an upload goes by the UID,
which for a contact has to be the text of the id. -/
theorem edit_in_place_iff {s : Services} {item : Item} (edit : Edit) {syncKey collectionId : Str}
    (shown : Shown crates item.id) (listed : item.Listed tenant collection s)
    (contacts : Contacts.Coherent s.contacts) (keyed : Contacts.Keyed s.contacts)
    (events : CalDav.Coherent service s.calendar.toTables)
    (request : decode body = .ok (syncRequest syncKey collectionId (edit.command crates item))) :
    EditsInPlace crates s
        (s.after crates service newUid fresh now tenant collection body item) item edit ↔
      FindsItem crates service fresh tenant collection s item edit := by
  cases item with
  | contact c =>
    obtain ⟨member, rfl, rfl⟩ := listed
    simp only [EditsInPlace, Services.after, FindsItem, true_and]
    cases edit with
    | change fields =>
      obtain ⟨p, read, uid⟩ := @ContactUpsert.parse_uid
        (uploadedContact (crates.showUuid c.id) fields) shown.nonempty shown.plain.1 shown.plain.2
      change decode body = .ok (syncRequest syncKey collectionId
        (changeItem (crates.showUuid c.id) Page.contacts fields)) at request
      rw [applyContactChanges_change s.contacts request,
        Contacts.replace_own_iff contacts keyed member read, uid]
      rfl
    | delete =>
      rw [applyContactChanges_delete shown s.contacts request]
      exact iff_of_true (Contacts.delete_own contacts member) trivial
  | event e =>
    obtain ⟨member, rfl, rfl⟩ := listed
    simp only [EditsInPlace, Services.after, FindsItem, true_and]
    cases edit with
    | change fields =>
      change decode body = .ok (syncRequest syncKey collectionId
        (changeItem (crates.showUuid e.id) Page.calendar fields)) at request
      rw [applyCalendarChanges_change s.calendar request]
      exact CalDav.replace_own_iff events member
    | delete =>
      rw [applyCalendarChanges_delete shown s.calendar request]
      exact CalDav.delete_own_iff events member

end

/-! ### A contact with a UID of its own -/

/-- A contact of an address book, its card under the UID. -/
def ana (uid : Str) : Contact where
  uid := uid
  fullName := some "Ana".toList
  familyName := none
  givenName := none
  organization := none
  emailPrimary := none
  phonePrimary := none
  birthday := none
  nickname := none
  id := 10
  addressbookId := 1
  tenantId := 1
  etag := []
  vcardRaw := "BEGIN:VCARD\r\nUID:".toList ++ uid ++ "\r\nFN:Ana\r\nEND:VCARD\r\n".toList

def oneContact (uid : Str) : Services where
  contacts := ⟨[⟨1, 1⟩], [ana uid], [], []⟩
  calendar := .empty

theorem oneContact_coherent (uid : Str) : Contacts.Coherent (oneContact uid).contacts where
  ids := List.nodup_singleton _
  keys := List.nodup_singleton _
  owned := by
    intro c member
    rw [List.mem_singleton.mp member]
    rfl
  emails := List.forall_mem_nil _
  addresses := List.forall_mem_nil _

theorem empty_coherent (service : CalDav.Crates) :
    CalDav.Coherent service CalDav.Store.empty.toTables :=
  ⟨List.forall_mem_nil _, List.forall_mem_nil _, List.forall_mem_nil _, List.Pairwise.nil⟩

def noDigest : CalDav.Crates := ⟨id, fun _ => none, fun _ => none⟩

def renameRequest : List Event :=
  syncRequest ['1'] "con:1".toList
    (changeItem (showHyphenated 10) Page.contacts [(ContactToken.firstName, "Eva".toList)])

/-- The contact is given another first name. -/
def renameContact : Edit := .change [(ContactToken.firstName, "Eva".toList)]

/-- The stores after the request. -/
def renamed (uid : Str) : Services :=
  (oneContact uid).after sampleCrates noDigest (fun _ => []) (fun _ => 20) (fun _ => 0) 1 1
    (encode renameRequest) (.contact (ana uid))

/-- A contact that a device has made. -/
theorem edit_in_place_device :
    EditsInPlace sampleCrates (oneContact (showHyphenated 10)) (renamed (showHyphenated 10))
      (.contact (ana (showHyphenated 10))) renameContact := by
  have letters : (sampleCrates.showUuid 10).all (fun c => c == '-' || c.isAlphanum) = true := by
    decide
  have shown : Shown sampleCrates 10 :=
    ⟨by decide, by decide, by simpa using letters⟩
  have read : (Contacts.parse (ana (showHyphenated 10)).vcardRaw).toOption.map (·.uid) =
      some (showHyphenated 10) := by decide
  have request : decode (encode renameRequest) = .ok renameRequest := by decide
  have listed : (Item.contact (ana (showHyphenated 10))).Listed 1 1
      (oneContact (showHyphenated 10)) := ⟨List.mem_singleton_self _, rfl, rfl⟩
  obtain ⟨p, parsed, uid⟩ := Option.map_eq_some_iff.mp read
  have keyed : Contacts.Keyed (oneContact (showHyphenated 10)).contacts := by
    intro c member
    rw [List.mem_singleton.mp member]
    exact ⟨by decide, p, Contacts.mem_toOption.mp parsed, uid⟩
  exact (edit_in_place_iff renameContact shown listed (oneContact_coherent _) keyed
    (empty_coherent noDigest) request).mpr ⟨rfl, by decide⟩

/-- A contact with a UID of its own: the change makes a second contact. -/
theorem edit_makes_second :
    (¬EditsInPlace sampleCrates (oneContact "abc".toList) (renamed "abc".toList)
      (.contact (ana "abc".toList)) renameContact) ∧
      (renamed "abc".toList).contacts.contacts.map (fun c => (c.id, c.givenName)) =
        [(10, none), (20, some "Eva".toList)] := by
  have after : (renamed "abc".toList).contacts.contacts.map (fun c => (c.id, c.givenName)) =
      [(10, none), (20, some "Eva".toList)] := by decide
  refine ⟨?_, after⟩
  intro ⟨_, elsewhere, _⟩
  have second : (20, some "Eva".toList) ∈
      (renamed "abc".toList).contacts.contacts.map fun c => (c.id, c.givenName) := by
    rw [after]
    exact List.mem_cons_of_mem _ (List.mem_singleton_self _)
  obtain ⟨x, stored, same⟩ := List.mem_map.mp second
  have id : x.id = 20 := congrArg Prod.fst same
  have before := (elsewhere.contacts x (by rw [id]; decide)).mp stored
  rw [List.mem_singleton.mp before] at id
  exact absurd id (by decide)

end Expresso.Eas
