import Expresso.CalDav.Ical
import Expresso.Eas.Sync
import Expresso.Imap.Sequence
import Expresso.Imap.Uids
import Expresso.Transition.Runs

/-! A device that syncs a folder, where responses may be lost: what it has been sent by the time
a response brings nothing. -/

namespace Expresso.Eas
open Text Imap Ingest Sql Wbxml Transition

/-! ### What a client reads -/

def textIn : List Event → Option Str
  | .text value :: _ => some value
  | _ => none

/-- The `SyncKey`. -/
def syncKeyIn : List Event → Option Str
  | [] => none
  | event :: rest =>
      if event = start Page.airSync AirSync.syncKey then textIn rest else syncKeyIn rest

/-- The `ServerId` that an `Add` begins with. -/
def serverIdIn : List Event → Option Str
  | event :: rest => if event = start Page.airSync AirSync.serverId then textIn rest else none
  | [] => none

def addedIds : List Event → List Str
  | [] => []
  | event :: rest =>
      (if event = start Page.airSync AirSync.add then serverIdIn rest else none).toList ++
        addedIds rest

section
variable (crates : Crates)

theorem addedIds_append_of_not_mem {events : List Event} (rest : List Event)
    (noAdd : start Page.airSync AirSync.add ∉ events) :
    addedIds (events ++ rest) = addedIds rest := by
  induction events with
  | nil => rfl
  | cons event events ih =>
    obtain ⟨other, later⟩ := List.ne_and_not_mem_of_not_mem_cons noAdd
    rw [List.cons_append, addedIds, if_neg other.symm, ih later]
    rfl

theorem not_mem_pushText {page token : UInt8} (text : Str)
    (other : page ≠ Page.airSync ∨ token ≠ AirSync.add) :
    start Page.airSync AirSync.add ∉ pushText page token text := by
  simp only [pushText, start, List.mem_cons, Event.startElement.injEq, reduceCtorEq, and_true,
    List.not_mem_nil, or_false]
  rintro ⟨rfl, rfl⟩
  exact other.elim (absurd rfl) (absurd rfl)

theorem not_mem_optional {token : UInt8} (text : Option Str) :
    start Page.airSync AirSync.add ∉ (text.map (pushText Page.email token)).getD [] := by
  cases text with
  | none => exact List.not_mem_nil
  | some text => exact not_mem_pushText text (.inl (by decide))

theorem start_add_ne {page token : UInt8} (other : page ≠ Page.airSync ∨ token ≠ AirSync.add) :
    start Page.airSync AirSync.add ≠ start page token := by
  intro same
  cases same
  exact other.elim (absurd rfl) (absurd rfl)

/-- Of the events of an `Add`, only the first starts one. -/
theorem not_mem_pushAdd_tail (item : MailItem) :
    start Page.airSync AirSync.add ∉ (pushAdd crates item).tail := by
  have ends : start Page.airSync AirSync.add ≠ .endElement := nofun
  have data := @start_add_ne Page.airSync AirSync.applicationData (.inr (by decide))
  have body := @start_add_ne Page.airSyncBase AirSyncBase.body (.inl (by decide))
  simp only [pushAdd, List.cons_append, List.tail_cons, List.mem_append, List.mem_cons,
    List.not_mem_nil, or_false, not_or, not_mem_optional, not_false_eq_true, data, body, ends,
    true_and]
  repeat' apply And.intro
  all_goals exact not_mem_pushText _ (by decide)

theorem addedIds_add (events : List Event) :
    addedIds (start Page.airSync AirSync.add :: events) =
      (serverIdIn events).toList ++ addedIds events := by
  rw [addedIds, if_pos rfl]

theorem serverIdIn_pushText (id : Str) (rest : List Event) :
    serverIdIn (pushText Page.airSync AirSync.serverId id ++ rest) = some id := by
  rw [pushText, List.cons_append, serverIdIn, if_pos rfl, List.cons_append, textIn]

theorem serverIdIn_pushAdd_tail (item : MailItem) (rest : List Event) :
    serverIdIn ((pushAdd crates item).tail ++ rest) =
      some (addId crates item.serverId item.uid) := by
  simp only [pushAdd, List.cons_append, List.tail_cons, List.append_assoc]
  exact serverIdIn_pushText _ _

theorem addedIds_pushAdd (item : MailItem) (rest : List Event) :
    addedIds (pushAdd crates item ++ rest) =
      addId crates item.serverId item.uid :: addedIds rest := by
  have shape : pushAdd crates item =
      start Page.airSync AirSync.add :: (pushAdd crates item).tail := by
    simp only [pushAdd, List.cons_append, List.tail_cons]
  rw [shape, List.cons_append, addedIds_add, serverIdIn_pushAdd_tail,
    addedIds_append_of_not_mem rest (not_mem_pushAdd_tail crates item)]
  rfl

theorem addedIds_adds (items : List MailItem) (rest : List Event) :
    addedIds (items.flatMap (pushAdd crates) ++ rest) =
      items.map (fun item => addId crates item.serverId item.uid) ++ addedIds rest := by
  induction items with
  | nil => rfl
  | cons item items ih =>
    rw [List.flatMap_cons, List.append_assoc, addedIds_pushAdd, ih]
    rfl

theorem addedIds_syncOk (collectionId : Str) (key : Int) (items : List MailItem) :
    addedIds (syncOk crates collectionId key items) =
      items.map fun item => addId crates item.serverId item.uid := by
  have head : start Page.airSync AirSync.add ∉
      [start Page.airSync AirSync.sync, start Page.airSync AirSync.collections,
        start Page.airSync AirSync.collection] ++
      pushText Page.airSync AirSync.syncKey (display key) ++
      pushText Page.airSync AirSync.collectionId collectionId ++
      pushText Page.airSync AirSync.status ['1'] := by
    simp only [List.mem_append, not_or]
    refine ⟨⟨⟨by decide, ?_⟩, ?_⟩, ?_⟩
    all_goals exact not_mem_pushText _ (by decide)
  have begun : start Page.airSync AirSync.add ∉ [start Page.airSync AirSync.commands] := by decide
  have closed (events : List Event) : events ++ [.endElement] ++
      [.endElement, .endElement, .endElement] =
        events ++ (.endElement :: [.endElement, .endElement, .endElement]) := by
    rw [List.append_assoc, List.singleton_append]
  have nothing : addedIds (.endElement :: [.endElement, .endElement, .endElement]) = [] := by
    decide
  unfold syncOk
  rw [List.append_assoc _ (ite _ _ _), addedIds_append_of_not_mem _ head]
  cases items with
  | nil =>
    rw [List.isEmpty_nil, if_pos rfl, List.nil_append, List.map_nil]
    decide
  | cons item items =>
    rw [List.isEmpty_cons, if_neg Bool.false_ne_true, closed, List.cons_append,
      ← List.singleton_append, addedIds_append_of_not_mem _ begun, addedIds_adds, nothing,
      List.append_nil]

theorem syncKeyIn_syncOk (collectionId : Str) (key : Int) (items : List MailItem) :
    syncKeyIn (syncOk crates collectionId key items) = some (display key) := rfl

end

/-! ### The server's side -/

section
variable {tenantId userId collection : Uuid} {deviceId : Str} {fails : Statement → Bool}

theorem loadState_saveState (key lastUid : Int) (db : Db) (works : fails .loadState = false) :
    loadState tenantId userId deviceId collection fails
      (saveState tenantId userId deviceId collection key lastUid db) = (key, lastUid) := by
  unfold loadState saveState
  rw [works, if_neg Bool.false_ne_true]
  split
  · next present =>
    have same : ((·.isFor tenantId userId deviceId collection) ∘ fun row : SyncState =>
        if row.isFor tenantId userId deviceId collection then { row with syncKey := key, lastUid }
        else row) = (·.isFor tenantId userId deviceId collection) := by
      funext row
      simp only [Function.comp]
      split <;> rfl
    simp only
    rw [List.find?_map, same]
    cases found : db.syncStates.find? (·.isFor tenantId userId deviceId collection) with
    | none =>
      obtain ⟨row, listed, own⟩ := List.any_eq_true.mp present
      exact absurd own (List.find?_eq_none.mp found row listed)
    | some row =>
      have own : row.isFor tenantId userId deviceId collection = true := List.find?_some found
      simp [own]
  · next absent =>
    have none : db.syncStates.find? (·.isFor tenantId userId deviceId collection) = none := by
      simpa [List.find?_eq_none] using absent
    simp only
    rw [List.find?_append, none]
    simp [SyncState.isFor]

/-- The client's changes keep every row that stays under its id and its UID. -/
structure Keeps (s s' : Store) : Prop where
  sound : Sound s'
  origin : ∀ m' ∈ s'.messages, ∃ m ∈ s.messages, identity m = identity m'

theorem Keeps.refl {s : Store} (sound : Sound s) : Keeps s s where
  sound := sound
  origin := fun m member => ⟨m, member, rfl⟩

theorem Keeps.trans {s s' s'' : Store} (first : Keeps s s') (second : Keeps s' s'') :
    Keeps s s'' where
  sound := second.sound
  origin := by
    intro m'' member
    obtain ⟨m', among, same⟩ := second.origin m'' member
    obtain ⟨m, found, same'⟩ := first.origin m' among
    exact ⟨m, found, same'.trans same⟩

theorem updateFlags_keeps {s s' : Store} {change : Message → Option Message} (sound : Sound s)
    (same : ∀ m m', change m = some m' → identity m' = identity m)
    (updated : updateMessages change s = some s') : Keeps s s' := by
  have kept : ∀ m, identity (changed change m) = identity m := by
    intro m
    unfold changed
    cases result : change m with
    | none => rfl
    | some m' => exact same m m' result
  have mailbox : ∀ m, (changed change m).mailboxId = m.mailboxId :=
    fun m => congrArg (·.2.1) (kept m)
  have uid : ∀ m, (changed change m).uid = m.uid := fun m => congrArg (·.2.2.2.1) (kept m)
  have grows := (updateMessages_grows sound updated uid fun m _ moved => absurd (mailbox m) moved).1
  refine ⟨grows.sound, ?_⟩
  intro m' member
  have rows : s'.messages.map identity = s.messages.map identity := by
    rw [commit_some updated, messagesSyncMailboxStats_eq]
    exact changeRows_identity same s.modseq s.messages
  have listed := List.mem_map_of_mem (f := identity) member
  rw [rows] at listed
  exact List.mem_map.mp listed

theorem applyClientChange_keeps {s s' : Store} (sound : Sound s) (change : ClientChange)
    (applied : applyClientChange tenantId collection s change = some s') : Keeps s s' := by
  cases change with
  | setRead serverId read =>
    simp only [applyClientChange] at applied
    split at applied
    · cases applied
      exact Keeps.refl sound
    · apply updateFlags_keeps sound _ applied
      intro m m' result
      split at result
      · cases result
        rfl
      · cases result
  | delete serverId =>
    simp only [applyClientChange] at applied
    split at applied
    · cases applied
      exact Keeps.refl sound
    · obtain ⟨rows, soundAfter, _⟩ := deleteMessages_sound sound applied
      refine ⟨soundAfter, ?_⟩
      intro m member
      rw [rows] at member
      exact ⟨m, (List.mem_filter.mp member).1, rfl⟩

theorem applyClientChanges_keeps {s : Store} (sound : Sound s) (changes : List ClientChange) :
    Keeps s (applyClientChanges tenantId collection fails changes s) := by
  unfold applyClientChanges
  induction changes.zipIdx generalizing s with
  | nil => exact Keeps.refl sound
  | cons numbered rest ih =>
    rw [List.foldl_cons]
    have first : Keeps s (if fails (.change numbered.2) then s
        else (applyClientChange tenantId collection s numbered.1).getD s) := by
      split
      · exact Keeps.refl sound
      · cases applied : applyClientChange tenantId collection s numbered.1 with
        | none => exact Keeps.refl sound
        | some s' => exact applyClientChange_keeps sound numbered.1 applied
    exact first.trans (ih first.sound)

end

/-! ### Runs -/

/-- What a device holds of a folder: the last key it received, and the messages. -/
structure Client where
  key : Str
  delivered : List Str
  deriving DecidableEq

structure Link where
  db : Db
  client : Client

/-- A request with what the server meets while it answers, and the fate of the response. -/
structure Exchange where
  /-- with the key 0 -/
  startsOver : Bool := false
  changes : List ClientChange := []
  truncationSize : Option Nat := none
  fetchBody : Str → Option (List UInt8) := fun _ => none
  fails : Statement → Bool := fun _ => false
  lost : Bool := false

inductive Action where
  | append (mailbox : Uuid) (draft : Draft) (columns : Columns)
  | exchange (x : Exchange)

def appendTo (mailbox : Uuid) (draft : Draft) (columns : Columns) (db : Db) : Db :=
  match db.store.mailboxes.find? fun mb => mb.id = mailbox with
  | none => db
  | some dst =>
      match appendMessage dst dst.tenantId draft db.store with
      | none => db
      | some (store, _) => { db with store, columns := (draft.id, columns) :: db.columns }

/-- A key that starts the priming round. -/
@[reducible]
def Primes (key : Str) : Prop := key = ['0'] ∨ key = []

def Exchange.request (collectionId : Str) (c : Client) (x : Exchange) : SyncRequest where
  syncKey := if x.startsOver then ['0'] else c.key
  collectionId := collectionId
  changes := x.changes
  truncationSize := x.truncationSize

/-- A client that has been primed holds nothing. -/
def Client.receive (asked : SyncRequest) (response : List Event) (c : Client) : Client where
  key := (syncKeyIn response).getD c.key
  delivered := (if Primes asked.syncKey then [] else c.delivered) ++ addedIds response

section
variable (crates : Crates) (userId tenantId : Uuid) (deviceId collectionId : Str)

def Exchange.answer (s : Link) (x : Exchange) : Db × List Event :=
  syncResponse crates x.fetchBody x.fails userId tenantId deviceId
    (x.request collectionId s.client) s.db

def step (s : Link) : Action → Link
  | .append mailbox draft columns => { s with db := appendTo mailbox draft columns s.db }
  | .exchange x =>
      let answered := x.answer crates userId tenantId deviceId collectionId s
      { db := answered.1
        client := if x.lost then s.client
          else s.client.receive (x.request collectionId s.client) answered.2 }

end

section
variable (crates : Crates) (userId tenantId : Uuid) (deviceId collectionId : Str) (mailbox : Uuid)

def mails (db : Db) : List Message := db.store.messages.filter (inMailbox mailbox tenantId)

/-- The highest UID that the server remembers for the device. -/
def highUid (db : Db) : Int := (loadState tenantId userId deviceId mailbox (fun _ => false) db).2

def Client.Holds (c : Client) (m : Message) : Prop := addId crates m.id m.uid ∈ c.delivered

/-- When a response after the priming round brings nothing, the client holds every message that
the folder has. -/
@[reducible]
def Settled (s : Link) : Action → Prop
  | .append _ _ _ => True
  | .exchange x =>
      let s' := step crates userId tenantId deviceId collectionId s (.exchange x)
      ¬ Primes (x.request collectionId s.client).syncKey → x.lost = false →
        addedIds (x.answer crates userId tenantId deviceId collectionId s).2 = [] →
        ∀ m ∈ mails tenantId mailbox s'.db, addId crates m.id m.uid ∈ s'.client.delivered

/-- The folder has nothing above what the server remembers. -/
@[reducible]
def UpToDate (db : Db) : Prop :=
  ∀ m ∈ mails tenantId mailbox db, m.uid ≤ highUid userId tenantId deviceId mailbox db

/-- A response that brings something is received, and a message gets a UID above the ones that
have been sent. -/
@[reducible]
def Confirmed (s : Link) : Action → Prop
  | .append target _ _ => target = mailbox → Primes s.client.key ∨
      ∀ mb ∈ s.db.store.mailboxes, mb.id = mailbox →
        highUid userId tenantId deviceId mailbox s.db < mb.nextUid
  | .exchange x =>
      if Primes (x.request collectionId s.client).syncKey then
        x.lost = true ∨ x.fails .resetState = false
      else UpToDate userId tenantId deviceId mailbox s.db ∨
        if x.lost then x.fails .saveState = true else x.fails .loadNewItems = false

end

/-! ### What stays true -/

section
variable {crates : Crates} {userId tenantId : Uuid} {deviceId collectionId : Str} {mailbox : Uuid}

/-- Every message up to the UID the server remembers is with the client. -/
def Covered (crates : Crates) (userId tenantId : Uuid) (deviceId : Str) (mailbox : Uuid)
    (s : Link) : Prop :=
  ReadUpTo (·.uid) (highUid userId tenantId deviceId mailbox s.db) (mails tenantId mailbox s.db)
    (s.client.Holds crates)

theorem mails_distinct (db : Db) :
    ∀ a ∈ mails tenantId mailbox db, ∀ b ∈ mails tenantId mailbox db, a.uid = b.uid → a = b := by
  intro a first b second same
  obtain ⟨among, here⟩ := List.mem_filter.mp first
  obtain ⟨among', here'⟩ := List.mem_filter.mp second
  simp only [inMailbox, Bool.and_eq_true, decide_eq_true_eq] at here here'
  apply List.inj_on_of_nodup_map db.store.constraints.2.2.2.1 among among'
  rw [here.1, here'.1, same]

theorem highUid_saveState (key lastUid : Int) (db : Db) :
    highUid userId tenantId deviceId mailbox
      (saveState tenantId userId deviceId mailbox key lastUid db) = lastUid := by
  unfold highUid
  rw [loadState_saveState key lastUid db rfl]

theorem store_saveState (key lastUid : Int) (db : Db) :
    (saveState tenantId userId deviceId mailbox key lastUid db).store = db.store := by
  unfold saveState
  split <;> rfl

/-- What a client holds it still holds after the changes it asks for. -/
theorem readUpTo_keeps {s s' : Store} (kept : Keeps s s') {c c' : Client} {last last' : Int}
    (before : ReadUpTo (·.uid) last (s.messages.filter (inMailbox mailbox tenantId))
      (c.Holds crates))
    (lower : last' ≤ last) (more : ∀ id ∈ c.delivered, id ∈ c'.delivered) :
    ReadUpTo (·.uid) last' (s'.messages.filter (inMailbox mailbox tenantId))
      (c'.Holds crates) := by
  refine ReadUpTo.mono before lower ?_
  intro m' member _
  obtain ⟨among, here⟩ := List.mem_filter.mp member
  obtain ⟨m, found, same⟩ := kept.origin m' among
  simp only [identity, Prod.mk.injEq] at same
  obtain ⟨id, box, tenant, uid, _⟩ := same
  refine ⟨m, List.mem_filter.mpr ⟨found, ?_⟩, uid, ?_⟩
  · simpa only [inMailbox, box, tenant] using here
  · intro held
    apply more
    simpa only [Client.Holds, id, uid] using held

theorem readUpTo_zero {s : Store} (sound : Sound s) (isRead : Message → Prop) :
    ReadUpTo (·.uid) 0 (s.messages.filter (inMailbox mailbox tenantId)) isRead := by
  intro m member reached
  have positive := sound.positive m (List.mem_filter.mp member).1
  simp only at reached
  omega

/-- An append is refused, or it adds one row under the next UID of its mailbox. -/
theorem appendTo_cases {db : Db} (sound : Sound db.store) (target : Uuid) (draft : Draft)
    (columns : Columns) :
    appendTo target draft columns db = db ∨
      ∃ dst ∈ db.store.mailboxes, dst.id = target ∧
        (appendTo target draft columns db).syncStates = db.syncStates ∧
        Sound (appendTo target draft columns db).store ∧
        ∃ m : Message, m.mailboxId = dst.id ∧ m.uid = dst.nextUid ∧
          (appendTo target draft columns db).store.messages = db.store.messages ++ [m] := by
  unfold appendTo
  cases found : db.store.mailboxes.find? fun mb => mb.id = target with
  | none => exact .inl rfl
  | some dst =>
    have listed := List.mem_of_find?_eq_some found
    have here : dst.id = target := by simpa using List.find?_some found
    simp only
    cases appended : appendMessage dst dst.tenantId draft db.store with
    | none => exact .inl rfl
    | some result =>
      obtain ⟨store, assigned⟩ := result
      unfold appendMessage at appended
      obtain ⟨s', inserted, same⟩ := Option.map_eq_some_iff.mp appended
      cases same
      obtain ⟨grows, rows, _⟩ := insertMessage_grows sound inserted (sound.synced dst listed)
      exact .inr ⟨dst, listed, here, rfl, grows.sound, _, rfl, rfl, rows⟩

section
variable {s : Link}

theorem append_covered {target : Uuid} {draft : Draft} {columns : Columns}
    (sound : Sound s.db.store) (covered : Covered crates userId tenantId deviceId mailbox s)
    (above : target = mailbox → ∀ mb ∈ s.db.store.mailboxes, mb.id = mailbox →
      highUid userId tenantId deviceId mailbox s.db < mb.nextUid) :
    Covered crates userId tenantId deviceId mailbox
      (step crates userId tenantId deviceId collectionId s (.append target draft columns)) := by
  simp only [step]
  rcases appendTo_cases sound target draft columns with same | ⟨dst, listed, here, states, _, new⟩
  · rwa [same]
  · obtain ⟨m, box, uid, rows⟩ := new
    have high : highUid userId tenantId deviceId mailbox (appendTo target draft columns s.db) =
        highUid userId tenantId deviceId mailbox s.db := by
      unfold highUid loadState
      rw [states]
    intro row member reached
    change row.uid ≤ highUid userId tenantId deviceId mailbox _ at reached
    rw [high] at reached
    obtain ⟨among, inside⟩ := List.mem_filter.mp member
    change row ∈ (appendTo target draft columns s.db).store.messages at among
    rw [rows] at among
    rcases List.mem_append.mp among with old | last
    · exact covered row (List.mem_filter.mpr ⟨old, inside⟩) reached
    · rw [List.mem_singleton.mp last] at inside reached
      simp only [inMailbox, Bool.and_eq_true, decide_eq_true_eq] at inside
      have place : dst.id = mailbox := box.symm.trans inside.1
      have higher := above (here.symm.trans place) dst listed place
      omega

/-! ### An exchange -/

section
variable (userId tenantId deviceId mailbox) (s : Link) (x : Exchange)

/-- After the changes of the client. -/
def Exchange.changed : Db :=
  { s.db with store := applyClientChanges tenantId mailbox x.fails x.changes s.db.store }

def Exchange.lastUid : Int := (loadState tenantId userId deviceId mailbox x.fails s.db).2

/-- The messages that the response brings. -/
def Exchange.page : List Message :=
  if x.fails .loadNewItems then []
  else pageAfter (·.uid) windowSize (x.lastUid userId tenantId deviceId mailbox s)
    (mails tenantId mailbox (x.changed tenantId mailbox s))

end

variable {x : Exchange} (parses : crates.parseUuid collectionId = some mailbox)
include parses

theorem answer_primed (primes : Primes (x.request collectionId s.client).syncKey) :
    x.answer crates userId tenantId deviceId collectionId s =
      (if x.fails .resetState then s.db
        else resetState tenantId userId deviceId mailbox s.db,
        syncOk crates collectionId 1 []) := by
  have named : crates.parseUuid (x.request collectionId s.client).collectionId = some mailbox :=
    parses
  unfold Exchange.answer syncResponse
  rw [named]
  exact if_pos primes

theorem answer_continued (continues : ¬ Primes (x.request collectionId s.client).syncKey) :
    ∃ key, (x.answer crates userId tenantId deviceId collectionId s).1 =
        (if x.fails .saveState then x.changed tenantId mailbox s
          else saveState tenantId userId deviceId mailbox key
            (lastKey (·.uid) (x.lastUid userId tenantId deviceId mailbox s)
              (x.page userId tenantId deviceId mailbox s)) (x.changed tenantId mailbox s)) ∧
      addedIds (x.answer crates userId tenantId deviceId collectionId s).2 =
        (x.page userId tenantId deviceId mailbox s).map fun m => addId crates m.id m.uid := by
  have named : crates.parseUuid (x.request collectionId s.client).collectionId = some mailbox :=
    parses
  let key := (loadState tenantId userId deviceId mailbox x.fails s.db).1 + 1
  let resolve := resolveBody crates x.fetchBody (x.truncationSize.getD defaultTruncation)
  let items := (loadNewItems tenantId mailbox x.fails
    (x.lastUid userId tenantId deviceId mailbox s) (x.changed tenantId mailbox s)).map resolve
  have answered : x.answer crates userId tenantId deviceId collectionId s =
      (if x.fails .saveState then x.changed tenantId mailbox s
        else saveState tenantId userId deviceId mailbox key
          (lastKey (·.uid) (x.lastUid userId tenantId deviceId mailbox s) items)
          (x.changed tenantId mailbox s),
        syncOk crates collectionId key items) := by
    unfold Exchange.answer syncResponse
    rw [named]
    exact if_neg continues
  have page : items = (x.page userId tenantId deviceId mailbox s).map
      (resolve ∘ mailItem (x.changed tenantId mailbox s)) := by
    simp only [items, loadNewItems, Exchange.page]
    split
    · rfl
    · exact List.map_map
  have kept : ∀ item : MailItem,
      (resolve item).uid = item.uid ∧ (resolve item).serverId = item.serverId := by
    intro item
    simp only [resolve, resolveBody]
    split <;> exact ⟨rfl, rfl⟩
  refine ⟨key, ?_, ?_⟩
  · rw [answered, page, lastKey_map]
    simp only [Function.comp, kept]
    rfl
  · rw [answered, page, addedIds_syncOk, List.map_map]
    simp only [Function.comp_def, kept]
    rfl

omit parses in
theorem lastUid_eq : x.lastUid userId tenantId deviceId mailbox s =
    if x.fails .loadState then 0 else highUid userId tenantId deviceId mailbox s.db := by
  unfold Exchange.lastUid highUid loadState
  split <;> rfl

omit parses in
theorem delivered_continued (continues : ¬ Primes (x.request collectionId s.client).syncKey) :
    (step crates userId tenantId deviceId collectionId s (.exchange x)).client.delivered =
      if x.lost then s.client.delivered
      else s.client.delivered ++
        addedIds (x.answer crates userId tenantId deviceId collectionId s).2 := by
  simp only [step]
  split
  · rfl
  · rw [Client.receive, if_neg continues]

/-- A response that is not lost, or that the server forgets, leaves the client with all that the
server remembers. -/
theorem exchange_continued (sound : Sound s.db.store)
    (covered : Covered crates userId tenantId deviceId mailbox s)
    (continues : ¬ Primes (x.request collectionId s.client).syncKey)
    (confirmed : UpToDate userId tenantId deviceId mailbox s.db ∨
      if x.lost then x.fails .saveState = true else x.fails .loadNewItems = false) :
    let s' := step crates userId tenantId deviceId collectionId s (.exchange x)
    Sound s'.db.store ∧ Covered crates userId tenantId deviceId mailbox s' ∧
      Settled crates userId tenantId deviceId collectionId mailbox s (.exchange x) := by
  intro s'
  obtain ⟨key, database, added⟩ :=
    @answer_continued crates userId tenantId deviceId collectionId mailbox s x parses continues
  have delivered := @delivered_continued crates userId tenantId deviceId collectionId s x continues
  have kept : Keeps s.db.store (x.changed tenantId mailbox s).store :=
    applyClientChanges_keeps sound x.changes
  have more : ∀ id ∈ s.client.delivered, id ∈ s'.client.delivered := by
    intro id held
    rw [delivered]
    split
    · exact held
    · exact List.mem_append_left _ held
  have carried : ReadUpTo (·.uid) (highUid userId tenantId deviceId mailbox s.db)
      (mails tenantId mailbox (x.changed tenantId mailbox s)) (s'.client.Holds crates) :=
    readUpTo_keeps kept covered (le_refl _) more
  have store : s'.db.store = (x.changed tenantId mailbox s).store := by
    change (x.answer _ _ _ _ _ s).1.store = _
    rw [database]
    split
    · rfl
    · exact store_saveState ..
  have rows : mails tenantId mailbox s'.db =
      mails tenantId mailbox (x.changed tenantId mailbox s) := by
    unfold mails
    rw [store]
  have remembered : highUid userId tenantId deviceId mailbox s'.db =
      if x.fails .saveState then highUid userId tenantId deviceId mailbox s.db
      else lastKey (·.uid) (x.lastUid userId tenantId deviceId mailbox s)
        (x.page userId tenantId deviceId mailbox s) := by
    change highUid userId tenantId deviceId mailbox (x.answer _ _ _ _ _ s).1 = _
    rw [database]
    split
    · rfl
    · exact highUid_saveState ..
  refine ⟨store ▸ kept.sound, ?_⟩
  cases confirmed with
  | inl quiet =>
    have all : ∀ m ∈ mails tenantId mailbox (x.changed tenantId mailbox s),
        s'.client.Holds crates m := by
      intro m' member
      obtain ⟨among, inside⟩ := List.mem_filter.mp member
      obtain ⟨m, found, same⟩ := kept.origin m' among
      simp only [identity, Prod.mk.injEq] at same
      obtain ⟨_, box, tenant, uid, _⟩ := same
      have below := quiet m
        (List.mem_filter.mpr ⟨found, by simpa only [inMailbox, box, tenant] using inside⟩)
      rw [uid] at below
      exact carried m' member below
    rw [← rows] at all
    exact ⟨fun m member _ => all m member, fun _ _ _ m member => all m member⟩
  | inr confirmed =>
    by_cases lost : x.lost
    · rw [if_pos lost] at confirmed
      refine ⟨?_, fun _ received => absurd lost (by simp [received])⟩
      unfold Covered
      rwa [remembered, if_pos confirmed, rows]
    · rw [if_neg lost] at confirmed
      have window : x.page userId tenantId deviceId mailbox s = pageAfter (·.uid) windowSize
          (x.lastUid userId tenantId deviceId mailbox s)
          (mails tenantId mailbox (x.changed tenantId mailbox s)) := by
        unfold Exchange.page
        rw [confirmed]
        rfl
      have read : ReadUpTo (·.uid) (x.lastUid userId tenantId deviceId mailbox s)
          (mails tenantId mailbox (x.changed tenantId mailbox s)) (s'.client.Holds crates) := by
        rw [lastUid_eq]
        split
        · exact readUpTo_zero kept.sound _
        · exact carried
      have brought : ∀ m ∈ x.page userId tenantId deviceId mailbox s,
          s'.client.Holds crates m := by
        intro m member
        change _ ∈ s'.client.delivered
        rw [delivered, if_neg lost, added]
        exact List.mem_append_right _ (List.mem_map_of_mem member)
      constructor
      · unfold Covered
        rw [remembered, rows]
        split
        · exact carried
        · rw [window] at brought ⊢
          exact read.next (mails_distinct _) brought
      · intro _ _ nothing m member
        rw [added, List.map_eq_nil_iff, window] at nothing
        change m ∈ mails tenantId mailbox s'.db at member
        rw [rows] at member
        exact read.complete (by decide) nothing m member

/-- A priming round leaves nothing that the server remembers. -/
theorem exchange_primed (sound : Sound s.db.store)
    (covered : Primes s.client.key ∨ Covered crates userId tenantId deviceId mailbox s)
    (primes : Primes (x.request collectionId s.client).syncKey)
    (confirmed : x.lost = true ∨ x.fails .resetState = false) :
    let s' := step crates userId tenantId deviceId collectionId s (.exchange x)
    Sound s'.db.store ∧
      (Primes s'.client.key ∨ Covered crates userId tenantId deviceId mailbox s') := by
  have answered := @answer_primed crates userId tenantId deviceId collectionId mailbox s x parses
    primes
  simp only [step, answered]
  by_cases fails : x.fails .resetState
  · have lost : x.lost = true := confirmed.resolve_right (by simp [fails])
    rw [if_pos fails, if_pos lost]
    exact ⟨sound, covered⟩
  · rw [if_neg fails]
    refine ⟨by rwa [resetState, store_saveState], .inr ?_⟩
    unfold Covered
    simp only [resetState, mails]
    rw [highUid_saveState, store_saveState]
    exact readUpTo_zero sound _

end

end

/-! ### Whole runs -/

structure Invariant (crates : Crates) (userId tenantId : Uuid) (deviceId : Str) (mailbox : Uuid)
    (s : Link) : Prop where
  sound : Sound s.db.store
  covered : Primes s.client.key ∨ Covered crates userId tenantId deviceId mailbox s

section
variable {crates : Crates} {userId tenantId : Uuid} {deviceId collectionId : Str} {mailbox : Uuid}
  (parses : crates.parseUuid collectionId = some mailbox)
include parses

theorem step_invariant {s : Link} {a : Action}
    (holds : Invariant crates userId tenantId deviceId mailbox s)
    (confirmed : Confirmed userId tenantId deviceId collectionId mailbox s a) :
    Invariant crates userId tenantId deviceId mailbox
        (step crates userId tenantId deviceId collectionId s a) ∧
      Settled crates userId tenantId deviceId collectionId mailbox s a := by
  cases a with
  | append target draft columns =>
    refine ⟨⟨?_, ?_⟩, trivial⟩
    · rcases appendTo_cases holds.sound target draft columns with same | ⟨_, _, _, _, sound, _⟩
      · simpa only [step, same] using holds.sound
      · exact sound
    · by_cases primes : Primes s.client.key
      · exact .inl primes
      · right
        apply append_covered holds.sound (holds.covered.resolve_left primes)
        intro here
        exact (confirmed here).resolve_left primes
  | exchange x =>
    simp only [Confirmed] at confirmed
    split at confirmed
    · next primes =>
      have next := exchange_primed parses holds.sound holds.covered primes confirmed
      exact ⟨⟨next.1, next.2⟩, fun continues => absurd primes continues⟩
    · next continues =>
      have primed : ¬ Primes s.client.key := by
        intro primes
        apply continues
        simp only [Exchange.request]
        split
        · exact .inl rfl
        · exact primes
      obtain ⟨sound, covered, settled⟩ := exchange_continued parses holds.sound
        (holds.covered.resolve_left primed) continues confirmed
      exact ⟨⟨sound, .inr covered⟩, settled⟩

end

section
variable (crates : Crates) (userId tenantId : Uuid) (deviceId collectionId : Str) (mailbox : Uuid)
  (s : Link)

instance : ∀ a, Decidable (Settled crates userId tenantId deviceId collectionId mailbox s a)
  | .append _ _ _ => .isTrue trivial
  | .exchange _ => by dsimp only [Settled]; infer_instance

instance : ∀ a, Decidable (Confirmed userId tenantId deviceId collectionId mailbox s a)
  | .append _ _ _ => by dsimp only [Confirmed]; infer_instance
  | .exchange _ => by dsimp only [Confirmed]; infer_instance

end

/-- The hyphenated form. -/
def showHyphenated (id : Uuid) : Str :=
  let digits := Nat.toDigits 16 id
  let whole := List.replicate (32 - digits.length) '0' ++ digits
  whole.take 8 ++ '-' :: ((whole.drop 8).take 4 ++ '-' :: ((whole.drop 12).take 4 ++
    '-' :: ((whole.drop 16).take 4 ++ '-' :: whole.drop 20)))

/-- A parser that is not asked. -/
def sampleCrates : Crates where
  parseUuid := CalDav.parseHyphenated
  showUuid := showHyphenated
  parseMessage _ := none

def sampleDb : Db := ⟨emptyInbox, [], []⟩

def appendSample (id : Uuid) : Action :=
  .append 1 (draftOf id []) ⟨[], none, false, some "text".toList⟩

section
variable {crates : Crates} {userId tenantId : Uuid} {deviceId collectionId : Str} {mailbox : Uuid}
  (parses : crates.parseUuid collectionId = some mailbox)
include parses

/-- A device that begins with the priming round. -/
theorem nothing_lost {db : Db} (sound : Sound db.store) {actions : List Action}
    (confirmed : EachStep (step crates userId tenantId deviceId collectionId)
      (Confirmed userId tenantId deviceId collectionId mailbox) ⟨db, ⟨['0'], []⟩⟩ actions) :
    EachStep (step crates userId tenantId deviceId collectionId)
      (Settled crates userId tenantId deviceId collectionId mailbox) ⟨db, ⟨['0'], []⟩⟩ actions :=
  EachStep.of_invariant (fun _ _ holds met => step_invariant parses holds met)
    ⟨sound, .inl (.inl rfl)⟩ confirmed

end


theorem nothing_lost_sample :
    let collectionId := showHyphenated 1
    let actions := [appendSample 2, .exchange {}, .exchange {}, appendSample 3, .exchange {},
      .exchange { lost := true }, .exchange {}]
    let start : Link := ⟨sampleDb, ⟨['0'], []⟩⟩
    (actions.foldl (step sampleCrates 1 1 "phone".toList collectionId) start).client.delivered =
        [addId sampleCrates 2 1, addId sampleCrates 3 2] ∧
      EachStep (step sampleCrates 1 1 "phone".toList collectionId)
        (Settled sampleCrates 1 1 "phone".toList collectionId 1) start actions :=
  ⟨by decide +kernel, nothing_lost (by decide +kernel) emptyInbox_sound (by decide +kernel)⟩

/-- The message of a response that is lost is not sent again. -/
theorem lost_response_not_repeated :
    let collectionId := showHyphenated 1
    ¬ EachStep (step sampleCrates 1 1 "phone".toList collectionId)
      (Settled sampleCrates 1 1 "phone".toList collectionId 1) ⟨sampleDb, ⟨['0'], []⟩⟩
      [appendSample 2, .exchange {}, .exchange { lost := true }, .exchange {}] := by
  decide +kernel

end Expresso.Eas
