import Expresso.Eas.Bridge
import Expresso.Eas.Sync

/-! The `Commands` that a device sends for contacts and for events, and how the bridge finds them
in the elements of a Sync request. -/

namespace Expresso.Eas
open Text Wbxml

namespace Page

def contacts : UInt8 := 1
def calendar : UInt8 := 4

end Page

namespace AirSync

def change : UInt8 := 0x08
def delete : UInt8 := 0x09

end AirSync

namespace ContactToken

def email1Address : UInt8 := 0x0F
def companyName : UInt8 := 0x12
def fileAs : UInt8 := 0x13
def firstName : UInt8 := 0x15
def lastName : UInt8 := 0x19
def mobilePhone : UInt8 := 0x1B

end ContactToken

namespace CalendarToken

def endTime : UInt8 := 0x09
def location : UInt8 := 0x0E
def subject : UInt8 := 0x14
def startTime : UInt8 := 0x15
def uid : UInt8 := 0x17

end CalendarToken

/-! ### The scan -/

/-- A page and a token on it. -/
abbrev Tag := UInt8 × UInt8

/-- The last text of each element of a command. -/
abbrev Values := Tag → Option Str

/-- The commands so far, the command that is open (`some true` for a `Delete`) and the depth at
which it opened, and the element whose text comes next. -/
structure Scan (γ : Type) where
  out : List γ
  mode : Option Bool
  cmdDepth : Int
  depth : Int
  values : Values
  want : Option Tag

def isCommand (tag : Tag) : Bool :=
  tag.1 = Page.airSync &&
    (tag.2 = AirSync.add || tag.2 = AirSync.change || tag.2 = AirSync.delete)

section
variable {γ : Type} (flush : Nat → Bool → Values → List γ)

def Scan.start : Scan γ := ⟨[], none, 0, 0, fun _ => none, none⟩

/-- A command is complete where the element that opened it closes. -/
def Scan.step (s : Scan γ) : Event → Scan γ
  | .startElement page token hasContent =>
      let opened :=
        if isCommand (page, token) then
          { s with
            mode := some (token = AirSync.delete)
            cmdDepth := s.depth
            values := fun _ => none }
        else { s with want := some (page, token) }
      if hasContent then { opened with depth := s.depth + 1 } else opened
  | .text t =>
      { s with
        values := match s.want with
          | some tag => Function.update s.values tag (some t)
          | none => s.values
        want := none }
  | .endElement =>
      let closed := { s with depth := s.depth - 1, want := none }
      match s.mode with
      | none => closed
      | some delete =>
          if s.depth - 1 = s.cmdDepth then
            { closed with out := s.out ++ flush s.out.length delete s.values, mode := none }
          else closed
  | .opaqueData _ => { s with want := none }

def scanCommands (events : List Event) : List γ := (events.foldl (Scan.step flush) Scan.start).out

end

def serverIdTag : Tag := (Page.airSync, AirSync.serverId)

inductive ConCommand where
  | upsert (u : ContactUpsert)
  | delete (contactId : Str)
  deriving DecidableEq

def ContactUpsert.ofValues (uid : Str) (v : Values) : ContactUpsert where
  uid := uid
  first := v (Page.contacts, ContactToken.firstName)
  last := v (Page.contacts, ContactToken.lastName)
  fileAs := v (Page.contacts, ContactToken.fileAs)
  email := v (Page.contacts, ContactToken.email1Address)
  phone := v (Page.contacts, ContactToken.mobilePhone)
  company := v (Page.contacts, ContactToken.companyName)

/-- A contact without a `ServerId` and an address is dropped. -/
def contactCommand (newUid : Nat → Str) (index : Nat) (delete : Bool) (v : Values) :
    List ConCommand :=
  if delete then (v serverIdTag).toList.map .delete
  else if (v serverIdTag).isSome ∨ (v (Page.contacts, ContactToken.email1Address)).isSome then
    [.upsert (.ofValues ((v serverIdTag).getD (newUid index)) v)]
  else []

/-- A body that does not decode has no commands. The new UIDs are random. -/
def parseContactCommands (newUid : Nat → Str) (body : List UInt8) : List ConCommand :=
  match decode body with
  | .ok events => scanCommands (contactCommand newUid) events
  | .error _ => []

inductive CalCommand where
  | upsert (u : EventUpsert)
  | delete (eventId : Str)
  deriving DecidableEq

def EventUpsert.ofValues (uid : Str) (v : Values) : EventUpsert where
  uid := uid
  summary := v (Page.calendar, CalendarToken.subject)
  location := v (Page.calendar, CalendarToken.location)
  startTime := v (Page.calendar, CalendarToken.startTime)
  endTime := v (Page.calendar, CalendarToken.endTime)

/-- The UID of the device comes before the `ServerId`. -/
def calendarCommand (_index : Nat) (delete : Bool) (v : Values) : List CalCommand :=
  if delete then (v serverIdTag).toList.map .delete
  else match (v (Page.calendar, CalendarToken.uid)).or (v serverIdTag) with
    | some uid => [.upsert (.ofValues uid v)]
    | none => []

def parseCalendarCommands (body : List UInt8) : List CalCommand :=
  match decode body with
  | .ok events => scanCommands calendarCommand events
  | .error _ => []

/-! ### Requests of a device -/

/-- The fields of an item, all on one page. -/
def pushFields (page : UInt8) (fields : List (UInt8 × Str)) : List Event :=
  fields.flatMap fun f => pushText page f.1 f.2

/-- A `Change` of an item under a `ServerId`. -/
def changeItem (sid : Str) (page : UInt8) (fields : List (UInt8 × Str)) : List Event :=
  start Page.airSync AirSync.change :: (pushText Page.airSync AirSync.serverId sid ++
    start Page.airSync AirSync.applicationData :: (pushFields page fields ++
      [.endElement, .endElement]))

/-- A `Delete` of the item under a `ServerId`. -/
def deleteItem (sid : Str) : List Event :=
  start Page.airSync AirSync.delete ::
    (pushText Page.airSync AirSync.serverId sid ++ [.endElement])

/-- What a Sync request of one folder has before its commands. -/
def syncOpening (syncKey collectionId : Str) : List Event :=
  start Page.airSync AirSync.sync :: start Page.airSync AirSync.collections ::
    start Page.airSync AirSync.collection ::
    (pushText Page.airSync AirSync.syncKey syncKey ++
      (pushText Page.airSync AirSync.collectionId collectionId ++
        [start Page.airSync AirSync.commands]))

def syncRequest (syncKey collectionId : Str) (commands : List Event) : List Event :=
  syncOpening syncKey collectionId ++
    (commands ++ [.endElement, .endElement, .endElement, .endElement])

/-- The values that the fields leave. -/
def fieldValues (page : UInt8) (fields : List (UInt8 × Str)) (v : Values) : Values :=
  fields.foldl (fun v f => Function.update v (page, f.1) (some f.2)) v

/-! ### What the scan finds -/

section
variable {γ : Type} {flush : Nat → Bool → Values → List γ}

/-- No command is about to close. -/
def Scan.Inside (s : Scan γ) : Prop := s.mode.isSome → s.cmdDepth < s.depth

theorem scan_text {s : Scan γ} (inside : s.Inside) {page token : UInt8}
    (other : isCommand (page, token) = false) (text : Str) :
    (pushText page token text).foldl (Scan.step flush) s =
      { s with values := Function.update s.values (page, token) (some text), want := none } := by
  obtain ⟨out, mode, cmdDepth, depth, values, want⟩ := s
  unfold pushText start
  simp only [List.foldl_cons, List.foldl_nil, Scan.step, other, Bool.false_eq_true, if_false,
    if_true, add_sub_cancel_right]
  cases mode with
  | none => rfl
  | some delete =>
    have below : cmdDepth < depth := inside rfl
    simp only [if_neg (ne_of_gt below)]

variable (flush) in
/-- Fields only change the values of the command. -/
theorem scan_fields {s : Scan γ} (inside : s.Inside) {page : UInt8} (away : page ≠ Page.airSync)
    (fields : List (UInt8 × Str)) :
    ∃ want, (pushFields page fields).foldl (Scan.step flush) s =
      { s with values := fieldValues page fields s.values, want := want } := by
  obtain ⟨out, mode, cmdDepth, depth, values, want⟩ := s
  induction fields generalizing values want with
  | nil => exact ⟨want, rfl⟩
  | cons f rest ih =>
    have other : isCommand (page, f.1) = false := by
      unfold isCommand
      rw [decide_eq_false away, Bool.false_and]
    obtain ⟨wanted, later⟩ := ih (Function.update values (page, f.1) (some f.2)) none inside
    use wanted
    unfold pushFields at later ⊢
    rw [List.flatMap_cons, List.foldl_append, scan_text inside other, later]
    rfl

theorem step_start (s : Scan γ) {page token : UInt8} (other : isCommand (page, token) = false) :
    Scan.step flush s (start page token) =
      { s with want := some (page, token), depth := s.depth + 1 } := by
  simp only [start, Scan.step, other, Bool.false_eq_true, if_false, if_true]

theorem step_end {s : Scan γ} (outside : s.mode = none) : Scan.step flush s .endElement =
    { s with depth := s.depth - 1, want := none } := by
  simp only [Scan.step, outside]

theorem plain_elements : ∀ token ∈ [AirSync.sync, AirSync.collections, AirSync.collection,
    AirSync.syncKey, AirSync.collectionId, AirSync.commands, AirSync.serverId,
    AirSync.applicationData], isCommand (Page.airSync, token) = false := by decide +kernel

theorem inside_of_outside {s : Scan γ} (outside : s.mode = none) : s.Inside := by
  intro open_now
  rw [outside] at open_now
  cases open_now

variable (flush) in
theorem scan_opening (syncKey collectionId : Str) :
    ((syncOpening syncKey collectionId).foldl (Scan.step flush) Scan.start).out = [] ∧
      ((syncOpening syncKey collectionId).foldl (Scan.step flush) Scan.start).mode = none := by
  have plain := plain_elements
  unfold syncOpening
  rw [List.foldl_cons, step_start _ (plain _ (by decide)), List.foldl_cons,
    step_start _ (plain _ (by decide)), List.foldl_cons, step_start _ (plain _ (by decide)),
    List.foldl_append, scan_text (inside_of_outside rfl) (plain _ (by decide)),
    List.foldl_append, scan_text (inside_of_outside rfl) (plain _ (by decide)),
    List.foldl_cons, step_start _ (plain _ (by decide))]
  exact ⟨rfl, rfl⟩

/-- What precedes the commands of a request opens none, and what follows them closes none. -/
theorem scan_request (syncKey collectionId : Str) {commands : List Event} {found : List γ}
    (scanned : ∀ s : Scan γ, s.out = [] → s.mode = none →
      (commands.foldl (Scan.step flush) s).out = found ∧
        (commands.foldl (Scan.step flush) s).mode = none) :
    scanCommands flush (syncRequest syncKey collectionId commands) = found := by
  have opening := scan_opening flush syncKey collectionId
  have result := scanned _ opening.1 opening.2
  unfold scanCommands syncRequest
  rw [List.foldl_append, List.foldl_append]
  generalize commands.foldl (Scan.step flush) _ = reached at result ⊢
  obtain ⟨out, mode, cmdDepth, depth, values, want⟩ := reached
  obtain ⟨found_out, outside⟩ := result
  change mode = none at outside
  subst outside
  exact found_out

/-- A `Change` in a request is the one command found, with its `ServerId` and its fields. -/
theorem scan_change (syncKey collectionId sid : Str) {page : UInt8} (away : page ≠ Page.airSync)
    (fields : List (UInt8 × Str)) :
    scanCommands flush (syncRequest syncKey collectionId (changeItem sid page fields)) =
      flush 0 false (fieldValues page fields
        (Function.update (fun _ => none) serverIdTag (some sid))) := by
  apply scan_request
  intro s none_yet outside
  have plain := plain_elements
  have command : Scan.step flush s (start Page.airSync AirSync.change) =
      { s with
        mode := some false
        cmdDepth := s.depth
        values := fun _ => none
        depth := s.depth + 1 } := rfl
  unfold changeItem
  rw [List.foldl_cons, command, List.foldl_append,
    scan_text (fun _ => Int.lt_succ _) (plain _ (by decide)), List.foldl_cons,
    step_start _ (plain _ (by decide)), List.foldl_append]
  obtain ⟨want, scanned⟩ := scan_fields flush
    (s := { s with
      mode := some false
      cmdDepth := s.depth
      values := Function.update (fun _ => none) serverIdTag (some sid)
      depth := s.depth + 1 + 1
      want := some (Page.airSync, AirSync.applicationData) })
    (fun _ => (Int.lt_succ _).trans (Int.lt_succ _)) away fields
  rw [serverIdTag] at scanned
  rw [scanned]
  have still_open : s.depth + 1 ≠ s.depth := by omega
  simp only [List.foldl_cons, List.foldl_nil, Scan.step, add_sub_cancel_right, if_neg still_open,
    if_true, none_yet, List.nil_append, List.length_nil, serverIdTag, and_self]

/-- A `Delete` in a request is the one command found, with its `ServerId`. -/
theorem scan_delete (syncKey collectionId sid : Str) :
    scanCommands flush (syncRequest syncKey collectionId (deleteItem sid)) =
      flush 0 true (Function.update (fun _ => none) serverIdTag (some sid)) := by
  apply scan_request
  intro s none_yet outside
  have plain := plain_elements
  have command : Scan.step flush s (start Page.airSync AirSync.delete) =
      { s with
        mode := some true
        cmdDepth := s.depth
        values := fun _ => none
        depth := s.depth + 1 } := rfl
  unfold deleteItem
  rw [List.foldl_cons, command, List.foldl_append,
    scan_text (fun _ => Int.lt_succ _) (plain _ (by decide)), List.foldl_cons, List.foldl_nil]
  simp only [Scan.step, add_sub_cancel_right, if_true, none_yet, List.nil_append, List.length_nil]
  exact ⟨rfl, trivial⟩

end

end Expresso.Eas
