import Expresso.Eas.Commands

/-! Commands as elements of a document, and what the scan of its events makes of them. -/

namespace Expresso.Eas
open Text Wbxml

/-! ### Documents -/

/-- Elements next to each other: values, which hold a text, bytes or nothing, and elements with
elements inside. -/
inductive Forest where
  | nil
  | empty (tag : Tag) (rest : Forest)
  | text (tag : Tag) (first : Str) (more : List Str) (rest : Forest)
  | data (tag : Tag) (bytes : List UInt8) (rest : Forest)
  | node (tag : Tag) (children rest : Forest)
  deriving DecidableEq

namespace Forest

def events : Forest → List Event
  | nil => []
  | empty tag rest => .startElement tag.1 tag.2 false :: rest.events
  | text tag first more rest =>
      start tag.1 tag.2 :: .text first :: (more.map .text ++ .endElement :: rest.events)
  | data tag bytes rest =>
      start tag.1 tag.2 :: .opaqueData bytes :: .endElement :: rest.events
  | node tag children rest =>
      start tag.1 tag.2 :: (children.events ++ .endElement :: rest.events)

/-- The text of an element that is not inside another. -/
def textOf (tag : Tag) : Forest → Option Str
  | nil => none
  | text tag' first more rest =>
      (rest.textOf tag).or (if tag' = tag then some (first ++ more.flatten) else none)
  | empty _ rest | data _ _ rest | node _ _ rest => rest.textOf tag

/-- The text of an element directly inside one of these. -/
def textIn (outer tag : Tag) : Forest → Option Str
  | nil => none
  | node tag' children rest =>
      (rest.textIn outer tag).or (if tag' = outer then children.textOf tag else none)
  | empty _ rest | text _ _ _ rest | data _ _ rest => rest.textIn outer tag

/-- The last text that follows a start tag, at any depth. -/
def lastText (tag : Tag) : Forest → Option Str
  | nil => none
  | empty _ rest | data _ _ rest => rest.lastText tag
  | text tag' first _ rest => (rest.lastText tag).or (if tag' = tag then some first else none)
  | node _ children rest => (rest.lastText tag).or (children.lastText tag)

/-- No command among the elements, at any depth. -/
def Commandless : Forest → Prop
  | nil => True
  | empty tag rest | text tag _ _ rest | data tag _ rest =>
      isCommand tag = false ∧ rest.Commandless
  | node tag children rest => isCommand tag = false ∧ children.Commandless ∧ rest.Commandless

end Forest

/-- An `Add`, `Change` or `Delete` with what is inside. -/
structure CommandElement where
  delete : Bool
  children : Forest
  deriving DecidableEq

namespace Forest

/-- The commands in document order. -/
def commands : Forest → List CommandElement
  | nil => []
  | empty tag rest | text tag _ _ rest | data tag _ rest =>
      (if isCommand tag then [⟨tag.2 = AirSync.delete, .nil⟩] else []) ++ rest.commands
  | node tag children rest =>
      (if isCommand tag then [⟨tag.2 = AirSync.delete, children⟩] else children.commands) ++
        rest.commands

/-- Commands hold elements, and no command is inside another. -/
def Framed : Forest → Prop
  | nil => True
  | empty tag rest | text tag _ _ rest | data tag _ rest => isCommand tag = false ∧ rest.Framed
  | node tag children rest =>
      (if isCommand tag then children.Commandless else children.Framed) ∧ rest.Framed

end Forest

/-! ### What the commands say -/

namespace CommandElement

/-- The text of the element that the command has for a name: `ServerId` directly inside, the fields
inside the application data. -/
def own (c : CommandElement) (tag : Tag) : Option Str :=
  if tag = serverIdTag then c.children.textOf tag
  else c.children.textIn (Page.airSync, AirSync.applicationData) tag

/-- No other element of these names has the last word in the command. -/
def Clear (c : CommandElement) (tags : List Tag) : Prop :=
  ∀ tag ∈ tags, c.children.lastText tag = c.own tag

def calendar (c : CommandElement) : Option CalCommand :=
  if c.delete then (c.own serverIdTag).map .delete
  else ((c.own (Page.calendar, CalendarToken.uid)).or (c.own serverIdTag)).map fun uid =>
    .upsert {
      uid
      summary := c.own (Page.calendar, CalendarToken.subject)
      location := c.own (Page.calendar, CalendarToken.location)
      startTime := c.own (Page.calendar, CalendarToken.startTime)
      endTime := c.own (Page.calendar, CalendarToken.endTime) }

/-- The `ServerId`, or a new identifier for a contact that has an address. -/
def contactUid (newUid : Str) (c : CommandElement) : Option Str :=
  (c.own serverIdTag).or
    ((c.own (Page.contacts, ContactToken.email1Address)).map fun _ => newUid)

def contact (newUid : Str) (c : CommandElement) : Option ConCommand :=
  if c.delete then (c.own serverIdTag).map .delete
  else (c.contactUid newUid).map fun uid =>
    .upsert {
      uid
      first := c.own (Page.contacts, ContactToken.firstName)
      last := c.own (Page.contacts, ContactToken.lastName)
      fileAs := c.own (Page.contacts, ContactToken.fileAs)
      email := c.own (Page.contacts, ContactToken.email1Address)
      phone := c.own (Page.contacts, ContactToken.mobilePhone)
      company := c.own (Page.contacts, ContactToken.companyName) }

end CommandElement

def calendarTags : List Tag := [serverIdTag, (Page.calendar, CalendarToken.uid),
  (Page.calendar, CalendarToken.subject), (Page.calendar, CalendarToken.location),
  (Page.calendar, CalendarToken.startTime), (Page.calendar, CalendarToken.endTime)]

def contactTags : List Tag := [serverIdTag, (Page.contacts, ContactToken.firstName),
  (Page.contacts, ContactToken.lastName), (Page.contacts, ContactToken.fileAs),
  (Page.contacts, ContactToken.email1Address), (Page.contacts, ContactToken.mobilePhone),
  (Page.contacts, ContactToken.companyName)]

/-- The commands for contacts; each new identifier is made for the command that it goes to. -/
def contactsOf (newUid : Nat → Str) (commands : List CommandElement) : List ConCommand :=
  commands.foldl (fun out c => out ++ (c.contact (newUid out.length)).toList) []

/-! ### The scan of a document -/

section Scanning

variable {γ : Type} {flush : Nat → Bool → Values → List γ}

def Forest.overlay (f : Forest) (v : Values) : Values := fun tag => (f.lastText tag).or (v tag)

theorem scan_texts (more : List Str) (s : Scan γ) (settled : s.want = none) :
    (more.map Event.text).foldl (Scan.step flush) s = s := by
  induction more with
  | nil => rfl
  | cons t more ih =>
    rw [List.map_cons, List.foldl_cons]
    have idle : Scan.step flush s (.text t) = s := by
      obtain ⟨out, mode, cmdDepth, depth, values, want⟩ := s
      cases settled
      rfl
    rw [idle, ih]

/-- The end of an element below the command that is open. -/
theorem step_end_inside {s : Scan γ} (inside : s.mode.isSome → s.cmdDepth + 1 < s.depth) :
    Scan.step flush s .endElement = { s with depth := s.depth - 1, want := none } := by
  obtain ⟨out, mode, cmdDepth, depth, values, want⟩ := s
  cases mode with
  | none => rfl
  | some delete =>
    have below : cmdDepth + 1 < depth := inside rfl
    have other : depth - 1 ≠ cmdDepth := by omega
    simp only [Scan.step, if_neg other]

theorem overlay_text (tag : Tag) (first : Str) (more : List Str) (rest : Forest) (v : Values) :
    rest.overlay (Function.update v tag (some first)) =
      (Forest.text tag first more rest).overlay v := by
  funext wanted
  show (rest.lastText wanted).or _ =
    ((rest.lastText wanted).or (if tag = wanted then some first else none)).or (v wanted)
  rw [Option.or_assoc]
  by_cases same : wanted = tag
  · rw [same, Function.update_self, if_pos rfl]
    rfl
  · rw [Function.update_of_ne same, if_neg (Ne.symm same)]
    rfl

theorem overlay_node (tag : Tag) (children rest : Forest) (v : Values) :
    rest.overlay (children.overlay v) = (Forest.node tag children rest).overlay v :=
  funext fun _ => Option.or_assoc.symm

/-- Elements without a command leave their last texts. -/
theorem scan_commandless {f : Forest} (commandless : f.Commandless) {s : Scan γ}
    (inside : s.Inside) : ∃ want, f.events.foldl (Scan.step flush) s =
      { s with values := f.overlay s.values, want := want } := by
  induction f generalizing s with
  | nil => exact ⟨s.want, rfl⟩
  | empty tag rest ih =>
    obtain ⟨other, later⟩ := commandless
    have opened : Scan.step flush s (.startElement tag.1 tag.2 false) =
        { s with want := some tag } := by
      simp only [Scan.step, other, Bool.false_eq_true, if_false]
    obtain ⟨want, result⟩ := @ih later { s with want := some tag } inside
    refine ⟨want, ?_⟩
    rw [Forest.events, List.foldl_cons, opened, result]
    rfl
  | text tag first more rest ih =>
    obtain ⟨other, later⟩ := commandless
    obtain ⟨want, result⟩ := @ih later
      { s with values := Function.update s.values tag (some first), want := none } inside
    refine ⟨want, ?_⟩
    have deeper : s.mode.isSome → s.cmdDepth + 1 < s.depth + 1 := fun open_now => by
      have := inside open_now
      omega
    have heard : Scan.step flush { s with want := some tag, depth := s.depth + 1 } (.text first) =
        { s with
          values := Function.update s.values tag (some first)
          want := none
          depth := s.depth + 1 } := rfl
    have depth : s.depth + 1 - 1 = s.depth := by omega
    rw [Forest.events, List.foldl_cons, step_start s other, List.foldl_cons, heard,
      List.foldl_append, scan_texts _ _ rfl, List.foldl_cons, step_end_inside deeper,
      ← overlay_text]
    dsimp only
    rw [depth]
    exact result
  | data tag bytes rest ih =>
    obtain ⟨other, later⟩ := commandless
    obtain ⟨want, result⟩ := @ih later { s with want := none } inside
    refine ⟨want, ?_⟩
    have deeper : s.mode.isSome → s.cmdDepth + 1 < s.depth + 1 := fun open_now => by
      have := inside open_now
      omega
    have skipped : Scan.step flush { s with want := some tag, depth := s.depth + 1 }
        (.opaqueData bytes) = { s with want := none, depth := s.depth + 1 } := rfl
    have depth : s.depth + 1 - 1 = s.depth := by omega
    rw [Forest.events, List.foldl_cons, step_start s other, List.foldl_cons, skipped,
      List.foldl_cons, step_end_inside deeper]
    dsimp only
    rw [depth]
    exact result
  | node tag children rest ihChildren ihRest =>
    obtain ⟨other, within, later⟩ := commandless
    have deeper : s.mode.isSome → s.cmdDepth + 1 < s.depth + 1 := fun open_now => by
      have := inside open_now
      omega
    obtain ⟨want, first⟩ := @ihChildren within
      { s with want := some tag, depth := s.depth + 1 } fun open_now => by
        have := inside open_now
        show s.cmdDepth < s.depth + 1
        omega
    obtain ⟨want', second⟩ := @ihRest later
      { s with values := children.overlay s.values, want := none } inside
    refine ⟨want', ?_⟩
    have depth : s.depth + 1 - 1 = s.depth := by omega
    rw [Forest.events, List.foldl_cons, step_start s other, List.foldl_append, first,
      List.foldl_cons, step_end_inside deeper, ← overlay_node tag]
    dsimp only
    rw [depth]
    exact second

/-- What the flushes of these commands give, each with the last texts inside it. -/
def flushed (flush : Nat → Bool → Values → List γ) (out : List γ) (commands : List CommandElement) :
    List γ :=
  commands.foldl
    (fun out c => out ++ flush out.length c.delete (c.children.overlay fun _ => none)) out

theorem step_command (s : Scan γ) {tag : Tag} (command : isCommand tag = true) :
    Scan.step flush s (start tag.1 tag.2) =
      { s with
        mode := some (tag.2 = AirSync.delete)
        cmdDepth := s.depth
        values := fun _ => none
        depth := s.depth + 1 } := by
  simp only [start, Scan.step, command, if_true]

theorem step_end_command {s : Scan γ} {delete : Bool} (mode : s.mode = some delete)
    (depth : s.depth = s.cmdDepth + 1) : Scan.step flush s .endElement =
      { s with
        out := s.out ++ flush s.out.length delete s.values
        mode := none
        depth := s.cmdDepth
        want := none } := by
  have closes : s.depth - 1 = s.cmdDepth := by omega
  simp only [Scan.step, mode, closes, if_true]

variable (flush) in
/-- A part of a document has been scanned, and no command is open. -/
structure Passed (s r : Scan γ) (commands : List CommandElement) : Prop where
  outside : r.mode = none
  depth : r.depth = s.depth
  out : r.out = flushed flush s.out commands

theorem Passed.trans {s r t : Scan γ} {first second : List CommandElement}
    (one : Passed flush s r first) (two : Passed flush r t second) :
    Passed flush s t (first ++ second) where
  outside := two.outside
  depth := two.depth.trans one.depth
  out := by rw [two.out, one.out, flushed, flushed, flushed, List.foldl_append]

theorem passed_commandless {f : Forest} (commandless : f.Commandless) {s : Scan γ}
    (outside : s.mode = none) : Passed flush s (f.events.foldl (Scan.step flush) s) [] := by
  obtain ⟨want, result⟩ := @scan_commandless _ flush f commandless s (inside_of_outside outside)
  rw [result]
  exact ⟨outside, rfl, rfl⟩

theorem passed_command {children : Forest} (commandless : children.Commandless) {tag : Tag}
    (command : isCommand tag = true) (s : Scan γ) :
    Passed flush s ((start tag.1 tag.2 :: (children.events ++ [.endElement])).foldl
      (Scan.step flush) s) [⟨tag.2 = AirSync.delete, children⟩] := by
  obtain ⟨want, result⟩ := @scan_commandless _ flush children commandless
    { s with
      mode := some (tag.2 = AirSync.delete)
      cmdDepth := s.depth
      values := fun _ => none
      depth := s.depth + 1 } fun _ => Int.lt_succ _
  rw [List.foldl_cons, step_command s command, List.foldl_append, result, List.foldl_cons,
    step_end_command rfl rfl]
  exact ⟨rfl, rfl, rfl⟩

/-- Every command is flushed where it ends. -/
theorem scan_framed {f : Forest} (framed : f.Framed) {s : Scan γ} (outside : s.mode = none) :
    Passed flush s (f.events.foldl (Scan.step flush) s) f.commands := by
  induction f generalizing s with
  | nil => exact ⟨outside, rfl, rfl⟩
  | empty tag rest ih =>
    obtain ⟨other, later⟩ := framed
    have here := @passed_commandless _ flush (.empty tag .nil) ⟨other, trivial⟩ s outside
    have whole := here.trans (ih later here.outside)
    rw [← List.foldl_append] at whole
    rw [Forest.commands, other]
    exact whole
  | text tag first more rest ih =>
    obtain ⟨other, later⟩ := framed
    have here := @passed_commandless _ flush (.text tag first more .nil) ⟨other, trivial⟩ s outside
    have whole := here.trans (ih later here.outside)
    rw [← List.foldl_append] at whole
    rw [Forest.commands, other]
    have events : (Forest.text tag first more .nil).events ++ rest.events =
        (Forest.text tag first more rest).events := by
      simp [Forest.events]
    rwa [events] at whole
  | data tag bytes rest ih =>
    obtain ⟨other, later⟩ := framed
    have here := @passed_commandless _ flush (.data tag bytes .nil) ⟨other, trivial⟩ s outside
    have whole := here.trans (ih later here.outside)
    rw [← List.foldl_append] at whole
    rw [Forest.commands, other]
    exact whole
  | node tag children rest ihChildren ihRest =>
    obtain ⟨within, later⟩ := framed
    have events : (Forest.node tag children rest).events =
        (start tag.1 tag.2 :: (children.events ++ [.endElement])) ++ rest.events := by
      simp [Forest.events]
    rw [events, List.foldl_append, Forest.commands]
    by_cases command : isCommand tag = true
    · rw [if_pos command] at within ⊢
      have here := @passed_command _ flush children within tag command s
      exact here.trans (ihRest later here.outside)
    · rw [if_neg command] at within ⊢
      have other : isCommand tag = false := by simpa using command
      have inner := @ihChildren within { s with want := some tag, depth := s.depth + 1 } outside
      have here : Passed flush s ((start tag.1 tag.2 :: (children.events ++ [.endElement])).foldl
          (Scan.step flush) s) children.commands := by
        rw [List.foldl_cons, step_start s other, List.foldl_append, List.foldl_cons,
          step_end inner.outside]
        refine ⟨inner.outside, ?_, inner.out⟩
        show _ - 1 = s.depth
        rw [inner.depth]
        show s.depth + 1 - 1 = s.depth
        omega
      exact here.trans (ihRest later here.outside)

end Scanning

/-! ### The commands that are found -/

theorem overlay_clear {c : CommandElement} {tags : List Tag} (clear : c.Clear tags) {tag : Tag}
    (member : tag ∈ tags) : c.children.overlay (fun _ => none) tag = c.own tag := by
  rw [← clear tag member]
  exact Option.or_none

theorem calendarCommand_clear {c : CommandElement} (clear : c.Clear calendarTags) (index : Nat) :
    calendarCommand index c.delete (c.children.overlay fun _ => none) = c.calendar.toList := by
  have heard {tag : Tag} (member : tag ∈ calendarTags) := overlay_clear clear member
  unfold calendarCommand CommandElement.calendar EventUpsert.ofValues
  rw [heard (by decide), heard (by decide), heard (by decide), heard (by decide),
    heard (by decide), heard (by decide)]
  cases c.delete with
  | true => cases c.own serverIdTag <;> rfl
  | false => cases (c.own (Page.calendar, CalendarToken.uid)).or (c.own serverIdTag) <;> rfl

theorem contactCommand_clear {c : CommandElement} (clear : c.Clear contactTags)
    (newUid : Nat → Str) (index : Nat) :
    contactCommand newUid index c.delete (c.children.overlay fun _ => none) =
      (c.contact (newUid index)).toList := by
  have heard {tag : Tag} (member : tag ∈ contactTags) := overlay_clear clear member
  unfold contactCommand CommandElement.contact CommandElement.contactUid ContactUpsert.ofValues
  rw [heard (by decide), heard (by decide), heard (by decide), heard (by decide),
    heard (by decide), heard (by decide), heard (by decide)]
  cases c.delete with
  | true => cases c.own serverIdTag <;> rfl
  | false =>
    cases c.own serverIdTag <;>
      cases c.own (Page.contacts, ContactToken.email1Address) <;> rfl

theorem flushed_calendar {commands : List CommandElement}
    (clear : ∀ c ∈ commands, c.Clear calendarTags) (out : List CalCommand) :
    flushed calendarCommand out commands = out ++ commands.filterMap (·.calendar) := by
  induction commands generalizing out with
  | nil => exact (List.append_nil out).symm
  | cons c commands ih =>
    have here := calendarCommand_clear (clear c List.mem_cons_self) out.length
    have later := ih (fun d member => clear d (List.mem_cons_of_mem c member))
      (out ++ c.calendar.toList)
    rw [flushed, List.foldl_cons, here, ← flushed, later, List.append_assoc]
    cases found : c.calendar <;> simp [found]

theorem flushed_contacts {commands : List CommandElement}
    (clear : ∀ c ∈ commands, c.Clear contactTags) (newUid : Nat → Str) (out : List ConCommand) :
    flushed (contactCommand newUid) out commands =
      commands.foldl (fun out c => out ++ (c.contact (newUid out.length)).toList) out := by
  induction commands generalizing out with
  | nil => rfl
  | cons c commands ih =>
    have here := contactCommand_clear (clear c List.mem_cons_self) newUid out.length
    rw [flushed, List.foldl_cons, here, List.foldl_cons]
    exact ih (fun d member => clear d (List.mem_cons_of_mem c member)) _

/-- Of a document with framed commands, whose own elements have the last word, exactly the commands
with an identifier are found, in document order, each with the texts of its own elements. -/
theorem commands_exact {body : List UInt8} {f : Forest} (decoded : decode body = .ok f.events)
    (framed : f.Framed) :
    ((∀ c ∈ f.commands, c.Clear calendarTags) →
      parseCalendarCommands body = f.commands.filterMap (·.calendar)) ∧
    ((∀ c ∈ f.commands, c.Clear contactTags) →
      ∀ newUid, parseContactCommands newUid body = contactsOf newUid f.commands) := by
  constructor
  · intro clear
    have passed := @scan_framed _ calendarCommand f framed Scan.start rfl
    unfold parseCalendarCommands
    rw [decoded]
    show (f.events.foldl (Scan.step calendarCommand) Scan.start).out = _
    rw [passed.out, flushed_calendar clear]
    rfl
  · intro clear newUid
    have passed := @scan_framed _ (contactCommand newUid) f framed Scan.start rfl
    unfold parseContactCommands
    rw [decoded]
    show (f.events.foldl (Scan.step (contactCommand newUid)) Scan.start).out = _
    rw [passed.out, flushed_contacts clear]
    rfl

instance decideCommandless : (f : Forest) → Decidable f.Commandless
  | .nil => isTrue trivial
  | .empty tag rest | .text tag _ _ rest | .data tag _ rest =>
      have := decideCommandless rest
      inferInstanceAs (Decidable (isCommand tag = false ∧ rest.Commandless))
  | .node tag children rest =>
      have := decideCommandless children
      have := decideCommandless rest
      inferInstanceAs (Decidable (isCommand tag = false ∧ children.Commandless ∧ rest.Commandless))

instance decideFramed : (f : Forest) → Decidable f.Framed
  | .nil => isTrue trivial
  | .empty tag rest | .text tag _ _ rest | .data tag _ rest =>
      have := decideFramed rest
      inferInstanceAs (Decidable (isCommand tag = false ∧ rest.Framed))
  | .node tag children rest =>
      have := decideFramed children
      have := decideFramed rest
      inferInstanceAs (Decidable
        ((if isCommand tag then children.Commandless else children.Framed) ∧ rest.Framed))

instance (c : CommandElement) (tags : List Tag) : Decidable (c.Clear tags) :=
  decidable_of_iff (tags.all (fun tag => c.children.lastText tag = c.own tag) = true)
    (by simp [CommandElement.Clear])

/-! ### Requests -/

/-- An element with a text, in one string. -/
def element (tag : Tag) (s : String) (rest : Forest) : Forest := .text tag s.toList [] rest

/-- A Sync request with these commands. -/
def requestOf (commands : Forest) : Forest :=
  .node (Page.airSync, AirSync.sync)
    (.node (Page.airSync, AirSync.collections)
      (.node (Page.airSync, AirSync.collection)
        (.node (Page.airSync, AirSync.commands) commands .nil) .nil) .nil) .nil

def addTag : Tag := (Page.airSync, AirSync.add)

/-- An `Add` with a `ServerId` and application data. -/
def addOf (sid : String) (fields : Forest) (rest : Forest) : Forest :=
  .node addTag (element serverIdTag sid
    (.node (Page.airSync, AirSync.applicationData) fields .nil)) rest

/-- An `Add` and a `Delete` in one request. -/
def twoCommands : Forest :=
  requestOf (addOf "new-1" (element (Page.calendar, CalendarToken.uid) "uid-1@x"
    (element (Page.calendar, CalendarToken.subject) "Lunch" .nil))
    (.node (Page.airSync, AirSync.delete) (element serverIdTag "evt-del" .nil) .nil))

theorem twoCommands_exact :
    parseCalendarCommands (encode twoCommands.events) =
        twoCommands.commands.filterMap (·.calendar) ∧
      parseContactCommands (fun _ => []) (encode twoCommands.events) =
        contactsOf (fun _ => []) twoCommands.commands := by
  have decoded : decode (encode twoCommands.events) = .ok twoCommands.events := by decide
  obtain ⟨calendar, contacts⟩ := commands_exact decoded (by decide)
  exact ⟨calendar (by decide), contacts (by decide) _⟩

/-- An event whose start is said again further inside. -/
def nestedStart : Forest :=
  requestOf (addOf "1" (element (Page.calendar, CalendarToken.startTime) "9"
    (.node (Page.calendar, 0x1A) (.node (Page.calendar, 0x1B)
      (element (Page.calendar, CalendarToken.startTime) "17" .nil) .nil) .nil)) .nil)

/-- An event with a subject in two strings. -/
def splitSubject : Forest :=
  requestOf (addOf "1"
    (.text (Page.calendar, CalendarToken.subject) "Lu".toList ["nch".toList] .nil) .nil)

/-- An empty `Add` before an element of another name with a `ServerId`. -/
def emptyAdd : Forest :=
  requestOf (.empty addTag (.node (Page.airSync, 0x0A) (element serverIdTag "1" .nil) .nil))

/-- A contact with an address and no `ServerId`. -/
def addressOnly : Forest :=
  requestOf (.node addTag (.node (Page.airSync, AirSync.applicationData)
    (element (Page.contacts, ContactToken.email1Address) "a@b" .nil) .nil) .nil)

/-- A text further inside wins, a text is cut after its first string, an empty command takes the
identifier of what follows it; and a contact without an identifier is a command too. -/
theorem commands_inexact :
    (parseCalendarCommands (encode nestedStart.events) =
        [.upsert ⟨['1'], none, none, some "17".toList, none⟩] ∧
      nestedStart.commands.filterMap (·.calendar) =
        [.upsert ⟨['1'], none, none, some ['9'], none⟩]) ∧
    (parseCalendarCommands (encode splitSubject.events) =
        [.upsert ⟨['1'], some "Lu".toList, none, none, none⟩] ∧
      splitSubject.commands.filterMap (·.calendar) =
        [.upsert ⟨['1'], some "Lunch".toList, none, none, none⟩]) ∧
    (parseCalendarCommands (encode emptyAdd.events) =
        [.upsert ⟨['1'], none, none, none, none⟩] ∧
      emptyAdd.commands.map (·.own serverIdTag) = [none]) ∧
    parseContactCommands (fun _ => "new".toList) (encode addressOnly.events) =
        [.upsert ⟨"new".toList, none, none, none, some "a@b".toList, none, none⟩] ∧
      addressOnly.commands.map (·.own serverIdTag) = [none] := by
  decide

end Expresso.Eas
