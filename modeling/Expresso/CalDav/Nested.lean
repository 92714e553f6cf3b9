import Expresso.CalDav.Export
import Mathlib.Data.List.Induction
import Mathlib.Tactic.Tauto

/-! A component nested in an event. The extractor tells by a flag whether it is inside the event,
so it reads the lines of a nested component as the event's own. -/

namespace Expresso.CalDav.Nested
open Text Time

/-! ### What a line sets -/

/-- The property that a line sets, and what it is set from. -/
structure Setting where
  property : Property
  params : Option Str
  value : Str

def settingOf (line : Str) : Option Setting :=
  (splitOnce ':' (trimEndMatches '\r' line)).bind fun (head, value) =>
    (Property.named (splitHead head).1).map fun property => ⟨property, (splitHead head).2, value⟩

def settings (lines : List Str) : List Setting := lines.filterMap settingOf

/-- The lines that the extractor compares with the ends of an event. -/
def opens (line : Str) : Bool := beginsEvent (trimEndMatches '\r' line)
def closes (line : Str) : Bool := endsEvent (trimEndMatches '\r' line)

/-- What is set on the lines inside an event that has begun before them. -/
def settingsUpTo (lines : List Str) : List Setting :=
  settings ((lines.takeWhile fun l => !closes l).filter fun l => !opens l)

/-- What is set on the lines of an event that begins among them. -/
def settingsFrom (lines : List Str) : List Setting :=
  settings ((lines.dropWhile fun l => !opens l).filter fun l => !opens l)

section
variable (crates : Crates)

def apply (ev : ParsedEvent) (s : Setting) : ParsedEvent :=
  ev.set crates s.params s.value s.property

def applyAll (l : List Setting) (ev : ParsedEvent) : ParsedEvent := l.foldl (apply crates) ev

/-- The extractor stands inside the event at the end of the lines. -/
def InsideEvent (lines : List Str) : Prop :=
  (∃ l ∈ lines, opens l = true) ∧ ∀ l ∈ lines, closes l = false

variable {crates}

theorem applyProperty_eq (ev : ParsedEvent) (line : Str) :
    applyProperty crates ev (trimEndMatches '\r' line) =
      ((settingOf line).map (apply crates ev)).getD ev := by
  unfold applyProperty settingOf
  cases splitOnce ':' (trimEndMatches '\r' line) with
  | none => rfl
  | some halves =>
    obtain ⟨head, value⟩ := halves
    simp only [Option.bind_some]
    cases Property.named (splitHead head).1 with
    | none => rfl
    | some property => rfl

theorem applyAll_settings_cons (ev : ParsedEvent) (line : Str) (rest : List Str) :
    applyAll crates (settings (line :: rest)) ev =
      applyAll crates (settings rest) (applyProperty crates ev (trimEndMatches '\r' line)) := by
  rw [applyProperty_eq]
  unfold settings
  cases set : settingOf line with
  | none => simp only [List.filterMap_cons, set, Option.map_none, Option.getD_none]
  | some s => simp only [List.filterMap_cons, set, Option.map_some, Option.getD_some]; rfl

theorem parseLines_cons (line : Str) (rest : List Str) (inEvent : Bool) (ev : ParsedEvent) :
    parseLines crates (line :: rest) inEvent ev =
      if opens line then parseLines crates rest true ev
      else if closes line then ev
      else if inEvent then
        parseLines crates rest true (applyProperty crates ev (trimEndMatches '\r' line))
      else parseLines crates rest false ev := by
  simp only [parseLines, opens, closes, beginsEvent, endsEvent, decide_eq_true_eq]

theorem opens_not_closes {line : Str} (begins : opens line = true) : closes line = false := by
  simp only [opens, closes, beginsEvent, endsEvent, decide_eq_true_eq] at begins ⊢
  rw [begins]
  decide

/-- Inside the event the lines up to its end are applied in order. -/
theorem parseLines_inside (lines : List Str) (ev : ParsedEvent) :
    parseLines crates lines true ev = applyAll crates (settingsUpTo lines) ev := by
  induction lines generalizing ev with
  | nil => rfl
  | cons line rest ih =>
    rw [parseLines_cons, settingsUpTo]
    by_cases begins : opens line = true
    · have ends := opens_not_closes begins
      rw [if_pos begins, List.takeWhile_cons_of_pos (by simp [ends]),
        List.filter_cons_of_neg (by simp [begins])]
      exact ih ev
    · by_cases ends : closes line = true
      · rw [if_neg begins, if_pos ends, List.takeWhile_cons_of_neg (by simp [ends])]
        rfl
      · rw [if_neg begins, if_neg ends, if_pos rfl,
          List.takeWhile_cons_of_pos (by simpa using ends),
          List.filter_cons_of_pos (by simpa using begins), applyAll_settings_cons]
        exact ih _

theorem parseLines_inside_append {lines : List Str} (open_ : ∀ l ∈ lines, closes l = false)
    (rest : List Str) (ev : ParsedEvent) :
    parseLines crates (lines ++ rest) true ev = parseLines crates rest true
      (applyAll crates (settings (lines.filter fun l => !opens l)) ev) := by
  induction lines generalizing ev with
  | nil => rfl
  | cons line others ih =>
    have ends := open_ line List.mem_cons_self
    have later := ih fun l member => open_ l (List.mem_cons_of_mem line member)
    rw [List.cons_append, parseLines_cons]
    by_cases begins : opens line = true
    · rw [if_pos begins, List.filter_cons_of_neg (by simp [begins])]
      exact later ev
    · rw [if_neg begins, if_neg (by simp [ends]), if_pos rfl,
        List.filter_cons_of_pos (by simpa using begins), applyAll_settings_cons]
      exact later _

theorem parseLines_from {lines : List Str} (inside : InsideEvent lines) (rest : List Str)
    (ev : ParsedEvent) : parseLines crates (lines ++ rest) false ev =
      parseLines crates rest true (applyAll crates (settingsFrom lines) ev) := by
  obtain ⟨begun, open_⟩ := inside
  induction lines with
  | nil =>
    obtain ⟨_, member, _⟩ := begun
    cases member
  | cons line others ih =>
    have ends := open_ line List.mem_cons_self
    have later : ∀ l ∈ others, closes l = false :=
      fun l member => open_ l (List.mem_cons_of_mem line member)
    rw [List.cons_append, parseLines_cons, settingsFrom]
    by_cases begins : opens line = true
    · rw [if_pos begins, List.dropWhile_cons_of_neg (by simp [begins]),
        List.filter_cons_of_neg (by simp [begins])]
      exact parseLines_inside_append later rest ev
    · have among : ∃ l ∈ others, opens l = true := by
        obtain ⟨l, member, first⟩ := begun
        rcases List.mem_cons.mp member with rfl | inOthers
        · exact absurd first begins
        · exact ⟨l, inOthers, first⟩
      rw [if_neg begins, if_neg (by simp [ends]), if_neg (by decide),
        List.dropWhile_cons_of_pos (by simpa using begins)]
      exact ih among later

end

/-! ### Texts put between lines -/

theorem unfoldLine_head {line : Str} (leads : Leads line) (out : List Str) :
    unfoldLine out line = out ++ [(stripSuffix ['\r'] line).getD line] := by
  have initial : (stripSuffix ['\r'] line).getD line <+: line := by
    simp only [stripSuffix]
    split
    · exact List.take_prefix _ line
    · exact List.prefix_rfl
  unfold unfoldLine
  cases stripped : (stripSuffix ['\r'] line).getD line with
  | nil => rfl
  | cons c rest =>
    rw [stripped] at initial
    obtain ⟨after, whole⟩ := initial
    have kept : ¬ (c = ' ' ∨ c = '\t') := by
      rw [← whole] at leads
      simpa [Leads] using leads
    cases out.getLast? with
    | none => rfl
    | some previous => simp only [if_neg kept]

/-- What follows a line end and does not start with a blank is unfolded on its own. -/
theorem unfoldLines_append (front : Str) {rest : Str} (leads : Leads rest) :
    unfoldLines (front ++ '\n' :: rest) = unfoldLines front ++ unfoldLines rest := by
  unfold unfoldLines
  rw [split_append_sep, List.foldl_append]
  generalize (split '\n' front).foldl unfoldLine [] = out
  cases pieces : split '\n' rest with
  | nil => exact absurd pieces (split_ne_nil '\n' rest)
  | cons first others =>
    have leading : Leads first := by
      cases rest with
      | nil =>
        rw [split] at pieces
        cases pieces
        exact leads
      | cons c tail =>
        rw [split] at pieces
        split at pieces
        · cases pieces
          exact leads_nil
        · cases later : split '\n' tail with
          | nil => exact absurd later (split_ne_nil '\n' tail)
          | cons piece _ =>
            rw [later] at pieces
            cases pieces
            exact leads
    rw [List.foldl_cons, List.foldl_cons, unfoldLine_head leading, unfoldLine_head leading,
      List.nil_append, foldl_unfoldLine_append out (List.cons_ne_nil _ _)]

/-! ### One property at a time -/

section
variable {crates : Crates}

/-- The event with one of its properties, the others as they are at first. -/
def only (ev : ParsedEvent) : Property → ParsedEvent
  | .uid => { uid := ev.uid }
  | .summary => { summary := ev.summary }
  | .description => { description := ev.description }
  | .location => { location := ev.location }
  | .rrule => { rrule := ev.rrule }
  | .status => { status := ev.status }
  | .classification => { classification := ev.classification }
  | .transp => { transp := ev.transp }
  | .organizer => { organizerEmail := ev.organizerEmail }
  | .sequence => { sequence := ev.sequence }
  | .dtstart => { dtstart := ev.dtstart }
  | .dtend => { dtend := ev.dtend }
  | .dtstamp => { dtstamp := ev.dtstamp }
  | .attach => { attachments := ev.attachments }
  | .categories => { categories := ev.categories }

/-- The last of the settings of a property. -/
def lastOf (p : Property) (l : List Setting) : Option Setting :=
  (l.filter fun s => s.property = p).getLast?

/-- What the settings make of a property that no line has set before. -/
def effect (crates : Crates) (p : Property) (l : List Setting) : ParsedEvent :=
  match lastOf p l with
  | none => {}
  | some s => apply crates {} s

/-- A property of which the last line counts. -/
def Overwritten (p : Property) : Prop := p ≠ .attach ∧ p ≠ .categories

theorem only_set_self {p : Property} (overwritten : Overwritten p) (ev : ParsedEvent)
    (params : Option Str) (value : Str) :
    only (ev.set crates params value p) p = ParsedEvent.set crates {} params value p := by
  cases p with
  | attach => exact absurd rfl overwritten.1
  | categories => exact absurd rfl overwritten.2
  | _ => rfl

theorem only_set_other {p q : Property} (other : q ≠ p) (ev : ParsedEvent) (params : Option Str)
    (value : Str) : only (ev.set crates params value q) p = only ev p := by
  cases p <;> cases q <;> first | rfl | exact absurd rfl other

theorem only_applyAll {p : Property} (overwritten : Overwritten p) (l : List Setting)
    (ev : ParsedEvent) : only (applyAll crates l ev) p =
      if ∃ s ∈ l, s.property = p then effect crates p l else only ev p := by
  induction l using List.reverseRecOn with
  | nil => simp [applyAll]
  | append_singleton front s ih =>
    have step : applyAll crates (front ++ [s]) ev = apply crates (applyAll crates front ev) s :=
      List.foldl_concat ..
    rw [step, apply]
    by_cases mine : s.property = p
    · have named : ∃ s' ∈ front ++ [s], s'.property = p := ⟨s, by simp, mine⟩
      have last : lastOf p (front ++ [s]) = some s := by
        rw [lastOf, List.filter_append, List.filter_cons_of_pos (by simpa using mine)]
        simp
      rw [if_pos named, effect, last]
      show only (ParsedEvent.set crates _ s.params s.value s.property) p =
        ParsedEvent.set crates {} s.params s.value s.property
      rw [mine]
      exact only_set_self overwritten _ _ _
    · have same : lastOf p (front ++ [s]) = lastOf p front := by
        rw [lastOf, List.filter_append, List.filter_cons_of_neg (by simpa using mine)]
        simp [lastOf]
      rw [only_set_other mine, ih]
      simp only [effect, same, List.mem_append, List.mem_singleton, or_and_right, exists_or,
        exists_eq_left, mine, or_false]

/-- The properties of which every line counts are appended. -/
theorem lists_applyAll (l : List Setting) (ev : ParsedEvent) :
    (applyAll crates l ev).attachments = ev.attachments ++
        (l.filter fun s => s.property = .attach).map (fun s => parseAttach s.params s.value) ∧
      (applyAll crates l ev).categories = ev.categories ++
        (l.filter fun s => s.property = .categories).flatMap fun s =>
          parseCategories s.value := by
  induction l generalizing ev with
  | nil => simp [applyAll]
  | cons s rest ih =>
    obtain ⟨attached, categorised⟩ := ih (apply crates ev s)
    have step : applyAll crates (s :: rest) ev = applyAll crates rest (apply crates ev s) := rfl
    rw [step, attached, categorised]
    obtain ⟨property, params, value⟩ := s
    cases property <;> simp [apply, ParsedEvent.set]

/-! ### The fields of the event -/

/-- The properties whose last line counts, of those that are compared. -/
def compared : List Property :=
  [.uid, .summary, .description, .location, .dtstart, .dtend, .rrule, .status, .organizer,
    .sequence]

/-- The same fields. -/
def Same (ev ev' : ParsedEvent) : Prop :=
  ev.uid = ev'.uid ∧ ev.summary = ev'.summary ∧ ev.description = ev'.description ∧
    ev.location = ev'.location ∧ ev.dtstart = ev'.dtstart ∧ ev.dtend = ev'.dtend ∧
    ev.rrule = ev'.rrule ∧ ev.status = ev'.status ∧ ev.categories = ev'.categories ∧
    ev.attachments = ev'.attachments ∧ ev.organizerEmail = ev'.organizerEmail ∧
    ev.sequence = ev'.sequence

theorem same_iff (ev ev' : ParsedEvent) : Same ev ev' ↔
    (∀ p ∈ compared, only ev p = only ev' p) ∧ ev.attachments = ev'.attachments ∧
      ev.categories = ev'.categories := by
  simp only [compared, List.forall_mem_cons, List.not_mem_nil, false_implies, implies_true,
    and_true, only, ParsedEvent.mk.injEq, true_and, Same]
  tauto

/-- What is set between two parts of an event shows in none of its fields: a property is set
again later, or to what it was before; nothing is attached and no category named. -/
structure Hidden (crates : Crates) (before between after : List Setting) : Prop where
  overwritten : ∀ p ∈ compared, (∃ s ∈ between, s.property = p) →
    (¬ ∃ s ∈ after, s.property = p) → effect crates p between = effect crates p before
  attach : ∀ s ∈ between, s.property ≠ .attach
  categories : ∀ s ∈ between, s.property = .categories → parseCategories s.value = []

theorem overwritten_of_compared {p : Property} (member : p ∈ compared) : Overwritten p := by
  constructor
  · rintro rfl
    exact absurd member (by decide)
  · rintro rfl
    exact absurd member (by decide)

theorem only_initial (p : Property) : only {} p = {} := by
  cases p <;> rfl

theorem effect_of_unnamed {p : Property} {l : List Setting}
    (unnamed : ¬ ∃ s ∈ l, s.property = p) : effect crates p l = {} := by
  have none_ : l.filter (fun s => decide (s.property = p)) = [] := by
    apply List.filter_eq_nil_iff.mpr
    intro s member mine
    exact unnamed ⟨s, member, by simpa using mine⟩
  rw [effect, lastOf, none_]
  rfl

/-- From the start, the settings decide what a property is. -/
theorem only_from_start {p : Property} (overwritten : Overwritten p) (l : List Setting) :
    only (applyAll crates l {}) p = effect crates p l := by
  rw [only_applyAll overwritten]
  split
  · rfl
  · next unnamed => rw [only_initial, effect_of_unnamed unnamed]

theorem same_applyAll_iff (before between after : List Setting) :
    Same (applyAll crates after (applyAll crates between (applyAll crates before {})))
        (applyAll crates after (applyAll crates before {})) ↔
      Hidden crates before between after := by
  have scalar : ∀ p ∈ compared,
      (only (applyAll crates after (applyAll crates between (applyAll crates before {}))) p =
        only (applyAll crates after (applyAll crates before {})) p ↔
      ((∃ s ∈ between, s.property = p) → (¬ ∃ s ∈ after, s.property = p) →
        effect crates p between = effect crates p before)) := by
    intro p member
    have overwritten := overwritten_of_compared member
    rw [only_applyAll overwritten after, only_applyAll overwritten after,
      only_applyAll overwritten between, only_from_start overwritten]
    by_cases later : ∃ s ∈ after, s.property = p
    · simp [later]
    · by_cases named : ∃ s ∈ between, s.property = p
      · simp [later, named]
      · simp [later, named]
  rw [same_iff, (lists_applyAll after _).1, (lists_applyAll after _).2,
    (lists_applyAll between _).1, (lists_applyAll between _).2, (lists_applyAll after _).1, (lists_applyAll after _).2,
    List.append_cancel_right_eq, List.append_cancel_right_eq, List.append_right_eq_self,
    List.append_right_eq_self, List.map_eq_nil_iff, List.filter_eq_nil_iff, List.flatMap_eq_nil_iff]
  constructor
  · intro ⟨each, attached, categorised⟩
    refine ⟨fun p member => (scalar p member).mp (each p member), ?_, ?_⟩
    · intro s member mine
      exact attached s member (by simpa using mine)
    · intro s member mine
      exact categorised s (List.mem_filter.mpr ⟨member, by simpa using mine⟩)
  · intro hidden
    refine ⟨fun p member => (scalar p member).mpr (hidden.overwritten p member), ?_, ?_⟩
    · intro s member mine
      exact hidden.attach s member (by simpa using mine)
    · intro s member
      obtain ⟨among, mine⟩ := List.mem_filter.mp member
      exact hidden.categories s among (by simpa using mine)

end

/-! ### Nested components -/

inductive Edge where
  | begins | ends
  deriving DecidableEq

/-- A line that begins or ends a component, with its name in upper case. -/
def edge (line : Str) : Option (Edge × Str) :=
  let upper := toAsciiUppercase (trimEndMatches '\r' line)
  ((stripPrefix "BEGIN:".toList upper).map (Edge.begins, ·)).or
    ((stripPrefix "END:".toList upper).map (Edge.ends, ·))

/-- Property lines and whole components, none of them an event. -/
inductive Contents : List Str → Prop
  | nil : Contents []
  | property {line : Str} {rest : List Str} :
      edge line = none → Contents rest → Contents (line :: rest)
  | component {first last name : Str} {inner rest : List Str} :
      name ≠ "VEVENT".toList → edge first = some (.begins, name) → Contents inner →
      edge last = some (.ends, name) → Contents rest → Contents (first :: inner ++ last :: rest)

/-- The text of one component. -/
structure SubComponent (block : Str) : Prop where
  leads : Leads block
  lines : ∃ first inner last name, unfoldLines block = first :: inner ++ [last] ∧
    name ≠ "VEVENT".toList ∧ edge first = some (.begins, name) ∧ Contents inner ∧
    edge last = some (.ends, name)

theorem edge_of_opens {line : Str} (begins : opens line = true) :
    edge line = some (.begins, "VEVENT".toList) := by
  simp only [opens, beginsEvent, decide_eq_true_eq] at begins
  simp only [edge, begins]
  decide

theorem edge_of_closes {line : Str} (ends : closes line = true) :
    edge line = some (.ends, "VEVENT".toList) := by
  simp only [closes, endsEvent, decide_eq_true_eq] at ends
  simp only [edge, ends]
  decide

/-- A line that does not delimit an event. -/
def Apart (line : Str) : Prop := opens line = false ∧ closes line = false

theorem apart_of_edge {line : Str}
    (other : ∀ which, edge line ≠ some (which, "VEVENT".toList)) : Apart line := by
  constructor
  · exact Bool.eq_false_iff.mpr fun begins => other .begins (edge_of_opens begins)
  · exact Bool.eq_false_iff.mpr fun ends => other .ends (edge_of_closes ends)

theorem apart_of_named {line name : Str} {which : Edge} (other : name ≠ "VEVENT".toList)
    (delimits : edge line = some (which, name)) : Apart line :=
  apart_of_edge fun _ same => other (congrArg Prod.snd (Option.some.inj (delimits.symm.trans same)))

theorem Contents.apart {lines : List Str} (contents : Contents lines) : ∀ l ∈ lines, Apart l := by
  induction contents with
  | nil => exact fun _ member => absurd member List.not_mem_nil
  | property plain _ ih =>
    intro l member
    rcases List.mem_cons.mp member with rfl | later
    · exact apart_of_edge fun which same => by cases plain.symm.trans same
    · exact ih l later
  | component other first _ last _ inner rest =>
    intro l member
    rcases List.mem_append.mp member with front | back
    · rcases List.mem_cons.mp front with rfl | inside
      · exact apart_of_named other first
      · exact inner l inside
    · rcases List.mem_cons.mp back with rfl | later
      · exact apart_of_named other last
      · exact rest l later

theorem SubComponent.apart {block : Str} (sub : SubComponent block) :
    ∀ l ∈ unfoldLines block, Apart l := by
  obtain ⟨first, inner, last, name, written, other, begins, contents, ends⟩ := sub.lines
  rw [written]
  exact (Contents.component other begins contents ends .nil).apart

theorem settingsUpTo_append {lines : List Str} (apart : ∀ l ∈ lines, Apart l) (rest : List Str) :
    settingsUpTo (lines ++ rest) = settings lines ++ settingsUpTo rest := by
  have open_ : ∀ l ∈ lines, (!closes l) = true := fun l member => by simp [(apart l member).2]
  have kept : ∀ l ∈ lines, (!opens l) = true := fun l member => by simp [(apart l member).1]
  rw [settingsUpTo, List.takeWhile_append_of_pos open_, List.filter_append,
    List.filter_eq_self.mpr kept, settings, List.filterMap_append]
  rfl

/-- A component put into an event between two lines leaves its fields as they are, just where
what its lines set is hidden. -/
theorem parseVevent_nested_iff (crates : Crates) {front rest block : Str} {ev : ParsedEvent}
    (accepted : parseVevent crates (front ++ '\n' :: rest) = .ok ev)
    (inside : InsideEvent (unfoldLines front)) (boundary : Leads rest)
    (sub : SubComponent block) :
    (∃ ev', parseVevent crates (front ++ '\n' :: (block ++ '\n' :: rest)) = .ok ev' ∧
        Same ev' ev) ↔
      Hidden crates (settingsFrom (unfoldLines front)) (settings (unfoldLines block))
        (settingsUpTo (unfoldLines rest)) := by
  have lead : Leads (block ++ '\n' :: rest) := by
    have leads := sub.leads
    cases block with
    | nil => exact ⟨by simp, by simp⟩
    | cons c tail => exact leads
  have before : parseLines crates (unfoldLines (front ++ '\n' :: rest)) false {} =
      applyAll crates (settingsUpTo (unfoldLines rest))
        (applyAll crates (settingsFrom (unfoldLines front)) {}) := by
    rw [unfoldLines_append front boundary, parseLines_from inside, parseLines_inside]
  have after : parseLines crates (unfoldLines (front ++ '\n' :: (block ++ '\n' :: rest))) false {} =
      applyAll crates (settingsUpTo (unfoldLines rest))
        (applyAll crates (settings (unfoldLines block))
          (applyAll crates (settingsFrom (unfoldLines front)) {})) := by
    rw [unfoldLines_append front lead, unfoldLines_append block boundary, parseLines_from inside,
      parseLines_inside, settingsUpTo_append sub.apart]
    exact List.foldl_append
  rw [← same_applyAll_iff]
  rw [parseVevent, before] at accepted
  rw [parseVevent, after]
  split at accepted
  · cases accepted
  · next named =>
    have kept := Except.ok.inj accepted
    constructor
    · rintro ⟨ev', read, same⟩
      split at read
      · cases read
      · rw [Except.ok.inj read, kept]
        exact same
    · intro same
      have uid := same.1
      refine ⟨_, if_neg ?_, kept ▸ same⟩
      rw [uid]
      exact named

/-! ### A reminder in an event -/

def review : Str := "BEGIN:VEVENT\r\nUID:1\r\nSUMMARY:Review\r".toList

def reviewEnd : Str := "END:VEVENT\r".toList

def reminder : Str := "BEGIN:VALARM\r\nACTION:DISPLAY\r\nDESCRIPTION:Soon\r\nEND:VALARM\r".toList

theorem review_inside : InsideEvent (unfoldLines review) ∧ Leads reviewEnd := by
  unfold InsideEvent Leads
  decide

theorem reminder_subComponent : SubComponent reminder where
  leads := by
    unfold Leads
    decide
  lines := by
    have facts : unfoldLines reminder = "BEGIN:VALARM".toList ::
          ["ACTION:DISPLAY".toList, "DESCRIPTION:Soon".toList] ++ ["END:VALARM".toList] ∧
        "VALARM".toList ≠ "VEVENT".toList ∧
        edge "BEGIN:VALARM".toList = some (.begins, "VALARM".toList) ∧
        edge "ACTION:DISPLAY".toList = none ∧ edge "DESCRIPTION:Soon".toList = none ∧
        edge "END:VALARM".toList = some (.ends, "VALARM".toList) := by
      decide
    obtain ⟨written, other, begins, action, description, ends⟩ := facts
    exact ⟨_, _, _, _, written, other, begins, .property action (.property description .nil), ends⟩

theorem parseVevent_nested_reminder :
    ∃ ev, parseVevent sampleCrates (review ++ '\n' :: reviewEnd) = .ok ev ∧
      ((∃ ev', parseVevent sampleCrates (review ++ '\n' :: (reminder ++ '\n' :: reviewEnd)) =
            .ok ev' ∧ Same ev' ev) ↔
        Hidden sampleCrates (settingsFrom (unfoldLines review)) (settings (unfoldLines reminder))
          (settingsUpTo (unfoldLines reviewEnd))) :=
  ⟨{ uid := "1".toList, summary := some "Review".toList }, by decide,
    parseVevent_nested_iff sampleCrates (by decide) review_inside.1 review_inside.2
      reminder_subComponent⟩

/-- The text of the reminder becomes the description of the event. -/
theorem parseVevent_reads_reminder :
    SubComponent reminder ∧ parseVevent sampleCrates (review ++ '\n' :: reviewEnd) =
        .ok { uid := "1".toList, summary := some "Review".toList } ∧
      parseVevent sampleCrates (review ++ '\n' :: (reminder ++ '\n' :: reviewEnd)) =
        .ok { uid := "1".toList, summary := some "Review".toList,
              description := some "Soon".toList } :=
  ⟨reminder_subComponent, by decide, by decide⟩

end Expresso.CalDav.Nested
