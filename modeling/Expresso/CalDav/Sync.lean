import Expresso.CalDav.Reachable
import Expresso.Replica.Feed
import Mathlib.Data.List.Induction

/-! The `sync-collection` REPORT of a calendar. The events of a calendar are a feed of stamped
rows, and the incremental report is the capped report of that feed. -/

namespace Expresso.CalDav
open Text Replica

structure Principal where
  userId : Uuid
  tenantId : Uuid
  deriving DecidableEq

/-- `/caldav/{user_id}/{calendar_id}/{uid}.ics`. -/
structure Href where
  userId : Uuid
  calendarId : Uuid
  uid : Str
  deriving DecidableEq

/-- A `response` element: the entity tag with status 200, or status 404. -/
inductive Member where
  | ok (href : Href) (etag : Str)
  | notFound (href : Href)
  deriving DecidableEq

/-- A 207 body with its `sync-token`, or status 410 with the token in a header. -/
inductive SyncResponse where
  | multistatus (members : List Member) (syncToken : Str)
  | gone (syncToken : Str)
  deriving DecidableEq

def SyncResponse.members : SyncResponse → List Member
  | multistatus members _ => members
  | gone _ => []

def SyncResponse.syncToken : SyncResponse → Str
  | multistatus _ token => token
  | gone token => token

/-! ### The handler -/

def tokenPrefix : Str := "urn:expresso:ctag:".toList

def maxSyncRows : Nat := 5000

def formatToken (ctag : Int) : Str := tokenPrefix ++ display ctag

def parseTokenValue (tok : Str) : Option Int := (stripPrefix tokenPrefix tok).bind parseI64

def Event.isIn (tenant calendar : Uuid) (e : Event) : Bool :=
  e.tenantId = tenant && e.calendarId = calendar

def Tombstone.isIn (tenant calendar : Uuid) (t : Tombstone) : Bool :=
  t.tenantId = tenant && t.calendarId = calendar

section
variable (principal : Principal) (calendar : Uuid)

def pushMember (uid etag : Str) : Member := .ok ⟨principal.userId, calendar, uid⟩ etag

/-- The changed members, and the last tag written when the cap was hit. -/
def writeChangedSince (since : Int) (s : Store) : List Member × Option Int :=
  let rows := (Sql.orderBy (·.lastCtag) (s.events.filter fun e =>
    e.isIn principal.tenantId calendar && since < e.lastCtag)).take maxSyncRows
  let truncated := rows.length = maxSyncRows
  let lastEmitted := rows.foldl (fun _ e => e.lastCtag) since
  (rows.map fun e => pushMember principal calendar e.uid e.etag,
    if truncated then some lastEmitted else none)

def writeTombstonesSince (since : Int) (s : Store) : List Member :=
  let rows := (Sql.orderBy (·.deletedCtag) (s.tombstones.filter fun t =>
    t.isIn principal.tenantId calendar && since < t.deletedCtag)).take maxSyncRows
  rows.map fun t => .notFound ⟨principal.userId, calendar, t.uid⟩

/-- `token` is the text of the request's `sync-token` element. -/
def handle (token : Option Str) (s : Store) : Result SyncResponse := do
  let currentCtag ← CalendarRepo.ctag principal.tenantId calendar s
  let newToken := formatToken currentCtag
  let clientCtag := token.bind parseTokenValue
  if clientCtag = some currentCtag then .ok (.multistatus [] newToken)
  else match clientCtag with
    | some since =>
        if since < currentCtag then
          let (members, last) := writeChangedSince principal calendar since s
          match last with
          | some last => .ok (.multistatus members (formatToken last))
          | none =>
              .ok (.multistatus (members ++ writeTombstonesSince principal calendar since s)
                newToken)
        else .ok (.gone newToken)
    | none =>
        let events := list principal.tenantId calendar {} s
        .ok (.multistatus (events.map fun e => pushMember principal calendar e.uid e.etag)
          newToken)

end

/-! ### Tokens -/

theorem parseTokenValue_format {ctag : Int} (lower : -2 ^ 63 ≤ ctag) (upper : ctag < 2 ^ 63) :
    parseTokenValue (formatToken ctag) = some ctag := by
  have stripped : stripPrefix tokenPrefix (formatToken ctag) = some (display ctag) := by
    simp [stripPrefix, formatToken]
  rw [parseTokenValue, stripped, Option.bind_some, parseI64_display lower upper]

theorem parseTokenValue_range {token : Str} {ctag : Int}
    (value : parseTokenValue token = some ctag) : -2 ^ 63 ≤ ctag ∧ ctag < 2 ^ 63 := by
  simp only [parseTokenValue, parseI64, parseSigned, Option.bind_eq_some_iff,
    Option.ite_none_right_eq_some, Option.some.injEq] at value
  obtain ⟨_, -, n, -, range, rfl⟩ := value
  omega

/-- A report that moves on returns another token. -/
theorem token_ne {token : Str} {since ctag : Int} (value : parseTokenValue token = some since)
    (lower : -2 ^ 63 ≤ ctag) (upper : ctag < 2 ^ 63) (different : since ≠ ctag) :
    some token ≠ some (formatToken ctag) := by
  intro same
  rw [Option.some.inj same, parseTokenValue_format lower upper] at value
  exact different (Option.some.inj value).symm

/-! ### The feed of a calendar -/

def Event.row (e : Event) : Row Str Str := ⟨e.uid, e.etag, e.lastCtag⟩

def Tombstone.removal (t : Tombstone) : Removal Str := ⟨t.uid, t.deletedCtag⟩

def Tables.feed (t : Tables) (tenant calendar : Uuid) : Feed Str Str where
  rows := (t.events.filter (·.isIn tenant calendar)).map (·.row)
  removals := (t.tombstones.filter (·.isIn tenant calendar)).map (·.removal)
  counter := ctagOf t.calendars tenant calendar

def toMember (principal : Principal) (calendar : Uuid) : Change Str Str → Member
  | .set uid etag => .ok ⟨principal.userId, calendar, uid⟩ etag
  | .remove uid => .notFound ⟨principal.userId, calendar, uid⟩

section
variable {principal : Principal} {calendar : Uuid} {s : Store}

theorem mem_feed_rows {t : Tables} {tenant : Uuid} {r : Row Str Str} :
    r ∈ (t.feed tenant calendar).rows ↔
      ∃ e ∈ t.events, e.isIn tenant calendar ∧ e.row = r := by
  simp only [Tables.feed, List.mem_map, List.mem_filter, and_assoc]

theorem mem_feed_removals {t : Tables} {tenant : Uuid} {d : Removal Str} :
    d ∈ (t.feed tenant calendar).removals ↔
      ∃ b ∈ t.tombstones, b.isIn tenant calendar ∧ b.removal = d := by
  simp only [Tables.feed, List.mem_map, List.mem_filter, and_assoc]

theorem rowsAfter_feed (tenant calendar : Uuid) (since : Int) (t : Tables) :
    (Sql.orderBy (·.lastCtag) (t.events.filter fun e =>
      e.isIn tenant calendar && since < e.lastCtag)).map (·.row) =
      (t.feed tenant calendar).rowsAfter since := by
  rw [Feed.rowsAfter, Tables.feed, List.filter_map, List.filter_filter]
  refine (Sql.map_orderBy Event.row (·.stamp) _).trans ?_
  congr 2
  apply List.filter_congr
  intro e _
  rw [Bool.and_comm]
  rfl

theorem removalsAfter_feed (tenant calendar : Uuid) (since : Int) (t : Tables) :
    (Sql.orderBy (·.deletedCtag) (t.tombstones.filter fun b =>
      b.isIn tenant calendar && since < b.deletedCtag)).map (·.removal) =
      (t.feed tenant calendar).removalsAfter since := by
  rw [Feed.removalsAfter, Tables.feed, List.filter_map, List.filter_filter]
  refine (Sql.map_orderBy Tombstone.removal (·.stamp) _).trans ?_
  congr 2
  apply List.filter_congr
  intro b _
  rw [Bool.and_comm]
  rfl

theorem foldl_last (rows : List Event) (since : Int) :
    rows.foldl (fun _ e => e.lastCtag) since =
      ((rows.map (·.row)).getLast?.map (·.stamp)).getD since := by
  induction rows using List.reverseRecOn with
  | nil => rfl
  | append_singleton rest e _ => simp [Event.row]

theorem toMember_sets (rows : List Event) :
    (sets (rows.map (·.row))).map (toMember principal calendar) =
      rows.map fun e => pushMember principal calendar e.uid e.etag := by
  rw [sets, List.map_map, List.map_map]
  rfl

theorem toMember_removes (rows : List Tombstone) :
    (removes (rows.map (·.removal))).map (toMember principal calendar) =
      rows.map fun t => .notFound ⟨principal.userId, calendar, t.uid⟩ := by
  rw [removes, List.map_map, List.map_map]
  rfl

/-- An incremental report is the capped report of the feed. -/
theorem handle_since {c : Calendar} {token : Str} {since : Int}
    (found : s.calendars.find? (·.isRow principal.tenantId calendar) = some c)
    (value : parseTokenValue token = some since) (behind : since < c.ctag) :
    handle principal calendar (some token) s =
      .ok (.multistatus
        (((s.feed principal.tenantId calendar).report maxSyncRows since).1.map
          (toMember principal calendar))
        (formatToken ((s.feed principal.tenantId calendar).report maxSyncRows since).2)) := by
  have rows := rowsAfter_feed principal.tenantId calendar since s.toTables
  have removals := removalsAfter_feed principal.tenantId calendar since s.toTables
  have counter : (s.feed principal.tenantId calendar).counter = c.ctag := by
    simp [Tables.feed, ctagOf, found]
  have current : CalendarRepo.ctag principal.tenantId calendar s = .ok c.ctag := by
    simp [CalendarRepo.ctag, found]
  have different : ¬some since = some c.ctag := by
    rw [Option.some.injEq]
    omega
  simp only [handle, current, value, Option.bind_some, bind, Except.bind, if_neg different,
    if_pos behind, Feed.report, ← rows, ← removals, ← List.map_take, List.length_map, counter,
    writeChangedSince, writeTombstonesSince, foldl_last]
  generalize (Sql.orderBy (·.lastCtag) (s.events.filter fun e =>
    e.isIn principal.tenantId calendar && since < e.lastCtag)).take maxSyncRows = page
  by_cases full : page.length = maxSyncRows
  · simp only [if_pos full, toMember_sets]
  · simp only [if_neg full, List.map_append, toMember_sets, toMember_removes]

theorem handle_current {c : Calendar} {token : Str}
    (found : s.calendars.find? (·.isRow principal.tenantId calendar) = some c)
    (value : parseTokenValue token = some c.ctag) :
    handle principal calendar (some token) s = .ok (.multistatus [] (formatToken c.ctag)) := by
  simp [handle, CalendarRepo.ctag, found, value, bind, Except.bind]

theorem handle_future {c : Calendar} {token : Str} {since : Int}
    (found : s.calendars.find? (·.isRow principal.tenantId calendar) = some c)
    (value : parseTokenValue token = some since) (ahead : c.ctag < since) :
    handle principal calendar (some token) s = .ok (.gone (formatToken c.ctag)) := by
  have different : since ≠ c.ctag := by omega
  have notBehind : ¬since < c.ctag := by omega
  simp [handle, CalendarRepo.ctag, found, value, bind, Except.bind, different, notBehind]

theorem handle_initial {c : Calendar} {token : Option Str}
    (found : s.calendars.find? (·.isRow principal.tenantId calendar) = some c)
    (value : token.bind parseTokenValue = none) :
    handle principal calendar token s =
      .ok (.multistatus ((list principal.tenantId calendar {} s).map fun e =>
        pushMember principal calendar e.uid e.etag) (formatToken c.ctag)) := by
  simp [handle, CalendarRepo.ctag, found, value, bind, Except.bind]

end

theorem Event.isIn_iff {tenant calendar : Uuid} {e : Event} :
    e.isIn tenant calendar ↔ e.tenantId = tenant ∧ e.calendarId = calendar := by
  simp [Event.isIn]

theorem ctagOf_eq {calendars : List Calendar} {tenant calendar : Uuid} {c : Calendar}
    (found : calendars.find? (·.isRow tenant calendar) = some c) :
    ctagOf calendars tenant calendar = c.ctag := by
  simp [ctagOf, found]

/-- Keys are unique in a calendar, and the trigger gave out the stamps. -/
theorem Coherent.stamped {crates : Crates} {s : Store} (coherent : Coherent crates s.toTables)
    (tenant calendar : Uuid) : (s.feed tenant calendar).Stamped where
  keys := by
    simp only [Tables.feed, List.map_map, List.Nodup, List.pairwise_map]
    apply ((List.pairwise_map.mp s.constraints.2.2.2.2.1).filter _).imp_of_mem
    intro a b inA inB different same
    obtain ⟨-, hereA⟩ := Event.isIn_iff.1 (List.mem_filter.mp inA).2
    obtain ⟨-, hereB⟩ := Event.isIn_iff.1 (List.mem_filter.mp inB).2
    exact different (Prod.ext (hereA.trans hereB.symm) same)
  stamps := by
    simp only [Tables.feed, List.map_map, List.Nodup, List.pairwise_map]
    apply (coherent.tagged.differ.filter _).imp_of_mem
    intro a b inA inB differ
    obtain ⟨tenantA, hereA⟩ := Event.isIn_iff.1 (List.mem_filter.mp inA).2
    obtain ⟨tenantB, hereB⟩ := Event.isIn_iff.1 (List.mem_filter.mp inB).2
    exact differ (tenantA.trans tenantB.symm) (hereA.trans hereB.symm)
  rows_le r member := by
    obtain ⟨e, listed, here, rfl⟩ := mem_feed_rows.mp member
    obtain ⟨rfl, rfl⟩ := Event.isIn_iff.1 here
    exact coherent.tagged.le e listed

end Expresso.CalDav
