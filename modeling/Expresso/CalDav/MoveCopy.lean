import Expresso.CalDav.Paging
import Expresso.CalDav.Upsert
import Expresso.CalDav.Uri

/-! The COPY and MOVE verbs on events and on calendars. A request is several transactions: what
one has written stays when a later one fails. -/

namespace Expresso.CalDav
open Text

/-- The response: its status, for 400 with the text of the body. -/
inductive Status where
  | created
  | noContent
  | badRequest (message : Str)
  | forbidden
  | notFound
  | preconditionFailed
  deriving DecidableEq

/-- The header values that are visible ASCII. -/
structure Headers where
  destination : Option Str
  overwrite : Option Str

/-- For each call to the database in turn: whether it gets through, the id it generates, its
time. -/
structure Env where
  up : Nat → Bool
  id : Nat → Uuid
  now : Nat → Timestamp

def Env.call {α : Type} (env : Env) (i : Nat) (result : Result α) : Result α :=
  if env.up i then result else .error .database

theorem Env.call_ok {α : Type} {env : Env} {i : Nat} {result : Result α} {a : α} :
    env.call i result = .ok a ↔ env.up i ∧ result = .ok a := by
  rw [Env.call]
  split <;> simp_all

def allowOverwrite (headers : Headers) : Bool :=
  let overwrite := headers.overwrite.map trim
  !(overwrite = some ['F'] || overwrite = some ['f'])

section
variable (crates : Crates) (principal : Principal)

/-- `process` after both URIs are classified as events. -/
def processEvent (srcCal : Uuid) (srcUid : Str) (dstCal : Uuid) (dstUid : Str)
    (overwrite isMove : Bool) (env : Env) (s : Store) : Store × Result Status :=
  match env.call 0 (getByUid principal.tenantId srcCal srcUid s) with
  | .error e => (s, .error e)
  | .ok src =>
      let dstExisted := (env.call 1 (getByUid principal.tenantId dstCal dstUid s)).isOk
      if dstExisted && !overwrite then (s, .ok .preconditionFailed)
      else match env.call 2 (replaceByUid crates principal.tenantId dstCal src.icalRaw
          (env.id 2) (env.now 2) s) with
        | .error e => (s, .error e)
        | .ok (s1, _) =>
            let sameRow := srcCal = dstCal ∧ src.uid = dstUid
            let status := if dstExisted then .noContent else .created
            if isMove ∧ ¬sameRow then
              match env.call 3 (deleteByUid principal.tenantId srcCal src.uid (env.now 3) s1) with
              | .error e => (s1, .error e)
              | .ok s2 => (s2, .ok status)
            else (s1, .ok status)

/-- The loop over the listed events; what was copied before an error stays. -/
def copyEvents (dstCal : Uuid) (env : Env) : Nat → List Event → Store → Store × Result Unit
  | _, [], s => (s, .ok ())
  | i, ev :: rest, s =>
      match env.call i (replaceByUid crates principal.tenantId dstCal ev.icalRaw (env.id i)
          (env.now i) s) with
      | .error e => (s, .error e)
      | .ok (s', _) => copyEvents dstCal env (i + 1) rest s'

/-- `process_collection` after both URIs are classified as calendars. -/
def copyCollection (srcCal dstCal : Uuid) (overwrite isMove : Bool) (env : Env) (s : Store) :
    Store × Result Status :=
  match env.call 0 (CalendarRepo.get principal.tenantId srcCal s) with
  | .error e => (s, .error e)
  | .ok src =>
      let dstExisted := (env.call 1 (CalendarRepo.get principal.tenantId dstCal s)).isOk
      if dstExisted && !overwrite then (s, .ok .preconditionFailed)
      else
        let new : NewCalendar :=
          { name := src.name, description := src.description, color := src.color
            timezone := some src.timezone, isDefault := false }
        let made := if dstExisted then .ok s else
          (env.call 2 (CalendarRepo.createWithId dstCal principal.tenantId principal.userId new
            (env.now 2) s)).map (·.1)
        match made with
        | .error e => (s, .error e)
        | .ok s1 =>
            match env.call 3 (.ok (list principal.tenantId srcCal {} s1)) with
            | .error e => (s1, .error e)
            | .ok events =>
                match copyEvents crates principal dstCal env 4 events s1 with
                | (s2, .error e) => (s2, .error e)
                | (s2, .ok ()) =>
                    let status := if dstExisted then .noContent else .created
                    if isMove ∧ srcCal ≠ dstCal then
                      match env.call (4 + events.length) (CalendarRepo.delete principal.tenantId
                          srcCal (env.now (4 + events.length)) s2) with
                      | .error e => (s2, .error e)
                      | .ok s3 => (s3, .ok status)
                    else (s2, .ok status)

def processCollection (srcCal : Uuid) (headers : Headers) (isMove : Bool) (env : Env) (s : Store) :
    Store × Result Status :=
  match headers.destination with
  | none => (s, .ok (.badRequest "missing Destination header".toList))
  | some dest =>
      match classify crates (stripOrigin (trim dest)) with
      | .calendar userId dstCal =>
          if userId = principal.userId then
            copyCollection crates principal srcCal dstCal (allowOverwrite headers) isMove env s
          else (s, .ok .forbidden)
      | _ => (s, .ok (.badRequest "destination must resolve to a calendar collection".toList))

def process (path : Str) (headers : Headers) (isMove : Bool) (env : Env) (s : Store) :
    Store × Result Status :=
  match classify crates path with
  | .calendar userId srcCal =>
      if userId = principal.userId then
        processCollection crates principal srcCal headers isMove env s
      else (s, .ok .forbidden)
  | .event userId srcCal srcUid =>
      if userId = principal.userId then
        match headers.destination with
        | none => (s, .ok (.badRequest "missing Destination header".toList))
        | some dest =>
            match classify crates (stripOrigin (trim dest)) with
            | .event userId dstCal dstUid =>
                if userId = principal.userId then
                  processEvent crates principal srcCal srcUid dstCal dstUid
                    (allowOverwrite headers) isMove env s
                else (s, .ok .forbidden)
            | _ => (s, .ok (.badRequest "destination must resolve to an event URI".toList))
      else (s, .ok .forbidden)
  | _ => (s, .ok .notFound)

def copy (path : Str) (headers : Headers) : Env → Store → Store × Result Status :=
  process crates principal path headers false

def mov (path : Str) (headers : Headers) : Env → Store → Store × Result Status :=
  process crates principal path headers true

end

end Expresso.CalDav
