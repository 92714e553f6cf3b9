import Expresso.CalDav.Ical

/-! The paths under `/caldav`. -/

namespace Expresso.CalDav
open Text

inductive Target where
  | home (userId : Uuid)
  | scheduleInbox (userId : Uuid)
  | scheduleOutbox (userId : Uuid)
  | calendar (userId calendarId : Uuid)
  | event (userId calendarId : Uuid) (uid : Str)
  | unknown
  deriving DecidableEq

def hexVal (b : UInt8) : Option UInt8 :=
  if 0x30 ≤ b && b ≤ 0x39 then some (b - 0x30)
  else if 0x61 ≤ b && b ≤ 0x66 then some (b - 0x61 + 10)
  else if 0x41 ≤ b && b ≤ 0x46 then some (b - 0x41 + 10)
  else none

/-- A `%` that two hexadecimal digits do not follow stays as it is. -/
def percentDecodeBytes : List UInt8 → List UInt8
  | b :: h1 :: h2 :: rest =>
      if b = 0x25 then
        match hexVal h1, hexVal h2 with
        | some high, some low => (high <<< 4 ||| low) :: percentDecodeBytes rest
        | _, _ => b :: percentDecodeBytes (h1 :: h2 :: rest)
      else b :: percentDecodeBytes (h1 :: h2 :: rest)
  | b :: rest => b :: percentDecodeBytes rest
  | [] => []

example : percentDecodeBytes [0x25, 0x34, 0x78] = [0x25, 0x34, 0x78] := by
  simp [percentDecodeBytes, hexVal]

def percentDecode (s : Str) : Str := fromUtf8Lossy (percentDecodeBytes (asBytes s))

section
variable (crates : Crates)

def parseUuid (s : Str) : Option Uuid := crates.parseUuid (trim s)

/-- The segments of a collection, which ends in a slash. -/
def classifyCollection : List Str → Target
  | [user] => ((parseUuid crates user).map .home).getD .unknown
  | [user, second] =>
      match parseUuid crates user with
      | none => .unknown
      | some u =>
          if second = "schedule-inbox".toList then .scheduleInbox u
          else if second = "schedule-outbox".toList then .scheduleOutbox u
          else ((parseUuid crates second).map (.calendar u)).getD .unknown
  | _ => .unknown

/-- The segments of an object. -/
def classifyObject : List Str → Target
  | [user, calendar, last] =>
      match parseUuid crates user, parseUuid crates calendar, stripSuffix ".ics".toList last with
      | some u, some c, some uid => .event u c (percentDecode uid)
      | _, _, _ => .unknown
  | _ => .unknown

def classify (path : Str) : Target :=
  match stripPrefix "/caldav/".toList path with
  | none => .unknown
  | some rest =>
      match stripSuffix ['/'] rest with
      | some segments =>
          if segments = [] then .unknown else classifyCollection crates (split '/' segments)
      | none => if rest = [] then .unknown else classifyObject crates (split '/' rest)

end

/-- The path of an absolute URI; anything else is taken as a path. -/
def stripOrigin (url : Str) : Str :=
  match (stripPrefix "http://".toList url).or (stripPrefix "https://".toList url) with
  | some rest => if '/' ∈ rest then rest.dropWhile (· ≠ '/') else ['/']
  | none => url

example : stripOrigin "https://host:8443/caldav/u/c/x.ics".toList = "/caldav/u/c/x.ics".toList := by
  decide

end Expresso.CalDav
