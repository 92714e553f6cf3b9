import Expresso.Ingest.Parse
import Mathlib.Data.List.Dedup
import Mathlib.Data.List.Sort

/-! Where a message for an address goes: the users, the aliases and the relay. -/

namespace Expresso.Ingest
open Text Imap

structure User where
  id : Uuid
  tenantId : Uuid
  email : Str
  quotaBytes : Option Int
  deriving DecidableEq

structure EmailAlias where
  tenantId : Uuid
  aliasAddr : Str
  target : Str
  isEnabled : Bool
  deriving DecidableEq

structure Directory where
  users : List User
  aliases : List EmailAlias
  deriving DecidableEq

/-- The settings of the service, and the functions of the database and of the date parsers that
it calls. -/
structure Config where
  relayHost : Str
  flowsUrl : Str
  lower : Str → Str
  formats : DateFormats

/-- The statements of a delivery, each of which may fail. -/
inductive Statement where
  | localUser (addr : Str)
  | aliasTarget (addr : Str)
  | begin
  | quota
  | used
  | lock
  | insertInbox
  | lockInbox
  | thread
  | insertMessage
  | nextUid
  | commit
  deriving DecidableEq

/-- A failed statement is the end of a delivery. -/
def check (fails : Statement → Bool) (statement : Statement) : Except Unit Unit :=
  if fails statement then .error () else .ok ()

/-! ### The list -/

/-- The set of the addresses in their order. -/
def normalizedRecipients (rcpts : List Str) : List Str :=
  (((rcpts.map fun rcpt => toAsciiLowercase (trim rcpt)).filter (!·.isEmpty)).dedup).insertionSort
    (· ≤ ·)

/-! ### Lookups -/

section
variable (cfg : Config) (dir : Directory)

def lookupLocalUser (addr : Str) : Option User :=
  match dir.users.filter fun user => cfg.lower user.email = addr with
  | [user] => some user
  | _ => none

inductive AliasLookup where
  | target (addr : Str)
  | ambiguous
  | none
  deriving DecidableEq

def lookupAliasTarget (addr : Str) : AliasLookup :=
  match dir.aliases.filter fun row => cfg.lower row.aliasAddr = addr && row.isEnabled with
  | [] => .none
  | [row] => .target (toAsciiLowercase (trim row.target))
  | _ => .ambiguous

end

/-! ### The relay -/

def maxReceivedHops : Nat := 30

def receivedHopCount (raw : Str) : Nat :=
  ((lines (splitHeadersBody raw).1).filter fun line =>
    toAsciiLowercase (line.take 9) = "received:".toList).length

/-- Whether the smarthost takes the message for an address, once it is asked. -/
def relayForward (relay : Str → Bool) (target raw : Str) : Bool :=
  receivedHopCount raw ≤ maxReceivedHops && relay target

inductive Resolution where
  | onServer (user : User)
  | relayed
  | drop
  deriving DecidableEq

def relayOffPlatform (cfg : Config) (relay : Str → Bool) (target raw : Str) : Resolution :=
  if trim cfg.relayHost = [] then .drop
  else if relayForward relay target raw then .relayed
  else .drop

/-! ### Chains of aliases -/

def maxAliasHops : Nat := 10

/-- The hops that are left, and the addresses seen. -/
def resolveFrom (cfg : Config) (dir : Directory) (fails : Statement → Bool) (relay : Str → Bool)
    (rcpt raw : Str) : Nat → Str → List Str → Except Unit Resolution
  | 0, _, _ => .ok .drop
  | hops + 1, addr, visited => do
      check fails (.localUser addr)
      match lookupLocalUser cfg dir addr with
      | some user => .ok (.onServer user)
      | none =>
          check fails (.aliasTarget addr)
          match lookupAliasTarget cfg dir addr with
          | .target next =>
              if addr ∈ visited then .ok .drop
              else resolveFrom cfg dir fails relay rcpt raw hops next (addr :: visited)
          | .ambiguous => .ok .drop
          | .none =>
              if addr = rcpt then .ok .drop else .ok (relayOffPlatform cfg relay addr raw)

def resolveRecipient (cfg : Config) (dir : Directory) (fails : Statement → Bool)
    (relay : Str → Bool) (rcpt raw : Str) : Except Unit Resolution :=
  resolveFrom cfg dir fails relay rcpt raw maxAliasHops rcpt []

end Expresso.Ingest
