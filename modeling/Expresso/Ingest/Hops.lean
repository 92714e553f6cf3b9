import Expresso.Imap.Lines
import Expresso.Ingest.Delivery
import Expresso.Smtp.Sessions
import Expresso.Transition.Runs
import Mathlib.Data.List.Iterate

/-! The hops of a message that comes back: what its passes through the server add to it, and how
often it is relayed. -/

namespace Expresso.Ingest
open Text Imap
open Smtp (crlf said Effect Inbound InboundConfig InboundAnswers)

/-- A text that was read from one line, or that is written into one. -/
abbrev OneLine := { s : Str // '\n' ∉ s }

/-! ### The headers of the scanner -/

structure ScanResult where
  /-- the score as it is shown, and whether it is 5 or more -/
  spamScore : Option (OneLine × Bool)
  spamAction : Option OneLine
  virus : Option OneLine

def ScanResult.lines (r : ScanResult) : List Str :=
  (match r.spamScore with
    | some (score, high) =>
        ["X-Spam-Score: ".toList ++ score.1,
          "X-Spam-Status: ".toList ++ (if high then "Yes" else "No").toList]
    | none => []) ++
  (match r.spamAction with
    | some action => ["X-Spam-Action: ".toList ++ action.1]
    | none => []) ++
  [match r.virus with
    | some name => "X-Virus-Status: ".toList ++ ("Infected: ".toList ++ name.1)
    | none => "X-Virus-Status: ".toList ++ "Clean".toList]

def ScanResult.toHeaders (r : ScanResult) : Str := r.lines.flatMap (· ++ crlf)

/-! ### The headers of SPF, DKIM and DMARC -/

structure Verdicts where
  spf : OneLine
  dkim : OneLine
  dmarc : OneLine
  dmarcPolicy : Option OneLine
  spfClientIp : Option OneLine
  spfHelo : Option OneLine
  spfEnvelopeFrom : Option OneLine

namespace Verdicts

def toValue (v : Verdicts) (hostname : Str) : Str :=
  let dmarcFrag := match v.dmarcPolicy.filter fun p => p.1 ≠ "unspecified".toList with
    | some p => "dmarc=".toList ++ v.dmarc.1 ++ " (p=".toList ++ p.1 ++ ")".toList
    | none => "dmarc=".toList ++ v.dmarc.1
  hostname ++ "; spf=".toList ++ v.spf.1 ++ "; dkim=".toList ++ v.dkim.1 ++ "; ".toList ++ dmarcFrag

def toHeader (v : Verdicts) (hostname : Str) : Str :=
  "Authentication-Results: ".toList ++ v.toValue hostname ++ crlf

def phrase (spf : Str) : String :=
  if spf = "pass".toList then "designates"
  else if spf = "fail".toList then "does not designate"
  else if spf = "softfail".toList then "does not designate (softfail)"
  else if spf = "neutral".toList then "reports neutral for"
  else if spf = "none".toList then "has no SPF record for"
  else if spf = "temperror".toList then "transient error evaluating"
  else if spf = "permerror".toList then "permanent error evaluating"
  else "evaluating"

def shown (text : Option OneLine) (missing : String) : Str :=
  match text with
  | some line => line.1
  | none => missing.toList

def toReceivedSpf (v : Verdicts) (hostname : Str) : Str :=
  let ip := shown v.spfClientIp "unknown"
  let sender := shown v.spfEnvelopeFrom ""
  let helo := shown v.spfHelo ""
  let origin := if sender.isEmpty then helo else sender
  let comment := hostname ++ ": domain of ".toList ++ origin ++ " ".toList ++
    (phrase v.spf.1).toList ++ " ".toList ++ ip ++ " as permitted sender".toList
  v.spf.1 ++ " (".toList ++ comment ++ ") receiver=".toList ++ hostname ++ "; client-ip=".toList ++
    ip ++ "; envelope-from=<".toList ++ sender ++ ">; helo=".toList ++ helo

def toReceivedSpfHeader (v : Verdicts) (hostname : Str) : Str :=
  "Received-SPF: ".toList ++ v.toReceivedSpf hostname ++ crlf

def shouldReject (v : Verdicts) : Bool :=
  v.dmarc.1 = "fail".toList && v.dmarcPolicy.any fun p => p.1 = "reject".toList

def results (v : Verdicts) : Smtp.AuthResults :=
  ⟨v.shouldReject, v.toReceivedSpfHeader, v.toHeader⟩

end Verdicts

/-! ### Passes -/

structure Server where
  config : Config
  directory : Directory
  domain : OneLine

/-- How the message leaves again: the chain of aliases of a recipient, or a forward rule, which
takes the text that was stored. -/
inductive Route where
  | aliases (rcpt : Str)
  | rule (target : Str)

/-- A message as a session has collected it, and what its pass is told. -/
structure Leg where
  helo : Option OneLine
  mailFrom : Option OneLine
  rcpts : List Str
  dataBuf : Str
  spf : OneLine
  dkim : OneLine
  dmarc : OneLine
  dmarcPolicy : Option OneLine
  peer : OneLine
  scan : ScanResult
  /-- what `scanner::should_reject` says of the score and the virus -/
  rejects : Bool
  fails : Statement → Bool
  relay : Str → Bool
  route : Route

namespace Leg

/-- `verify_inbound` -/
def verdicts (leg : Leg) : Verdicts where
  spf := leg.spf
  dkim := leg.dkim
  dmarc := leg.dmarc
  dmarcPolicy := leg.dmarcPolicy
  spfClientIp := some leg.peer
  spfHelo := some (leg.helo.getD ⟨"unknown".toList, by decide⟩)
  spfEnvelopeFrom := some (leg.mailFrom.getD ⟨[], List.not_mem_nil⟩)

def signedRaw (server : Server) (leg : Leg) : Str :=
  leg.verdicts.toReceivedSpfHeader server.domain.1 ++ leg.verdicts.toHeader server.domain.1 ++
    leg.dataBuf

/-- The text that is resolved, stored and relayed. -/
def raw (server : Server) (leg : Leg) : Str := leg.scan.toHeaders ++ leg.signedRaw server

/-- Whether the message leaves for the smarthost, which takes it. -/
def relayed (server : Server) (leg : Leg) : Bool :=
  !leg.verdicts.shouldReject && !leg.rejects &&
    match leg.route with
    | .aliases rcpt =>
        match resolveRecipient server.config server.directory leg.fails leg.relay rcpt
            (leg.raw server) with
        | .ok .relayed => true
        | _ => false
    | .rule target => relayForward leg.relay target (leg.raw server)

end Leg

/-- The lines that count as hops. -/
def receivedLines (raw : Str) : List Str :=
  (lines (splitHeadersBody raw).1).filter fun line =>
    toAsciiLowercase (line.take 9) = "received:".toList

/-- A relayed message comes back from a peer that leaves the lines alone. -/
structure Returns (server : Server) (sent back : Leg) : Prop where
  accepted : sent.relayed server = true
  kept : receivedLines back.dataBuf = receivedLines (sent.raw server)

/-- However the message comes back, it is relayed at most this often. -/
def LoopCut (server : Server) (leg : Leg) : Prop :=
  ∀ legs : List Leg, legs.head? = some leg → legs.IsChain (Returns server) →
    legs.countP (·.relayed server) ≤ maxReceivedHops + 1

/-! ### A line before a message -/

/-- A header line that is no hop. -/
structure NoHop (line : Str) : Prop where
  oneLine : '\n' ∉ line
  long : 9 ≤ line.length
  other : toAsciiLowercase (line.take 9) ≠ "received:".toList

theorem NoHop.of_name {name : Str} (plain : '\n' ∉ name ∧ 9 ≤ name.length ∧
    toAsciiLowercase (name.take 9) ≠ "received:".toList) {value : Str} (inside : '\n' ∉ value) :
    NoHop (name ++ value) where
  oneLine := List.not_mem_append plain.1 inside
  long := by
    rw [List.length_append]
    exact Nat.le_add_right_of_le plain.2.1
  other := by
    rw [List.take_append_of_le_length plain.2.1]
    exact plain.2.2

def isHop (line : Str) : Bool := toAsciiLowercase (line.take 9) = "received:".toList

theorem NoHop.not_isHop {line : Str} (noHop : NoHop line) : ¬ isHop line = true := by
  unfold isHop
  rw [decide_eq_true_eq]
  exact noHop.other

/-- The count of the lines of a header block. -/
def hops (headers : Str) : Nat := ((lines headers).filter isHop).length

theorem receivedHopCount_eq (raw : Str) : receivedHopCount raw = hops (splitHeadersBody raw).1 :=
  rfl

section
variable {line : Str} (noHop : NoHop line)
include noHop

theorem hops_crlf (rest : Str) : hops (line ++ '\r' :: '\n' :: rest) = hops rest := by
  unfold hops
  rw [lines_crlf noHop.oneLine, List.filter_cons_of_neg noHop.not_isHop]

theorem hops_single : hops line = 0 := by
  have nonempty : line ≠ [] := by
    intro empty
    have long := noHop.long
    rw [empty] at long
    exact absurd long (by decide)
  unfold hops
  rw [lines_single noHop.oneLine nonempty, List.filter_cons_of_neg noHop.not_isHop]
  rfl

theorem NoHop.withReturn : NoHop (line ++ ['\r']) where
  oneLine := List.not_mem_append noHop.oneLine (by decide)
  long := by
    rw [List.length_append]
    exact Nat.le_add_right_of_le noHop.long
  other := by
    rw [List.take_append_of_le_length noHop.long]
    exact noHop.other

end

/-! ### Where the headers end -/

section
variable {line : Str} (oneLine : '\n' ∉ line)
include oneLine

/-- A blank line in CRLF is not found in a line, unless what follows starts with it. -/
theorem position_crlf_line {rest : Str} (goesOn : ¬ ['\r', '\n'] <+: rest) :
    position ['\r', '\n', '\r', '\n'] (line ++ '\r' :: '\n' :: rest) =
      (position ['\r', '\n', '\r', '\n'] rest).map (· + (line.length + 2)) := by
  induction line with
  | nil =>
    have first : ¬ ['\r', '\n', '\r', '\n'] <+: '\r' :: '\n' :: rest := by
      intro starts
      exact goesOn (by simpa using starts)
    have second : ¬ ['\r', '\n', '\r', '\n'] <+: '\n' :: rest := by simp
    rw [List.nil_append, position, if_neg (by rwa [List.isPrefixOf_iff_prefix]), position,
      if_neg (by rwa [List.isPrefixOf_iff_prefix]), Option.map_map]
    rfl
  | cons c tail ih =>
    obtain ⟨-, later⟩ := not_or.mp (List.mem_cons.not.mp oneLine)
    have here : ¬ ['\r', '\n', '\r', '\n'] <+: c :: (tail ++ '\r' :: '\n' :: rest) := by
      cases tail with
      | nil => simp
      | cons d others =>
        have other : '\n' ≠ d := (not_or.mp (List.mem_cons.not.mp later)).1
        simp [other]
    rw [List.cons_append, position, if_neg (by rwa [List.isPrefixOf_iff_prefix]), ih later,
      Option.map_map]
    rfl

theorem position_crlf_blank (rest : Str) :
    position ['\r', '\n', '\r', '\n'] (line ++ '\r' :: '\n' :: '\r' :: '\n' :: rest) =
      some line.length := by
  induction line with
  | nil => simp [position]
  | cons c tail ih =>
    obtain ⟨-, later⟩ := not_or.mp (List.mem_cons.not.mp oneLine)
    have here : ¬ ['\r', '\n', '\r', '\n'] <+:
        c :: (tail ++ '\r' :: '\n' :: '\r' :: '\n' :: rest) := by
      cases tail with
      | nil => simp
      | cons d others =>
        have other : '\n' ≠ d := (not_or.mp (List.mem_cons.not.mp later)).1
        simp [other]
    rw [List.cons_append, position, if_neg (by rwa [List.isPrefixOf_iff_prefix]), ih later]
    rfl

theorem position_lf_line (rest : Str) :
    position ['\n', '\n'] (line ++ '\r' :: '\n' :: rest) =
      if rest.head? = some '\n' then some (line.length + 1)
      else (position ['\n', '\n'] rest).map (· + (line.length + 2)) := by
  induction line with
  | nil =>
    have first : ¬ ['\n', '\n'] <+: '\r' :: '\n' :: rest := by simp
    rw [List.nil_append, position, if_neg (by rwa [List.isPrefixOf_iff_prefix]), position]
    cases rest with
    | nil => simp [position]
    | cons c tail =>
      by_cases feed : c = '\n'
      · subst feed
        simp
      · simp [feed, Ne.symm feed, Function.comp_def]
  | cons c tail ih =>
    obtain ⟨other, later⟩ := not_or.mp (List.mem_cons.not.mp oneLine)
    have here : ¬ ['\n', '\n'] <+: c :: (tail ++ '\r' :: '\n' :: rest) := by
      simp [other]
    rw [List.cons_append, position, if_neg (by rwa [List.isPrefixOf_iff_prefix]), ih later]
    split
    · rfl
    · rw [Option.map_map]
      rfl

end

theorem headers_eq (raw : Str) : (splitHeadersBody raw).1 =
    match position ['\r', '\n', '\r', '\n'] raw, position ['\n', '\n'] raw with
    | some at', _ => raw.take at'
    | none, some at' => raw.take at'
    | none, none => raw := by
  have crlfs : "\r\n\r\n".toList = ['\r', '\n', '\r', '\n'] := by decide
  have feeds : "\n\n".toList = ['\n', '\n'] := by decide
  unfold splitHeadersBody splitOnceAt
  rw [crlfs, feeds]
  cases position ['\r', '\n', '\r', '\n'] raw
  · cases position ['\n', '\n'] raw <;> rfl
  · rfl

/-- A line before a message adds no hop. It hides those of a message that starts with a line end,
which now ends the headers. -/
theorem hopCount_line {line : Str} (noHop : NoHop line) (rest : Str) :
    receivedHopCount (line ++ '\r' :: '\n' :: rest) ≤ receivedHopCount rest := by
  have oneLine := noHop.oneLine
  have taken (n : Nat) : (line ++ '\r' :: '\n' :: rest).take (n + (line.length + 2)) =
      line ++ '\r' :: '\n' :: rest.take n := by
    rw [List.take_append, List.take_of_length_le (by omega)]
    have left : n + (line.length + 2) - line.length = n + 2 := by omega
    rw [left]
    rfl
  rw [receivedHopCount_eq, receivedHopCount_eq, headers_eq]
  by_cases blank : ['\r', '\n'] <+: rest
  · obtain ⟨body, rfl⟩ := blank
    have found := position_crlf_blank oneLine body
    rw [List.cons_append, List.cons_append, List.nil_append, found]
    show hops (List.take line.length _) ≤ _
    rw [List.take_left, hops_single noHop]
    exact Nat.zero_le _
  · rw [position_crlf_line oneLine blank, position_lf_line oneLine, headers_eq rest]
    cases position ['\r', '\n', '\r', '\n'] rest with
    | some p =>
      show hops (List.take (p + (line.length + 2)) _) ≤ hops (rest.take p)
      rw [taken, hops_crlf noHop]
    | none =>
      by_cases feed : rest.head? = some '\n'
      · rw [if_pos feed]
        show hops (List.take (line.length + 1) _) ≤ _
        have cut : (line ++ '\r' :: '\n' :: rest).take (line.length + 1) = line ++ ['\r'] := by
          rw [List.take_append, List.take_of_length_le (by omega)]
          simp
        rw [cut, hops_single noHop.withReturn]
        exact Nat.zero_le _
      · rw [if_neg feed]
        cases position ['\n', '\n'] rest with
        | some p =>
          show hops (List.take (p + (line.length + 2)) _) ≤ hops (rest.take p)
          rw [taken, hops_crlf noHop]
        | none =>
          show hops (line ++ '\r' :: '\n' :: rest) ≤ hops rest
          rw [hops_crlf noHop]

theorem hopCount_lines {headers : List Str} (noHop : ∀ line ∈ headers, NoHop line) (rest : Str) :
    receivedHopCount (headers.flatMap (· ++ crlf) ++ rest) ≤ receivedHopCount rest := by
  induction headers with
  | nil => exact Nat.le_refl _
  | cons line others ih =>
    have text : (line :: others).flatMap (· ++ crlf) ++ rest =
        line ++ '\r' :: '\n' :: (others.flatMap (· ++ crlf) ++ rest) := by
      simp [crlf]
    rw [text]
    calc receivedHopCount (line ++ '\r' :: '\n' :: (others.flatMap (· ++ crlf) ++ rest))
        ≤ receivedHopCount (others.flatMap (· ++ crlf) ++ rest) :=
          hopCount_line (noHop line List.mem_cons_self) _
      _ ≤ receivedHopCount rest :=
          ih fun later member => noHop later (List.mem_cons_of_mem line member)

/-! ### The lines that a pass adds -/

theorem ScanResult.noHop (r : ScanResult) : ∀ line ∈ r.lines, NoHop line := by
  have high (b : Bool) : '\n' ∉ (if b then "Yes" else "No").toList := by
    cases b <;> decide
  unfold ScanResult.lines
  refine List.forall_mem_append.mpr ⟨List.forall_mem_append.mpr ⟨?score, ?action⟩, ?virus⟩
  case score =>
    cases r.spamScore with
    | none => exact List.forall_mem_nil _
    | some score =>
      exact List.forall_mem_cons.mpr ⟨.of_name (by decide) score.1.2,
        List.forall_mem_singleton.mpr (.of_name (by decide) (high score.2))⟩
  case action =>
    cases r.spamAction with
    | none => exact List.forall_mem_nil _
    | some action => exact List.forall_mem_singleton.mpr (.of_name (by decide) action.2)
  case virus =>
    cases r.virus with
    | none => exact List.forall_mem_singleton.mpr (.of_name (by decide) (by decide))
    | some name =>
      exact List.forall_mem_singleton.mpr
        (.of_name (by decide) (List.not_mem_append (by decide) name.2))

namespace Verdicts

theorem shown_oneLine (text : Option OneLine) {missing : String} (plain : '\n' ∉ missing.toList) :
    '\n' ∉ shown text missing := by
  cases text with
  | none => exact plain
  | some line => exact line.2

theorem phrase_oneLine (spf : Str) : '\n' ∉ (phrase spf).toList := by
  unfold phrase
  repeat' split
  all_goals decide

section
variable (v : Verdicts) {hostname : Str} (oneLine : '\n' ∉ hostname)
include oneLine

theorem toValue_oneLine : '\n' ∉ v.toValue hostname := by
  have frag : '\n' ∉ (match v.dmarcPolicy.filter fun p => p.1 ≠ "unspecified".toList with
      | some p => "dmarc=".toList ++ v.dmarc.1 ++ " (p=".toList ++ p.1 ++ ")".toList
      | none => "dmarc=".toList ++ v.dmarc.1) := by
    split
    · next p _ =>
      simp only [List.mem_append, not_or]
      exact ⟨⟨⟨⟨by decide, v.dmarc.2⟩, by decide⟩, p.2⟩, by decide⟩
    · exact List.not_mem_append (by decide) v.dmarc.2
  unfold toValue
  simp only [List.mem_append, not_or]
  exact ⟨⟨⟨⟨⟨⟨oneLine, by decide⟩, v.spf.2⟩, by decide⟩, v.dkim.2⟩, by decide⟩, frag⟩

theorem toReceivedSpf_oneLine : '\n' ∉ v.toReceivedSpf hostname := by
  have ip := shown_oneLine v.spfClientIp (show '\n' ∉ "unknown".toList by decide)
  have sender := shown_oneLine v.spfEnvelopeFrom (show '\n' ∉ "".toList by decide)
  have helo := shown_oneLine v.spfHelo (show '\n' ∉ "".toList by decide)
  have origin : '\n' ∉ (if (shown v.spfEnvelopeFrom "").isEmpty then shown v.spfHelo ""
      else shown v.spfEnvelopeFrom "") := by
    split
    · exact helo
    · exact sender
  have comment : '\n' ∉ hostname ++ ": domain of ".toList ++
      (if (shown v.spfEnvelopeFrom "").isEmpty then shown v.spfHelo ""
        else shown v.spfEnvelopeFrom "") ++ " ".toList ++ (phrase v.spf.1).toList ++
      " ".toList ++ shown v.spfClientIp "unknown" ++ " as permitted sender".toList := by
    simp only [List.mem_append, not_or]
    exact ⟨⟨⟨⟨⟨⟨⟨oneLine, by decide⟩, origin⟩, by decide⟩, phrase_oneLine v.spf.1⟩, by decide⟩,
      ip⟩, by decide⟩
  unfold toReceivedSpf
  simp only [List.mem_append, not_or] at comment ⊢
  exact ⟨⟨⟨⟨⟨⟨⟨⟨⟨⟨v.spf.2, by decide⟩, comment⟩, by decide⟩, oneLine⟩, by decide⟩, ip⟩,
    by decide⟩, sender⟩, by decide⟩, helo⟩

end
end Verdicts

theorem signed_eq (a b rest : Str) :
    a ++ crlf ++ (b ++ crlf) ++ rest = a ++ '\r' :: '\n' :: (b ++ '\r' :: '\n' :: rest) := by
  simp [crlf]

/-- No pass adds to the hops. -/
theorem Leg.hopCount_raw (server : Server) (leg : Leg) :
    receivedHopCount (leg.raw server) ≤ receivedHopCount leg.dataBuf := by
  have auth : NoHop ("Authentication-Results: ".toList ++ leg.verdicts.toValue server.domain.1) :=
    .of_name (by decide) (leg.verdicts.toValue_oneLine server.domain.2)
  have spf : NoHop ("Received-SPF: ".toList ++ leg.verdicts.toReceivedSpf server.domain.1) :=
    .of_name (by decide) (leg.verdicts.toReceivedSpf_oneLine server.domain.2)
  have signed := signed_eq ("Received-SPF: ".toList ++ leg.verdicts.toReceivedSpf server.domain.1)
    ("Authentication-Results: ".toList ++ leg.verdicts.toValue server.domain.1) leg.dataBuf
  calc receivedHopCount (leg.raw server)
      ≤ receivedHopCount (leg.signedRaw server) := hopCount_lines leg.scan.noHop _
    _ ≤ receivedHopCount leg.dataBuf := by
        unfold Leg.signedRaw Verdicts.toReceivedSpfHeader Verdicts.toHeader
        rw [signed]
        exact (hopCount_line spf _).trans (hopCount_line auth _)

/-! ### The passes of the model -/

def Leg.env (leg : Leg) : Smtp.Envelope :=
  ⟨leg.mailFrom.map (·.1), leg.rcpts, leg.helo.map (·.1)⟩

theorem finalize_hands (server : Server) (leg : Leg) (hasTls : Bool)
    (ingest : Option Str → List Str → Str → Except Unit Nat) :
    Inbound.finalizeInboundMessage ⟨server.domain.1, hasTls⟩
        ⟨fun _ _ _ _ => leg.verdicts.results, ingest⟩ leg.env leg.dataBuf =
      if leg.verdicts.shouldReject then
        said "550 5.7.1 DMARC policy: message rejected (p=reject)"
      else
        .handed leg.env.mailFrom leg.env.rcpts (leg.signedRaw server) ::
          Inbound.ingestReply (ingest leg.env.mailFrom leg.env.rcpts (leg.signedRaw server)) :=
  rfl

theorem deliver_not_relayed {answers : Answers} {user : User} {mail : Mail} {db db' : Db}
    {disposition : Disposition} (done : deliver answers user mail db = .ok (db', disposition)) :
    disposition ≠ .relayed := by
  unfold deliver at done
  obtain ⟨-, -, later⟩ := Transition.bind_eq_ok_iff.mp done
  obtain ⟨-, -, later⟩ := Transition.bind_eq_ok_iff.mp later
  split at later
  · obtain ⟨-, -, ended⟩ := Transition.bind_eq_ok_iff.mp later
    cases ended
    exact nofun
  · split at later
    · unfold storeMessage at later
      obtain ⟨locked, -, stored⟩ := Transition.bind_eq_ok_iff.mp later
      obtain ⟨inserted, -, ended⟩ := Transition.bind_eq_ok_iff.mp stored
      cases ended
      exact nofun
    · obtain ⟨-, -, ended⟩ := Transition.bind_eq_ok_iff.mp later
      cases ended
      exact nofun
    · cases later

/-- The pass of a recipient relays if the chain of aliases does. -/
theorem turn_relayed_iff {cfg : Config} {answers : Answers} {mail : Mail} {db db' : Db}
    {rcpt : Str} : turn cfg answers mail db rcpt = .ok (db', .relayed) ↔
      resolveRecipient cfg db.directory answers.fails answers.relay rcpt mail.raw =
        .ok .relayed ∧ db' = db := by
  unfold turn
  cases resolveRecipient cfg db.directory answers.fails answers.relay rcpt mail.raw with
  | error _ => exact ⟨nofun, nofun⟩
  | ok resolution =>
    cases resolution with
    | onServer user =>
      constructor
      · intro done
        exact absurd rfl (deliver_not_relayed done)
      · exact nofun
    | relayed =>
      constructor
      · intro done
        cases done
        exact ⟨rfl, rfl⟩
      · rintro ⟨-, rfl⟩
        rfl
    | drop => exact ⟨nofun, nofun⟩

/-! ### The way back -/

section
variable {before after : Str} (fewer : receivedHopCount after ≤ receivedHopCount before)
include fewer

theorem relayForward_of_fewer {relay : Str → Bool} {target : Str}
    (taken : relayForward relay target before = true) :
    relayForward relay target after = true := by
  unfold relayForward at taken ⊢
  rw [Bool.and_eq_true, decide_eq_true_eq] at taken ⊢
  exact ⟨fewer.trans taken.1, taken.2⟩

/-- The text counts only at the end of the chain, and there only by its hops. -/
theorem resolveFrom_of_fewer {cfg : Config} {dir : Directory} {fails : Statement → Bool}
    {relay : Str → Bool} {rcpt : Str} {left : Nat} {addr : Str} {visited : List Str}
    (relayed : resolveFrom cfg dir fails relay rcpt before left addr visited = .ok .relayed) :
    resolveFrom cfg dir fails relay rcpt after left addr visited = .ok .relayed := by
  induction left generalizing addr visited with
  | zero => cases relayed
  | succ left ih =>
    rw [resolveFrom] at relayed ⊢
    obtain ⟨passed, checked, later⟩ := Transition.bind_eq_ok_iff.mp relayed
    apply Transition.bind_eq_ok_iff.mpr
    refine ⟨passed, checked, ?_⟩
    cases found : lookupLocalUser cfg dir addr with
    | some user =>
      rw [found] at later
      cases later
    | none =>
      rw [found] at later
      obtain ⟨passed, checked, later⟩ := Transition.bind_eq_ok_iff.mp later
      apply Transition.bind_eq_ok_iff.mpr
      refine ⟨passed, checked, ?_⟩
      cases target : lookupAliasTarget cfg dir addr with
      | target next =>
        simp only [target] at later ⊢
        by_cases again : addr ∈ visited
        · rw [if_pos again] at later
          cases later
        · rw [if_neg again] at later ⊢
          exact ih later
      | ambiguous =>
        rw [target] at later
        cases later
      | none =>
        simp only [target] at later ⊢
        by_cases own : addr = rcpt
        · rw [if_pos own] at later
          cases later
        · rw [if_neg own] at later ⊢
          unfold relayOffPlatform at later ⊢
          split at later
          · cases later
          · next host =>
            rw [if_neg host]
            split at later
            · next taken => rw [if_pos (relayForward_of_fewer fewer taken)]
            · cases later

end

/-- The message as it was sent, back from the peer. -/
def Leg.back (server : Server) (leg : Leg) : Leg := { leg with dataBuf := leg.raw server }

theorem Leg.relayed_back (server : Server) (leg : Leg) (relayed : leg.relayed server = true) :
    (leg.back server).relayed server = true := by
  have fewer : receivedHopCount ((leg.back server).raw server) ≤
      receivedHopCount (leg.raw server) := (leg.back server).hopCount_raw server
  unfold Leg.relayed at relayed ⊢
  rw [Bool.and_eq_true] at relayed ⊢
  refine ⟨relayed.1, ?_⟩
  have left := relayed.2
  show (match leg.route with
    | .aliases rcpt =>
        match resolveRecipient server.config server.directory leg.fails leg.relay rcpt
            ((leg.back server).raw server) with
        | .ok .relayed => true
        | _ => false
    | .rule target => relayForward leg.relay target ((leg.back server).raw server)) = true
  cases route : leg.route with
  | aliases rcpt =>
    simp only [route] at left ⊢
    split at left
    · next resolved =>
      have again := resolveFrom_of_fewer fewer resolved
      unfold resolveRecipient
      rw [again]
    · cases left
  | rule target =>
    simp only [route] at left ⊢
    exact relayForward_of_fewer fewer left

/-- The journey in which a peer sends the message back as it is. -/
theorem Leg.journey (server : Server) (leg : Leg) (relayed : leg.relayed server = true)
    (n : Nat) : (List.iterate (Leg.back server) leg n).IsChain (Returns server) ∧
      (List.iterate (Leg.back server) leg n).countP (·.relayed server) = n := by
  induction n generalizing leg with
  | zero => exact ⟨.nil, rfl⟩
  | succ n ih =>
    obtain ⟨chain, count⟩ := ih (leg.back server) (leg.relayed_back server relayed)
    rw [List.iterate]
    constructor
    · cases n with
      | zero => exact .singleton leg
      | succ n => exact .cons_cons ⟨relayed, rfl⟩ chain
    · rw [List.countP_cons_of_pos relayed, count]

theorem Leg.not_loopCut (server : Server) (leg : Leg) (relayed : leg.relayed server = true) :
    ¬ LoopCut server leg := by
  intro cut
  obtain ⟨chain, count⟩ := leg.journey server relayed (maxReceivedHops + 2)
  have bound := cut _ rfl chain
  rw [count] at bound
  omega

/-- No pass adds a hop, and a message that is relayed once is relayed as often as a peer sends it
back. -/
theorem hops_never_rise (server : Server) (leg : Leg) :
    ¬ receivedHopCount leg.dataBuf < receivedHopCount (leg.raw server) ∧
      (LoopCut server leg ↔ leg.relayed server = false) := by
  refine ⟨Nat.not_lt.mpr (leg.hopCount_raw server), ?_, ?_⟩
  · intro cut
    apply Bool.eq_false_iff.mpr
    intro relayed
    exact leg.not_loopCut server relayed cut
  · intro kept legs first chain
    cases legs with
    | nil => exact Nat.zero_le _
    | cons here others =>
      obtain rfl := Option.some.inj first
      cases others with
      | nil =>
        rw [List.countP_cons_of_neg (Bool.eq_false_iff.mp kept)]
        exact Nat.zero_le _
      | cons back later =>
        have sent := (List.isChain_cons_cons.mp chain).1.accepted
        rw [kept] at sent
        cases sent

/-- An alias that points to an address elsewhere. -/
def aliasServer : Server where
  config :=
    { relayHost := "smarthost".toList, flowsUrl := [], lower := toAsciiLowercase
      formats := ⟨fun _ => none, fun _ => none⟩ }
  directory := ⟨[], [⟨0, "list@here".toList, "far@away".toList, true⟩]⟩
  domain := ⟨"here".toList, by decide⟩

def aliasLeg : Leg where
  helo := some ⟨"away".toList, by decide⟩
  mailFrom := some ⟨"far@away".toList, by decide⟩
  rcpts := ["list@here".toList]
  dataBuf := "Received: by away\r\nSubject: hello\r\n\r\nhello\r\n".toList
  spf := ⟨"pass".toList, by decide⟩
  dkim := ⟨"none".toList, by decide⟩
  dmarc := ⟨"pass".toList, by decide⟩
  dmarcPolicy := none
  peer := ⟨"192.0.2.1".toList, by decide⟩
  scan := ⟨none, none, none⟩
  rejects := false
  fails := fun _ => false
  relay := fun _ => true
  route := .aliases "list@here".toList

/-- The message has one hop before the pass and one after it, and goes round without end. -/
theorem alias_loop : receivedHopCount aliasLeg.dataBuf = 1 ∧
    receivedHopCount (aliasLeg.raw aliasServer) = 1 ∧ ¬ LoopCut aliasServer aliasLeg :=
  have counts : receivedHopCount aliasLeg.dataBuf = 1 ∧
      receivedHopCount (aliasLeg.raw aliasServer) = 1 ∧
      aliasLeg.relayed aliasServer = true := by decide +kernel
  ⟨counts.1, counts.2.1, aliasLeg.not_loopCut aliasServer counts.2.2⟩

end Expresso.Ingest
