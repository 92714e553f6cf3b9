import Expresso.Ingest.Recipients
import Expresso.Smtp.Transparency
import Expresso.Text.Crlf

/-! The exchange in which a message is forwarded to the smarthost, and what a receiver that ends
lines at CRLF makes of it. -/

namespace Expresso.Smtp.Relay
open Text
open Ingest (maxReceivedHops)

/-! ### The sender -/

def receivedHopCount (raw : Octets) : Nat := Ingest.receivedHopCount (fromUtf8Lossy raw)

inductive RelayError where
  | refused (hops : Nat)
  | unexpected (line : Str)
  deriving DecidableEq

/-- What has been written, and how the exchange ended. -/
abbrev Outcome := Octets × Except RelayError Unit

def write (octets : Octets) (rest : Outcome) : Outcome := (octets ++ rest.1, rest.2)

/-- The next line of the relay has to begin with the code; no line is an empty one. -/
def expect (code : String) (replies : List Str) (next : List Str → Outcome) : Outcome :=
  if code.toList.isPrefixOf (replies.headD []) then next replies.tail
  else ([], .error (.unexpected (replies.headD [])))

/-- What follows the answer to EHLO. -/
def skipEhlo : List Str → List Str
  | [] => []
  | line :: rest =>
      if "250 ".toList.isPrefixOf line || !"250".toList.isPrefixOf line then rest
      else skipEhlo rest

def ehloLine (domain : Str) : Octets := asBytes ("EHLO ".toList ++ domain)

def mailLine : Octets := asBytes "MAIL FROM:<>".toList

def rcptLine (toAddr : Str) : Octets := asBytes ("RCPT TO:<".toList ++ toAddr ++ ['>'])

def dataLine : Octets := asBytes "DATA".toList

def quitLine : Octets := asBytes "QUIT".toList

/-- The message line by line, and the dot that ends it. -/
def payload (raw : Octets) : Octets := sent (feedPieces raw)

/-- The exchange, by the lines that the relay answers. -/
def relayForward (replies : List Str) (domain toAddr : Str) (raw : Octets) : Outcome :=
  if maxReceivedHops < receivedHopCount raw then ([], .error (.refused (receivedHopCount raw)))
  else
    expect "220" replies fun replies =>
    write (ehloLine domain ++ wireEnd) <|
    write (mailLine ++ wireEnd) <|
    expect "250" (skipEhlo replies) fun replies =>
    write (rcptLine toAddr ++ wireEnd) <|
    expect "250" replies fun replies =>
    write (dataLine ++ wireEnd) <|
    expect "354" replies fun replies =>
    write (payload raw) <|
    expect "250" replies fun _ =>
    write (quitLine ++ wireEnd) ([], .ok ())

/-! ### The receiver -/

inductive Received where
  | command (line : Octets)
  | message (content : Octets)
  deriving DecidableEq

/-- A line of a message without the dot that was put before it. -/
def undotted (line : Octets) : Octets := if line.head? = some dotOctet then line.tail else line

/-- The commands and the messages in the lines; after DATA comes a message, up to a lone dot. -/
def received : Option Octets → List Octets → List Received
  | _, [] => []
  | none, line :: rest =>
      .command line :: received (if line = dataLine then some [] else none) rest
  | some content, line :: rest =>
      if line = [dotOctet] then .message content :: received none rest
      else received (some (content ++ undotted line ++ wireEnd)) rest

example (line : Octets) : received none [line] = [.command line] := by
  simp [received]

def readStream (stream : Octets) : List Received := received none (crlfLines stream)

/-! ### What is meant -/

/-- The message with every line end as CRLF, and one at the end of a last line that has none. -/
def wholeLines (raw : Octets) : Octets :=
  withCrlf raw ++ if raw.getLast?.all (· = 10) then [] else wireEnd

/-- One of each command, and the message. -/
def session (domain toAddr : Str) (raw : Octets) : List Received :=
  [.command (ehloLine domain), .command mailLine, .command (rcptLine toAddr), .command dataLine,
    .message (wholeLines raw), .command quitLine]

/-- Whatever the relay answers, it reads the session so far, and all of it when the exchange is
complete. -/
def Framed (domain toAddr : Str) (raw : Octets) : Prop :=
  ∀ replies, readStream (relayForward replies domain toAddr raw).1 <+: session domain toAddr raw ∧
    ((relayForward replies domain toAddr raw).2 = .ok () →
      readStream (relayForward replies domain toAddr raw).1 = session domain toAddr raw)

/-- The message has a last line, and no carriage return at its end. -/
def EndsOpen (raw : Octets) : Prop := ∃ last, raw.getLast? = some last ∧ last ≠ 10 ∧ last ≠ 13

/-! ### What is written -/

section
variable (domain toAddr : Str) (raw : Octets)

def parts : List Octets :=
  [ehloLine domain ++ wireEnd, mailLine ++ wireEnd, rcptLine toAddr ++ wireEnd,
    dataLine ++ wireEnd, payload raw, quitLine ++ wireEnd]

/-- A relay that accepts everything. -/
def accepting : List Str := ["220", "250 ", "250", "250", "354", "250"].map String.toList

variable {domain toAddr raw}

theorem relayForward_refused (hops : maxReceivedHops < receivedHopCount raw) (replies : List Str) :
    (relayForward replies domain toAddr raw).1 = [] ∧
      (relayForward replies domain toAddr raw).2 ≠ .ok () := by
  unfold relayForward
  rw [if_pos hops]
  exact ⟨rfl, nofun⟩

theorem relayForward_accepting (hops : ¬maxReceivedHops < receivedHopCount raw) :
    relayForward accepting domain toAddr raw = ((parts domain toAddr raw).flatten, .ok ()) := by
  unfold relayForward
  rw [if_neg hops]
  simp [accepting, expect, skipEhlo, write, parts]

/-- An outcome has the first parts, and all of them when it is complete. -/
def StopsIn (parts : List Octets) (outcome : Outcome) : Prop :=
  ∃ n, outcome.1 = (parts.take n).flatten ∧ (outcome.2 = .ok () → n = parts.length)

theorem stopsIn_write {parts : List Octets} {outcome : Outcome} (part : Octets)
    (stops : StopsIn parts outcome) : StopsIn (part :: parts) (write part outcome) := by
  obtain ⟨n, written, complete⟩ := stops
  refine ⟨n + 1, ?_, fun done => congrArg (· + 1) (complete done)⟩
  rw [List.take_succ_cons, List.flatten_cons, ← written]
  rfl

theorem stopsIn_expect {parts : List Octets} {next : List Str → Outcome} (code : String)
    (replies : List Str) (stops : ∀ later, StopsIn parts (next later)) :
    StopsIn parts (expect code replies next) := by
  unfold expect
  split_ifs
  · exact stops _
  · exact ⟨0, rfl, nofun⟩

theorem relayForward_stopsIn (hops : ¬maxReceivedHops < receivedHopCount raw)
    (replies : List Str) :
    StopsIn (parts domain toAddr raw) (relayForward replies domain toAddr raw) := by
  unfold relayForward
  rw [if_neg hops]
  apply stopsIn_expect
  intro replies
  apply stopsIn_write
  apply stopsIn_write
  apply stopsIn_expect
  intro replies
  apply stopsIn_write
  apply stopsIn_expect
  intro replies
  apply stopsIn_write
  apply stopsIn_expect
  intro replies
  apply stopsIn_write
  apply stopsIn_expect
  intro replies
  apply stopsIn_write
  exact ⟨0, rfl, fun _ => rfl⟩

end

/-! ### What is read -/

theorem readStream_command {line : Octets} (unbroken : Unbroken line) (command : line ≠ dataLine)
    (rest : Octets) :
    readStream (line ++ wireEnd ++ rest) = .command line :: readStream rest := by
  unfold readStream
  rw [crlfLines_line unbroken, received, if_neg command]

/-- The fixed commands are lines of their own, and so is what the addresses are put into. -/
theorem command_facts :
    (Unbroken dataLine ∧ Unbroken mailLine ∧ Unbroken quitLine) ∧
      (mailLine ≠ dataLine ∧ quitLine ≠ dataLine) ∧
      (dataLine.head? ≠ some 69 ∧ dataLine.head? ≠ some 82) ∧
      13 ∉ asBytes "EHLO ".toList ∧ 13 ∉ asBytes "RCPT TO:<".toList ∧ 10 ∉ asBytes ['>'] := by
  decide +kernel

theorem readStream_data (rest : Octets) : readStream (dataLine ++ wireEnd ++ rest) =
    .command dataLine :: received (some []) (crlfLines rest) := by
  unfold readStream
  rw [crlfLines_line command_facts.1.1, received, if_pos rfl]

theorem undotted_stuffed (line : Octets) : undotted (stuffed line) = line := by
  unfold undotted stuffed
  by_cases dotted : line.head? = some dotOctet
  · rw [if_pos dotted]
    rfl
  · rw [if_neg dotted, if_neg dotted]

theorem stuffed_ne_dot (line : Octets) : stuffed line ≠ [dotOctet] := by
  unfold stuffed
  split_ifs with dotted
  · intro same
    rw [(List.cons.inj same).2] at dotted
    cases dotted
  · intro same
    rw [same] at dotted
    exact dotted rfl

theorem received_stuffed (content : Octets) (lines more : List Octets) :
    received (some content) (lines.map stuffed ++ [dotOctet] :: more) =
      .message (content ++ bodyOf lines) :: received none more := by
  induction lines generalizing content with
  | nil => simp [received, bodyOf]
  | cons line lines ih =>
    rw [List.map_cons, List.cons_append, received, if_neg (stuffed_ne_dot line), ih,
      undotted_stuffed]
    simp [bodyOf, List.append_assoc]

/-- After DATA a receiver takes the message back, whatever follows it. -/
theorem received_payload (raw rest : Octets) :
    received (some []) (crlfLines (payload raw ++ rest)) =
      .message (bodyOf (feedPieces raw)) :: readStream rest := by
  have unbroken : ∀ line ∈ (feedPieces raw).map stuffed, Unbroken line := by
    intro line member
    obtain ⟨piece, among, rfl⟩ := List.mem_map.mp member
    exact unbroken_of_not_mem
      (lineFeed_not_stuffed (lineFeed_not_mem_feedPieces raw piece among))
  have dot : Unbroken [dotOctet] := by decide
  have text : payload raw ++ rest = ((feedPieces raw).map stuffed).flatMap (· ++ wireEnd) ++
      ([dotOctet] ++ wireEnd ++ rest) := by
    simp [payload, sent, sentLines, List.flatMap_map]
  rw [text, crlfLines_lines unbroken, crlfLines_line dot, received_stuffed, List.nil_append]
  rfl

/-! ### The message that arrives -/

theorem withoutReturn_eq_iff (line : Octets) :
    withoutReturn line = line ↔ line.getLast? ≠ some 13 := by
  unfold withoutReturn
  split_ifs with return'
  · apply iff_of_false _ (not_not.mpr return')
    intro same
    have length := congrArg List.length same
    rw [List.length_dropLast] at length
    cases line with
    | nil => cases return'
    | cons octet line => simp at length
  · exact iff_of_true rfl return'

theorem getLast_terminated {lines : List Octets} (terminated : ∀ line ∈ lines, Terminated line) :
    lines.flatten.getLast?.all (· = 10) = true := by
  rcases lines.eq_nil_or_concat' with rfl | ⟨front, last, rfl⟩
  · rfl
  · obtain ⟨inside, _, rfl⟩ :=
      terminated last (List.mem_append_right front (List.mem_singleton_self last))
    simp [List.flatten_append, ← List.append_assoc]

/-- The message is the one that was meant if it ends in an open line. -/
theorem body_eq_iff (raw : Octets) : bodyOf (feedPieces raw) = wholeLines raw ↔ EndsOpen raw := by
  obtain ⟨lines, left, terminated, open', rfl⟩ := exists_lines raw
  obtain ⟨written, whole⟩ := feedPieces_written lines left terminated open'
  unfold wholeLines bodyOf EndsOpen
  rw [written, whole]
  cases last : left.getLast? with
  | none =>
    have empty := List.getLast?_eq_none_iff.mp last
    subst empty
    simp only [List.append_nil]
    rw [if_pos (getLast_terminated terminated)]
    apply iff_of_false
    · intro same
      have lengths := congrArg List.length same
      simp [withoutReturn, wireEnd] at lengths
    · rintro ⟨octet, ends, other, _⟩
      have feed := getLast_terminated terminated
      rw [ends] at feed
      exact other (of_decide_eq_true feed)
  | some octet =>
    have ends : (lines.flatten ++ left).getLast? = some octet := by
      rw [List.getLast?_append, last]
      rfl
    have other : octet ≠ 10 := by
      rintro rfl
      exact open' (List.mem_of_getLast? last)
    have noFeed : ¬(some octet).all (· = 10) = true := by simpa using other
    rw [ends, if_neg noFeed, List.append_cancel_right_eq, List.append_cancel_left_eq,
      withoutReturn_eq_iff, last]
    constructor
    · intro noReturn
      exact ⟨octet, rfl, other, fun same => noReturn (congrArg some same)⟩
    · rintro ⟨_, ⟨⟩, _, noReturn⟩
      exact fun same => noReturn (Option.some.inj same)

/-! ### The exchange -/

section
variable {domain toAddr : Str} {raw : Octets}

theorem unbroken_ehloLine : Unbroken (ehloLine domain) ↔ Unbroken (asBytes domain) := by
  unfold ehloLine
  rw [asBytes_append]
  exact unbroken_append command_facts.2.2.2.1 _

theorem unbroken_rcptLine : Unbroken (rcptLine toAddr) ↔ Unbroken (asBytes toAddr) := by
  unfold rcptLine
  obtain ⟨-, -, -, -, opening, closing⟩ := command_facts
  rw [asBytes_append, asBytes_append, List.append_assoc, unbroken_append opening,
    unbroken_append_right closing]

theorem ehloLine_ne_data : ehloLine domain ≠ dataLine := by
  intro same
  have head : (ehloLine domain).head? = some 69 := rfl
  rw [same] at head
  exact command_facts.2.2.1.1 head

theorem rcptLine_ne_data : rcptLine toAddr ≠ dataLine := by
  intro same
  have head : (rcptLine toAddr).head? = some 82 := rfl
  rw [same] at head
  exact command_facts.2.2.1.2 head

/-- What a receiver has read, with the message as it is sent. -/
def arrived (domain toAddr : Str) (raw : Octets) : List Received :=
  [.command (ehloLine domain), .command mailLine, .command (rcptLine toAddr), .command dataLine,
    .message (bodyOf (feedPieces raw)), .command quitLine]

theorem readStream_parts (ehlo : Unbroken (asBytes domain)) (rcpt : Unbroken (asBytes toAddr))
    (n : Nat) :
    readStream ((parts domain toAddr raw).take n).flatten = (arrived domain toAddr raw).take n := by
  have first (rest : Octets) := readStream_command (unbroken_ehloLine.2 ehlo)
    ehloLine_ne_data rest
  obtain ⟨⟨-, mail, quit⟩, ⟨mailOther, quitOther⟩, -⟩ := command_facts
  have second (rest : Octets) := readStream_command mail mailOther rest
  have third (rest : Octets) := readStream_command (unbroken_rcptLine.2 rcpt)
    rcptLine_ne_data rest
  have last (rest : Octets) := readStream_command quit quitOther rest
  unfold parts arrived
  rcases n with _ | _ | _ | _ | _ | _ | n
  all_goals simp only [List.take_zero, List.take_succ_cons, List.flatten_cons, List.flatten_nil,
    List.take_nil, first, second, third, readStream_data, received_payload, last]
  all_goals rfl

/-- A line that is broken is read as a shorter one. -/
theorem readStream_broken {line : Octets} (broken : ¬Unbroken line) (rest : Octets) :
    ∃ first, (readStream (line ++ wireEnd ++ rest)).head? = some (.command first) ∧
      first ≠ line := by
  obtain ⟨first, later, unbroken, same⟩ := exists_first (not_not.mp broken)
  have text : line ++ wireEnd ++ rest = first ++ wireEnd ++ (later ++ wireEnd ++ rest) := by
    rw [same]
    simp only [List.append_assoc]
  refine ⟨first, ?_, ?_⟩
  · rw [text]
    unfold readStream
    rw [crlfLines_line unbroken, received]
    rfl
  · intro whole
    have lengths := congrArg List.length (whole.trans same)
    simp [wireEnd] at lengths

/-- The commands and the message arrive as they were meant exactly when the domain and the address
are single lines and the message ends in an open line, or when nothing is sent: a line end in the
address adds commands, a line end at the end of the message adds a line. -/
theorem framed_iff (domain toAddr : Str) (raw : Octets) : Framed domain toAddr raw ↔
    maxReceivedHops < receivedHopCount raw ∨
      Unbroken (asBytes domain) ∧ Unbroken (asBytes toAddr) ∧ EndsOpen raw := by
  constructor
  · intro framed
    by_contra neither
    obtain ⟨hops, some⟩ := not_or.mp neither
    have whole := (framed accepting).2
    rw [relayForward_accepting hops] at whole
    have read := whole rfl
    by_cases ehlo : Unbroken (asBytes domain)
    · by_cases rcpt : Unbroken (asBytes toAddr)
      · have all := @readStream_parts _ _ raw ehlo rcpt 6
        rw [show (parts domain toAddr raw).take 6 = parts domain toAddr raw from rfl, read] at all
        have same : wholeLines raw = bodyOf (feedPieces raw) := by
          simpa [session, arrived] using all
        exact some ⟨ehlo, rcpt, (body_eq_iff raw).mp same.symm⟩
      · have text : (parts domain toAddr raw).flatten = ehloLine domain ++ wireEnd ++
            (mailLine ++ wireEnd ++ (rcptLine toAddr ++ wireEnd ++
              ((parts domain toAddr raw).drop 3).flatten)) := by
          simp [parts]
        obtain ⟨first, shorter, other⟩ :=
          readStream_broken (mt unbroken_rcptLine.mp rcpt) ((parts domain toAddr raw).drop 3).flatten
        rw [text, readStream_command (unbroken_ehloLine.mpr ehlo) ehloLine_ne_data,
          readStream_command command_facts.1.2.1 command_facts.2.1.1] at read
        have third := congrArg List.head? (List.cons.inj (List.cons.inj read).2).2
        rw [shorter] at third
        exact other (Received.command.inj (Option.some.inj third))
    · have text : (parts domain toAddr raw).flatten = ehloLine domain ++ wireEnd ++
          ((parts domain toAddr raw).drop 1).flatten := by
        simp [parts]
      obtain ⟨first, shorter, other⟩ :=
        readStream_broken (mt unbroken_ehloLine.mp ehlo) ((parts domain toAddr raw).drop 1).flatten
      have first' := congrArg List.head? read
      rw [text, shorter] at first'
      exact other (Received.command.inj (Option.some.inj first'))
  · intro condition replies
    by_cases hops : maxReceivedHops < receivedHopCount raw
    · obtain ⟨written, stopped⟩ := @relayForward_refused domain toAddr raw hops replies
      rw [written]
      exact ⟨List.nil_prefix, fun done => absurd done stopped⟩
    · obtain ⟨ehlo, rcpt, open'⟩ := condition.resolve_left hops
      obtain ⟨n, written, complete⟩ := @relayForward_stopsIn domain toAddr raw hops replies
      have same : arrived domain toAddr raw = session domain toAddr raw := by
        unfold arrived session
        rw [(body_eq_iff raw).mpr open']
      rw [written, readStream_parts ehlo rcpt, same]
      refine ⟨List.take_prefix _ _, fun done => ?_⟩
      rw [complete done]
      rfl

end

/-- An address with a command in it. -/
def injected : Str := "a@x.org>\r\nRCPT TO:<b@y.org".toList

/-- A second recipient, and a blank line at the end of the message. -/
theorem relay_misframed :
    (¬Framed "x.org".toList injected (asBytes "A: b\r\n\r\nhi".toList) ∧
      .command (asBytes "RCPT TO:<b@y.org>".toList) ∈ readStream (relayForward accepting
        "x.org".toList injected (asBytes "A: b\r\n\r\nhi".toList)).1) ∧
    ¬Framed "x.org".toList "a@x.org".toList (asBytes "A: b\r\n\r\nhi\r\n".toList) ∧
      .message (asBytes "A: b\r\n\r\nhi\r\n\r\n".toList) ∈ readStream (relayForward accepting
        "x.org".toList "a@x.org".toList (asBytes "A: b\r\n\r\nhi\r\n".toList)).1 := by
  refine ⟨⟨fun framed => ?_, by decide⟩, fun framed => ?_, by decide⟩
  · have read := (framed accepting).2 (by decide)
    exact absurd read (by decide)
  · have read := (framed accepting).2 (by decide)
    exact absurd read (by decide)

end Expresso.Smtp.Relay
