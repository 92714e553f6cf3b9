import Expresso.Smtp.Sessions
import Expresso.Text.Wire

/-! The octets that a client sends for a message, and those that a session on port 25 hands on. -/

namespace Expresso.Smtp
open Text

/-! ### The client -/

def dotOctet : UInt8 := 46

/-- A line as it is sent: one that starts with a dot gets another one before it. -/
def stuffed (line : Octets) : Octets :=
  if line.head? = some dotOctet then dotOctet :: line else line

/-- The body of a message, line by line. -/
def bodyOf (lines : List Octets) : Octets := lines.flatMap (· ++ wireEnd)

def sentLines (lines : List Octets) : Octets := lines.flatMap fun line => stuffed line ++ wireEnd

/-- The lines and the dot that ends them. -/
def sent (lines : List Octets) : Octets := sentLines lines ++ dotOctet :: wireEnd

/-! ### What is sent -/

theorem dot_encoded (line : Octets) (text : Str) :
    asBytes text = dotOctet :: line ↔ ∃ rest, text = '.' :: rest ∧ asBytes rest = line :=
  asBytes_ascii_cons (by decide) rfl line text

theorem lineFeed_not_stuffed {line : Octets} (inside : 10 ∉ line) : 10 ∉ stuffed line := by
  unfold stuffed
  split
  · intro member
    obtain same | later := List.mem_cons.mp member
    · cases same
    · exact inside later
  · exact inside

/-- A text of a line gives one of the line as it is sent, which the session turns back. -/
theorem stuffed_text {line : Octets} {text : Str} (encoded : asBytes text = line) :
    ∃ whole, asBytes whole = stuffed line ∧ unstuffed whole = text ∧ whole ≠ ['.'] := by
  unfold stuffed
  split
  next dotted =>
    refine ⟨'.' :: text, (dot_encoded line _).mpr ⟨text, rfl, encoded⟩, rfl, ?_⟩
    intro lone
    obtain rfl := List.tail_eq_of_cons_eq lone
    rw [← encoded] at dotted
    cases dotted
  next plain =>
    have other : ∀ rest, text ≠ '.' :: rest := by
      rintro rest rfl
      have octets := (dot_encoded (asBytes rest) _).mpr ⟨rest, rfl, rfl⟩
      rw [← encoded, octets] at plain
      exact plain rfl
    refine ⟨text, encoded, ?_, other []⟩
    unfold unstuffed stripPrefix
    rw [if_neg]
    · rfl
    · intro starts
      obtain ⟨rest, rfl⟩ := List.isPrefixOf_iff_prefix.mp starts
      exact other rest rfl

theorem stuffed_utf8 {line : Octets} (broken : fromUtf8 line = none) :
    fromUtf8 (stuffed line) = none := by
  unfold stuffed
  split
  · rw [fromUtf8_eq_none_iff] at broken ⊢
    intro whole encoded
    obtain ⟨rest, -, same⟩ := (dot_encoded line whole).mp encoded
    exact broken rest same
  · exact broken

section
variable {lines : List Octets} (terminated : ∀ line ∈ lines, 10 ∉ line)
include terminated

theorem lineFeed_not_mem_stuffed : ∀ line ∈ lines.map stuffed, 10 ∉ line := by
  intro line member
  obtain ⟨plain, among, rfl⟩ := List.mem_map.mp member
  exact lineFeed_not_stuffed (terminated plain among)

theorem octetLines_sentLines : octetLines (sentLines lines) = lines.map stuffed := by
  have read := octetLines_lines (lines.map stuffed) [] (lineFeed_not_mem_stuffed terminated)
  simpa [sentLines, List.flatMap_map] using read

theorem octetLines_sent : octetLines (sent lines) = lines.map stuffed ++ [[dotOctet]] := by
  have read := octetLines_lines (lines.map stuffed) (dotOctet :: wireEnd)
    (lineFeed_not_mem_stuffed terminated)
  have dot : octetLines (dotOctet :: wireEnd) = [[dotOctet]] := by decide
  simpa [sent, sentLines, List.flatMap_map, dot] using read

end

namespace Inbound

/-! ### The session -/

section
variable (cfg : InboundConfig) (answers : InboundAnswers)

/-- `lines.next_line().await?`: a line that is not UTF-8 is an error, which ends the session. -/
def nextLine (s : Inbound) (line : Octets) : Inbound × List Effect :=
  match fromUtf8 line with
  | none => ({ s with closed := true }, [])
  | some text => step cfg s (text, answers)

def readLines : Inbound → List Octets → Inbound × List Effect
  | s, [] => (s, [])
  | s, line :: rest =>
      let (s, effects) := nextLine cfg answers s line
      let (s, later) := readLines s rest
      (s, effects ++ later)

example (s : Inbound) : readLines cfg answers s [] = (s, []) := by simp only [readLines]

def session (s : Inbound) (stream : Octets) : Inbound × List Effect :=
  readLines cfg answers s (octetLines stream)

/-- What SPF, DKIM and DMARC say of the message in the buffer. -/
def verified (s : Inbound) : AuthResults :=
  answers.verifyInbound (s.env.helo.getD "unknown".toList) (s.env.mailFrom.getD []) cfg.domain
    s.dataBuf

def authHeaders (s : Inbound) : Str :=
  (verified cfg answers s).toReceivedSpfHeader cfg.domain ++
    (verified cfg answers s).toHeader cfg.domain

end

/-- The session waits for the first line of a message. -/
structure Ready (s : Inbound) : Prop where
  waits : s.dataMode = true
  empty : s.dataBuf = []
  opened : s.closed = false

def handedOctets (effects : List Effect) : List Octets :=
  effects.filterMap fun
    | .handed _ _ raw => some (asBytes raw)
    | .reply _ => none

def refusal : List Effect := said "550 5.7.1 DMARC policy: message rejected (p=reject)"

/-- The session hands on the headers of the verification and then the body, unless it refuses the
message. -/
def Transparent (cfg : InboundConfig) (answers : InboundAnswers) (s : Inbound)
    (lines : List Octets) : Prop :=
  let verifiedAt := (session cfg answers s (sentLines lines)).1
  let effects := (session cfg answers s (sent lines)).2
  handedOctets effects = [asBytes (authHeaders cfg answers verifiedAt) ++ bodyOf lines] ∨
    effects = refusal

/-! ### What is read -/

section
variable (cfg : InboundConfig) (answers : InboundAnswers) {s : Inbound}

theorem readLines_append (s : Inbound) (first second : List Octets) :
    readLines cfg answers s (first ++ second) =
      ((readLines cfg answers (readLines cfg answers s first).1 second).1,
        (readLines cfg answers s first).2 ++
          (readLines cfg answers (readLines cfg answers s first).1 second).2) := by
  induction first generalizing s with
  | nil => rfl
  | cons line first ih => simp only [List.cons_append, readLines, ih, List.append_assoc]

theorem nextLine_closed (finished : s.closed = true) (line : Octets) :
    nextLine cfg answers s line = (s, []) := by
  unfold nextLine
  split
  · cases s
    exact congrArg (fun closed => (Inbound.mk _ _ _ _ closed, [])) finished.symm
  · simp [step, finished]

theorem readLines_closed (finished : s.closed = true) (lines : List Octets) :
    readLines cfg answers s lines = (s, []) := by
  induction lines with
  | nil => rfl
  | cons line lines ih =>
    simp only [readLines, nextLine_closed cfg answers finished, ih, List.append_nil]

theorem nextLine_broken {line : Octets} (broken : fromUtf8 line = none) :
    nextLine cfg answers s (stuffed line) = ({ s with closed := true }, []) := by
  simp only [nextLine, stuffed_utf8 broken]

theorem nextLine_text {line : Octets} {text : Str} (waits : s.dataMode = true)
    (opened : s.closed = false) (encoded : asBytes text = line)
    (fits : len s.dataBuf + len text + 2 ≤ maxMsgBytes) :
    nextLine cfg answers s (stuffed line) =
      ({ s with dataBuf := s.dataBuf ++ text ++ crlf }, []) := by
  obtain ⟨whole, sentAs, back, goesOn⟩ := stuffed_text encoded
  simp only [nextLine, fromUtf8_eq_some_iff.mpr sentAs, step, opened, waits, content, goesOn,
    appendInboundDataLine, back, Nat.not_lt.mpr fits, Bool.false_eq_true, if_false, if_true]

theorem bodyOf_cons (line : Octets) (lines : List Octets) :
    bodyOf (line :: lines) = line ++ (wireEnd ++ bodyOf lines) := by
  simp [bodyOf]

theorem fits_cons {line : Octets} {lines : List Octets} {text dataBuf : Str}
    (encoded : asBytes text = line)
    (fits : len dataBuf + (bodyOf (line :: lines)).length ≤ maxMsgBytes) :
    len dataBuf + len text + 2 ≤ maxMsgBytes ∧
      len (dataBuf ++ text ++ crlf) + (bodyOf lines).length ≤ maxMsgBytes := by
  have size : line.length = len text := by rw [← encoded, length_asBytes]
  have lineEnd : wireEnd.length = 2 := rfl
  have grown : len (dataBuf ++ text ++ crlf) = len dataBuf + len text + 2 := by
    simp [len, crlf]
    rfl
  rw [bodyOf_cons, List.length_append, List.length_append, size, lineEnd] at fits
  rw [grown]
  omega

/-- Lines of UTF-8 that fit into the buffer are appended to it as they were. -/
theorem readLines_text {lines : List Octets} (utf8 : ∀ line ∈ lines, (fromUtf8 line).isSome)
    (waits : s.dataMode = true) (opened : s.closed = false)
    (fits : len s.dataBuf + (bodyOf lines).length ≤ maxMsgBytes) :
    ∃ text, asBytes text = bodyOf lines ∧
      readLines cfg answers s (lines.map stuffed) =
        ({ s with dataBuf := s.dataBuf ++ text }, []) := by
  induction lines generalizing s with
  | nil => exact ⟨[], rfl, by simp [readLines]⟩
  | cons line lines ih =>
    obtain ⟨text, decoded⟩ := Option.isSome_iff_exists.mp (utf8 line List.mem_cons_self)
    have encoded := fromUtf8_eq_some_iff.mp decoded
    obtain ⟨fitsHere, fitsLater⟩ := fits_cons encoded fits
    have first : nextLine cfg answers s (stuffed line) = _ :=
      nextLine_text cfg answers waits opened encoded fitsHere
    obtain ⟨rest, restEncoded, later⟩ :=
      @ih { s with dataBuf := s.dataBuf ++ text ++ crlf }
        (fun other member => utf8 other (List.mem_cons_of_mem _ member)) waits opened fitsLater
    refine ⟨text ++ (crlf ++ rest), ?_, ?_⟩
    · rw [bodyOf_cons, asBytes_append, asBytes_append, encoded, restEncoded]
      rfl
    · simp only [List.map_cons, readLines, first, later, List.nil_append]
      simp only [List.append_assoc]

/-- A line that is not UTF-8 ends the session. -/
theorem readLines_broken {lines : List Octets} (broken : ∃ line ∈ lines, fromUtf8 line = none)
    (waits : s.dataMode = true) (opened : s.closed = false)
    (fits : len s.dataBuf + (bodyOf lines).length ≤ maxMsgBytes) :
    (readLines cfg answers s (lines.map stuffed)).1.closed = true ∧
      (readLines cfg answers s (lines.map stuffed)).2 = [] := by
  induction lines generalizing s with
  | nil =>
    obtain ⟨line, member, -⟩ := broken
    cases member
  | cons line lines ih =>
    simp only [List.map_cons, readLines]
    cases decoded : fromUtf8 line with
    | none =>
      rw [nextLine_broken cfg answers decoded]
      simp only [readLines_closed, List.append_nil, and_self]
    | some text =>
      have encoded := fromUtf8_eq_some_iff.mp decoded
      obtain ⟨fitsHere, fitsLater⟩ := fits_cons encoded fits
      have among : ∃ other ∈ lines, fromUtf8 other = none := by
        obtain ⟨other, member, none⟩ := broken
        obtain rfl | later := List.mem_cons.mp member
        · rw [decoded] at none
          cases none
        · exact ⟨other, later, none⟩
      rw [nextLine_text cfg answers waits opened encoded fitsHere]
      exact @ih { s with dataBuf := s.dataBuf ++ text ++ crlf } among waits opened fitsLater

theorem session_broken {lines : List Octets} (terminated : ∀ line ∈ lines, 10 ∉ line)
    (ready : Ready s) (fits : (bodyOf lines).length ≤ maxMsgBytes)
    (broken : ∃ line ∈ lines, fromUtf8 line = none) :
    (session cfg answers s (sent lines)).2 = [] := by
  have begins : len s.dataBuf + (bodyOf lines).length ≤ maxMsgBytes := by
    rw [ready.empty]
    simpa [len] using fits
  obtain ⟨finished, silent⟩ := readLines_broken cfg answers broken ready.waits
    ready.opened begins
  rw [session, octetLines_sent terminated, readLines_append, silent,
    readLines_closed cfg answers finished]
  rfl

/-- A body of UTF-8 reaches the end of the message as it was. -/
theorem session_text {lines : List Octets} (terminated : ∀ line ∈ lines, 10 ∉ line)
    (ready : Ready s) (fits : (bodyOf lines).length ≤ maxMsgBytes)
    (utf8 : ∀ line ∈ lines, (fromUtf8 line).isSome) :
    ∃ text, asBytes text = bodyOf lines ∧
      session cfg answers s (sentLines lines) = ({ s with dataBuf := text }, []) ∧
      (session cfg answers s (sent lines)).2 = finalizeInboundMessage cfg answers s.env text := by
  have begins : len s.dataBuf + (bodyOf lines).length ≤ maxMsgBytes := by
    rw [ready.empty]
    simpa [len] using fits
  obtain ⟨text, encoded, read⟩ := readLines_text cfg answers utf8 ready.waits
    ready.opened begins
  rw [ready.empty, List.nil_append] at read
  refine ⟨text, encoded, ?_, ?_⟩
  · rw [session, octetLines_sentLines terminated, read]
  · have dot : fromUtf8 [dotOctet] = some ['.'] := fromUtf8_asBytes ['.']
    rw [session, octetLines_sent terminated, readLines_append, read]
    simp [readLines, nextLine, dot, step, content, ready.waits, ready.opened]

end

theorem handedOctets_handed (sender : Option Str) (rcpts : List Str) (raw : Str)
    (result : Except Unit Nat) :
    handedOctets (.handed sender rcpts raw :: ingestReply result) = [asBytes raw] := by
  cases result <;> rfl

instance (cfg : InboundConfig) (answers : InboundAnswers) (s : Inbound) (lines : List Octets) :
    Decidable (Transparent cfg answers s lines) := inferInstanceAs (Decidable (_ ∨ _))

theorem finalizeInboundMessage_transparent (cfg : InboundConfig) (answers : InboundAnswers)
    (s : Inbound) :
    handedOctets (finalizeInboundMessage cfg answers s.env s.dataBuf) =
        [asBytes (authHeaders cfg answers s) ++ asBytes s.dataBuf] ∨
      finalizeInboundMessage cfg answers s.env s.dataBuf = refusal := by
  have handed := handedOctets_handed s.env.mailFrom s.env.rcpts
    (authHeaders cfg answers s ++ s.dataBuf)
    (answers.ingest s.env.mailFrom s.env.rcpts (authHeaders cfg answers s ++ s.dataBuf))
  rw [asBytes_append] at handed
  cases refuses : (verified cfg answers s).shouldReject with
  | true => exact .inr (if_pos refuses)
  | false =>
    have accepts : (verified cfg answers s).shouldReject ≠ true := by simp [refuses]
    exact .inl ((congrArg handedOctets (if_neg accepts)).trans handed)

/-- The session hands on what was sent if and only if each line of it is UTF-8. -/
theorem transparent_iff (cfg : InboundConfig) (answers : InboundAnswers) (s : Inbound)
    (ready : Ready s) (lines : List Octets) (terminated : ∀ line ∈ lines, 10 ∉ line)
    (fits : (bodyOf lines).length ≤ maxMsgBytes) :
    Transparent cfg answers s lines ↔ ∀ line ∈ lines, (fromUtf8 line).isSome := by
  constructor
  · intro transparent line member
    by_contra broken
    have silent := session_broken cfg answers terminated ready fits
      ⟨line, member, by simpa using broken⟩
    rw [Transparent, silent] at transparent
    obtain handed | refused := transparent
    · cases handed
    · cases refused
  · intro utf8
    obtain ⟨text, encoded, before, after⟩ := session_text cfg answers
      terminated ready fits utf8
    rw [Transparent, before, after, ← encoded]
    exact finalizeInboundMessage_transparent cfg answers { s with dataBuf := text }

/-! ### When a session is ready -/

/-- Between messages the buffer is empty. -/
def Emptied (s : Inbound) : Prop := s.dataMode = false → s.dataBuf = []

def NoData (after : Inbound × List Effect) : Prop := after.1.dataBuf = []

theorem command_noData (cfg : InboundConfig) {s : Inbound} (line : Str) (empty : s.dataBuf = []) :
    NoData (command cfg s line) := by
  unfold command
  refine iteInduction (fun _ => empty) fun _ => ?_
  refine iteInduction (fun _ => ?_) fun _ => ?_
  · exact iteInduction (fun _ => rfl) fun _ => empty
  refine iteInduction (fun _ => empty) fun _ => ?_
  refine iteInduction (fun _ => empty) fun _ => ?_
  refine iteInduction (fun _ => empty) fun _ => ?_
  refine iteInduction (fun _ => empty) fun _ => ?_
  refine iteInduction (fun _ => empty) fun _ => ?_
  refine iteInduction (fun _ => empty) fun _ => ?_
  exact iteInduction (fun _ => empty) fun _ => empty

theorem step_emptied (cfg : InboundConfig) {s : Inbound} (input : Str × InboundAnswers)
    (emptied : Emptied s) : Emptied (step cfg s input).1 := by
  unfold step
  split
  · exact emptied
  split
  next waits =>
    unfold content
    split
    · exact fun _ => rfl
    · split
      · exact fun _ => rfl
      · intro idle
        cases waits.symm.trans idle
  next idle => exact fun _ => command_noData cfg input.1 (emptied (by simpa using idle))

theorem readLines_emptied (cfg : InboundConfig) (answers : InboundAnswers) {s : Inbound}
    (emptied : Emptied s) (lines : List Octets) : Emptied (readLines cfg answers s lines).1 := by
  induction lines generalizing s with
  | nil => exact emptied
  | cons line lines ih =>
    have next : Emptied (nextLine cfg answers s line).1 := by
      unfold nextLine
      split
      · exact emptied
      · exact step_emptied cfg _ emptied
    exact ih next

/-- A session that answers a command with 354 is ready for the message. -/
theorem ready_of_asked (cfg : InboundConfig) (answers : InboundAnswers) (tls : Bool)
    (stream : Octets) {s : Inbound} (reached : (session cfg answers (start tls) stream).1 = s)
    (idle : s.dataMode = false) (opened : s.closed = false) (line : Str)
    (asked : (step cfg s (line, answers)).1.dataMode = true)
    (open' : (step cfg s (line, answers)).1.closed = false) :
    Ready (step cfg s (line, answers)).1 := by
  have emptied : Emptied s := reached ▸ readLines_emptied cfg answers (fun _ => rfl) _
  refine ⟨asked, ?_, open'⟩
  simp only [step, opened, idle, Bool.false_eq_true, if_false]
  exact command_noData cfg line (emptied idle)

/-! ### A session -/

def sampleDomain : InboundConfig := ⟨"x.org".toList, false⟩

/-- The verification puts one header before a message. -/
def sampleSigned : InboundAnswers where
  verifyInbound _ _ _ _ := ⟨false, fun _ => "Received-SPF: none\r\n".toList, fun _ => []⟩
  ingest _ _ _ := .ok 1

def sampleReady : Inbound :=
  (session sampleDomain sampleSigned (start false) (asBytes
    "MAIL FROM:<a@x.org>\r\nRCPT TO:<b@x.org>\r\nDATA\r\n".toList)).1

/-- `..`, `.x` and `é` -/
def sampleLines : List Octets := [[46, 46], [46, 120], [0xC3, 0xA9]]

/-- The session after DATA, lines that it lets through, and the letter `é` in ISO 8859-1. -/
theorem sample_sessions :
    sampleReady =
      ⟨⟨some "a@x.org".toList, ["b@x.org".toList], none⟩, true, [], false, false⟩ ∧
    ((bodyOf sampleLines).length ≤ maxMsgBytes ∧
      ∀ line ∈ sampleLines, (fromUtf8 line).isSome) ∧
    (bodyOf [[0xE9]]).length ≤ maxMsgBytes ∧
      (session sampleDomain sampleSigned sampleReady (sent [[0xE9]])).1.closed = true ∧
      ¬Transparent sampleDomain sampleSigned sampleReady [[0xE9]] := by
  decide +kernel

theorem sampleReady_ready : Ready sampleReady := by
  rw [sample_sessions.1]
  exact ⟨rfl, rfl, rfl⟩

theorem transparent_sample :
    Transparent sampleDomain sampleSigned sampleReady sampleLines := by
  obtain ⟨-, ⟨fits, decodes⟩, -⟩ := sample_sessions
  exact (transparent_iff sampleDomain sampleSigned sampleReady sampleReady_ready sampleLines
    (by decide) fits).mpr decodes

/-- The letter `é` in ISO 8859-1 ends the session. -/
theorem latin_not_transparent :
    (bodyOf [[0xE9]]).length ≤ maxMsgBytes ∧
      (session sampleDomain sampleSigned sampleReady (sent [[0xE9]])).1.closed = true ∧
      ¬Transparent sampleDomain sampleSigned sampleReady [[0xE9]] :=
  sample_sessions.2.2

end Inbound

end Expresso.Smtp
