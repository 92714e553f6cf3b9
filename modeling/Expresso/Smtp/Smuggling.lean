import Expresso.Smtp.Submission
import Expresso.Transition.Framing

/-! Whether a line that a client sends as a line of its message is read as a command. -/

namespace Expresso.Smtp
open Text Transition

/-- A reply with the code 354 asks for the lines of a message. -/
def asksForData (effects : List Effect) : Bool :=
  effects.any fun
    | .reply text => "354".toList.isPrefixOf text
    | .handed _ _ _ => false

/-! ### Replies that ask for nothing -/

@[simp] theorem asksForData_nil : asksForData [] = false := rfl

@[simp] theorem asksForData_said (text : String) :
    asksForData (said text) = "354".toList.isPrefixOf (text.toList ++ crlf) := by
  simp [asksForData, said]

@[simp] theorem asksForData_handed (sender : Option Str) (rcpts : List Str) (raw : Str)
    (effects : List Effect) :
    asksForData (.handed sender rcpts raw :: effects) = asksForData effects := by
  simp [asksForData]

@[simp] theorem asksForData_ehloReply (domain : Str) (capabilities : String) :
    asksForData (ehloReply domain capabilities) = false := rfl

theorem asksForData_statusLines (code : Char) (before after : String) (rcpts : List Str)
    (other : code ≠ '3') (starts : before.toList.head? = some code) :
    asksForData (Lmtp.statusLines before after rcpts) = false := by
  obtain ⟨rest, shape⟩ := List.head?_eq_some_iff.mp starts
  simp only [asksForData, Lmtp.statusLines, List.any_map, List.any_eq_false, Function.comp]
  intro rcpt _
  simp [shape, other.symm]

theorem asksForData_mailFrom (replies : Replies) (angle : Str → Str) (line : Str)
    (env : Envelope) (size : asksForData (said replies.sizeExceeded) = false)
    (sender : asksForData (said replies.sender) = false) :
    asksForData (mailFrom replies angle line env).2 = false := by
  simp only [mailFrom]
  split
  · exact size
  · exact sender

theorem asksForData_rcptTo (replies : Replies) (angle : Str → Str) (line : Str)
    (env : Envelope) (noSender : asksForData (said replies.noSender) = false)
    (tooMany : asksForData (said replies.tooMany) = false)
    (recipient : asksForData (said replies.recipient) = false) :
    asksForData (rcptTo replies angle line env).2 = false := by
  simp only [rcptTo]
  split
  · exact noSender
  · split
    · exact tooMany
    · exact recipient

theorem asksForData_dataCommand (replies : Replies) (env : Envelope)
    (bad : asksForData (said replies.badSequence) = false)
    (start : asksForData (said replies.start) = true) :
    asksForData (dataCommand replies env).2 = (dataCommand replies env).1 := by
  simp only [dataCommand]
  split
  · exact bad
  · exact start

/-! ### A session as a reader -/

section
variable {σ α : Type}

/-- The lines of a message come next. -/
def inData (waits closed : σ → Bool) (s : σ) : Bool := waits s && !closed s

def sessionReader (step : σ → Str × α → σ × List Effect) (waits closed : σ → Bool) :
    Reader σ (Str × α) where
  step s input := (step s input).1
  content := inData waits closed
  reads s := !closed s
  asks s input := asksForData (step s input).2
  ends input := input.1 = ['.']

/-- The session waits for the lines of a message if and only if it asks for them. -/
def Turns (waits : σ → Bool) (after : σ × List Effect) : Prop :=
  waits after.1 = asksForData after.2

theorem turns_quiet {waits : σ → Bool} {s : σ} {effects : List Effect} (idle : waits s = false)
    (silent : asksForData effects = false) : Turns waits (s, effects) := idle.trans silent.symm

/-- What the loops have in common. -/
structure Loops (step : σ → Str × α → σ × List Effect) (waits closed : σ → Bool) : Prop where
  finished : ∀ s input, closed s = true → step s input = (s, [])
  turns : ∀ s input, closed s = false → waits s = false → Turns (inData waits closed) (step s input)
  quiet : ∀ s input, closed s = false → waits s = true → asksForData (step s input).2 = false
  ends : ∀ s input, closed s = false → waits s = true → input.1 = ['.'] →
    waits (step s input).1 = false
  mark : ∀ s input, closed s = false → waits s = false → input.1 = ['.'] →
    asksForData (step s input).2 = false
  stays : ∀ s input, closed s = false → waits s = true → closed (step s input).1 = false

variable {step : σ → Str × α → σ × List Effect} {waits closed : σ → Bool}

theorem inData_true {s : σ} (here : inData waits closed s = true) :
    closed s = false ∧ waits s = true := by
  simpa [inData, and_comm] using here

theorem inData_of_idle {s : σ} (idle : waits s = false) : inData waits closed s = false := by
  simp [inData, idle]

theorem Loops.lawful (loops : Loops step waits closed) :
    (sessionReader step waits closed).Lawful where
  turns s input idle := by
    change inData waits closed s = false at idle
    cases finished : closed s with
    | true =>
      simp only [sessionReader, loops.finished s input finished, asksForData_nil]
      exact idle
    | false =>
      have off : waits s = false := by simpa [inData, finished] using idle
      exact loops.turns s input finished off
  quiet s input here :=
    have ⟨opened, on⟩ := inData_true here
    loops.quiet s input opened on
  finishes s input here dot :=
    have ⟨opened, on⟩ := inData_true here
    inData_of_idle (loops.ends s input opened on (of_decide_eq_true dot))
  mark s input idle dot := by
    change asksForData (step s input).2 = false
    change inData waits closed s = false at idle
    cases finished : closed s with
    | true => rw [loops.finished s input finished, asksForData_nil]
    | false =>
      have off : waits s = false := by simpa [inData, finished] using idle
      exact loops.mark s input finished off (of_decide_eq_true dot)
  goesOn s input interrupts := by
    obtain ⟨opened, on⟩ := inData_true interrupts.1
    change (!closed (step s input).1) = true
    rw [loops.stays s input opened on]
    rfl

end

/-! ### Port 25 -/

namespace Inbound

abbrev waiting : Inbound → Bool := inData dataMode closed

theorem command_turns (cfg : InboundConfig) {s : Inbound} (line : Str)
    (idle : s.dataMode = false) (opened : s.closed = false) :
    Turns waiting (command cfg s line) := by
  have still : waiting s = false := inData_of_idle idle
  unfold command
  refine iteInduction (fun _ => turns_quiet (inData_of_idle idle) rfl) fun _ => ?_
  refine iteInduction (fun _ => ?_) fun _ => ?_
  · exact iteInduction (fun _ => turns_quiet (inData_of_idle idle) rfl)
      fun _ => turns_quiet still rfl
  refine iteInduction (fun _ => ?_) fun _ => ?_
  · exact turns_quiet (inData_of_idle idle) (asksForData_mailFrom _ _ line s.env rfl rfl)
  refine iteInduction (fun _ => ?_) fun _ => ?_
  · exact turns_quiet (inData_of_idle idle) (asksForData_rcptTo _ _ line s.env rfl rfl rfl)
  refine iteInduction (fun _ => ?_) fun _ => ?_
  · have asks := asksForData_dataCommand inboundReplies s.env rfl rfl
    simp [Turns, inData, opened, inboundDataCommand, asks]
  refine iteInduction (fun _ => turns_quiet (inData_of_idle idle) rfl) fun _ => ?_
  refine iteInduction (fun _ => turns_quiet still rfl) fun _ => ?_
  refine iteInduction (fun _ => turns_quiet still rfl) fun _ => ?_
  exact iteInduction (fun _ => turns_quiet (inData_of_idle idle) rfl)
    fun _ => turns_quiet still rfl

theorem content_quiet (cfg : InboundConfig) (answers : InboundAnswers) (s : Inbound) (line : Str) :
    asksForData (content cfg answers s line).2 = false := by
  unfold content finalizeInboundMessage
  split
  · dsimp only
    split
    · rfl
    · rw [asksForData_handed]
      cases answers.ingest s.env.mailFrom s.env.rcpts _ with
      | error e => rfl
      | ok delivered =>
        simp only [ingestReply]
        split <;> rfl
  · split <;> rfl

theorem content_stays (cfg : InboundConfig) (answers : InboundAnswers) (s : Inbound)
    (line : Str) : (content cfg answers s line).1.closed = s.closed := by
  unfold content
  split
  · rfl
  · split <;> rfl

theorem loops (cfg : InboundConfig) : Loops (step cfg) dataMode closed where
  finished s input finished := by simp [step, finished]
  turns s input opened off := by
    simp only [step, opened, off, Bool.false_eq_true, if_false]
    exact command_turns cfg input.1 off opened
  quiet s input opened on := by
    simp only [step, opened, on, Bool.false_eq_true, if_false, if_true]
    exact content_quiet cfg input.2 s input.1
  ends s input opened on dot := by
    simp only [step, opened, on, content, dot, Bool.false_eq_true, if_false, if_true]
  mark s input opened off dot := by
    simp only [step, opened, off, dot, Bool.false_eq_true, if_false]
    rfl
  stays s input opened on := by
    simp only [step, opened, on, Bool.false_eq_true, if_false, if_true]
    exact (content_stays cfg input.2 s input.1).trans opened

end Inbound

/-! ### LMTP -/

namespace Lmtp

abbrev waiting : Lmtp → Bool := inData dataMode closed

theorem command_turns (domain : Str) {s : Lmtp} (line : Str) (idle : s.dataMode = false)
    (opened : s.closed = false) : Turns waiting (command domain s line) := by
  have still : waiting s = false := inData_of_idle idle
  unfold command
  refine iteInduction (fun _ => turns_quiet (inData_of_idle idle) rfl) fun _ => ?_
  refine iteInduction (fun _ => ?_) fun _ => ?_
  · exact turns_quiet (inData_of_idle idle) (asksForData_mailFrom _ _ line s.env rfl rfl)
  refine iteInduction (fun _ => ?_) fun _ => ?_
  · exact turns_quiet (inData_of_idle idle) (asksForData_rcptTo _ _ line s.env rfl rfl rfl)
  refine iteInduction (fun _ => ?_) fun _ => ?_
  · have asks := asksForData_dataCommand lmtpReplies s.env rfl rfl
    simp [Turns, inData, opened, handleLmtpDataCommand, asks]
  refine iteInduction (fun _ => turns_quiet (inData_of_idle idle) rfl) fun _ => ?_
  refine iteInduction (fun _ => turns_quiet still rfl) fun _ => ?_
  exact iteInduction (fun _ => turns_quiet (inData_of_idle idle) rfl)
    fun _ => turns_quiet still rfl

theorem content_quiet (ingest : Ingest) (s : Lmtp) (line : Str) :
    asksForData (content ingest s line).2 = false := by
  unfold content endOfData
  split
  · rw [asksForData_handed]
    cases ingest s.env.mailFrom s.env.rcpts s.dataBuf with
    | error e => exact asksForData_statusLines '4' _ _ _ (by decide) rfl
    | ok delivered => exact asksForData_statusLines '2' _ _ _ (by decide) rfl
  · split <;> rfl

theorem content_stays (ingest : Ingest) (s : Lmtp) (line : Str) :
    (content ingest s line).1.closed = s.closed := by
  unfold content
  split
  · rfl
  · split <;> rfl

theorem loops (domain : Str) : Loops (step domain) dataMode closed where
  finished s input finished := by simp [step, finished]
  turns s input opened off := by
    simp only [step, opened, off, Bool.false_eq_true, if_false]
    exact command_turns domain input.1 off opened
  quiet s input opened on := by
    simp only [step, opened, on, Bool.false_eq_true, if_false, if_true]
    exact content_quiet input.2 s input.1
  ends s input opened on dot := by
    simp only [step, opened, on, content, dot, Bool.false_eq_true, if_false, if_true]
  mark s input opened off dot := by
    simp only [step, opened, off, dot, Bool.false_eq_true, if_false]
    rfl
  stays s input opened on := by
    simp only [step, opened, on, Bool.false_eq_true, if_false, if_true]
    exact (content_stays input.2 s input.1).trans opened

end Lmtp

/-! ### Submission -/

namespace Submission

def waits (s : Submission) : Bool := s.awaits = .content

abbrev waiting : Submission → Bool := inData waits closed

theorem waiting_of_command {s : Submission} (idle : s.awaits = .command) : waiting s = false :=
  inData_of_idle (by simp [waits, idle])

theorem finishSmtpAuth_awaits (answers : SubmissionAnswers) (mech : String)
    (creds : Option (Str × Str)) {s : Submission} (idle : s.awaits = .command) :
    (finishSmtpAuth answers mech creds s).1.awaits = .command := by
  unfold finishSmtpAuth
  rcases creds with _ | ⟨user, pass⟩
  · exact idle
  · dsimp only
    split <;> exact idle

theorem finishSmtpAuth_turns (answers : SubmissionAnswers) (mech : String)
    (creds : Option (Str × Str)) {s : Submission} (idle : s.awaits = .command) :
    Turns waiting (finishSmtpAuth answers mech creds s) := by
  unfold finishSmtpAuth
  rcases creds with _ | ⟨user, pass⟩
  · apply turns_quiet (waiting_of_command idle)
    rw [asksForData_said, String.toList_append]
    rfl
  · exact iteInduction (fun _ => turns_quiet (waiting_of_command idle) rfl)
      fun _ => turns_quiet (waiting_of_command idle) rfl

theorem handleMailFrom_turns (line : Str) {s : Submission} (idle : s.awaits = .command) :
    Turns waiting (handleMailFrom s line) := by
  unfold handleMailFrom
  cases s.authedUser with
  | none => exact turns_quiet (waiting_of_command idle) rfl
  | some authed =>
    refine iteInduction (fun _ => turns_quiet (waiting_of_command idle) rfl) fun _ => ?_
    exact iteInduction (fun _ => turns_quiet (waiting_of_command idle) rfl)
      fun _ => turns_quiet (waiting_of_command idle) rfl

theorem handleRcptTo_turns (line : Str) {s : Submission} (idle : s.awaits = .command) :
    Turns waiting (handleRcptTo s line) := by
  unfold handleRcptTo
  refine iteInduction (fun _ => turns_quiet (waiting_of_command idle) rfl) fun _ => ?_
  exact turns_quiet (waiting_of_command idle) (asksForData_rcptTo _ _ line s.env rfl rfl rfl)

theorem handleDataCommand_asks (s : Submission) :
    asksForData (handleDataCommand s).2 = (handleDataCommand s).1 := by
  unfold handleDataCommand
  split
  · rfl
  · exact asksForData_dataCommand submissionReplies s.env rfl rfl

theorem command_turns (cfg : SubmissionConfig) (answers : SubmissionAnswers) {s : Submission}
    (line : Str) (idle : s.awaits = .command) (opened : s.closed = false) :
    Turns waiting (command cfg answers s line) := by
  have still := waiting_of_command idle
  unfold command
  refine iteInduction (fun _ => turns_quiet (waiting_of_command idle) rfl) fun _ => ?_
  refine iteInduction (fun _ => ?_) fun _ => ?_
  · unfold authPlain
    refine iteInduction (fun _ => turns_quiet rfl rfl) fun _ => ?_
    exact finishSmtpAuth_turns answers "PLAIN" _ idle
  refine iteInduction (fun _ => turns_quiet rfl rfl) fun _ => ?_
  refine iteInduction (fun _ => handleMailFrom_turns line idle) fun _ => ?_
  refine iteInduction (fun _ => handleRcptTo_turns line idle) fun _ => ?_
  refine iteInduction (fun _ => ?_) fun _ => ?_
  · have asks := handleDataCommand_asks s
    cases starts : (handleDataCommand s).1 with
    | true => simp [Turns, inData, waits, opened, asks, starts]
    | false => simp [Turns, inData, waits, asks, starts]
  refine iteInduction (fun _ => turns_quiet (waiting_of_command idle) rfl) fun _ => ?_
  refine iteInduction (fun _ => turns_quiet still rfl) fun _ => ?_
  exact iteInduction (fun _ => turns_quiet (waiting_of_command idle) rfl)
    fun _ => turns_quiet still rfl

theorem plainCommand_turns (cfg : SubmissionConfig) {s : Submission} (line : Str)
    (idle : s.awaits = .command) : Turns waiting (plainCommand cfg s line) := by
  have still := waiting_of_command idle
  unfold plainCommand
  refine iteInduction (fun _ => turns_quiet (waiting_of_command idle) rfl) fun _ => ?_
  refine iteInduction (fun _ => turns_quiet (waiting_of_command idle) rfl) fun _ => ?_
  refine iteInduction (fun _ => turns_quiet (waiting_of_command idle) rfl) fun _ => ?_
  refine iteInduction (fun _ => turns_quiet still rfl) fun _ => ?_
  exact iteInduction (fun _ => turns_quiet still rfl) fun _ => turns_quiet still rfl

theorem step_turns (cfg : SubmissionConfig) (s : Submission) (input : Str × SubmissionAnswers)
    (opened : s.closed = false) (off : s.waits = false) : Turns waiting (step cfg s input) := by
  rcases input with ⟨line, answers⟩
  simp only [step, opened, Bool.false_eq_true, if_false]
  cases awaits : s.awaits with
  | command =>
    exact iteInduction (fun _ => command_turns cfg answers line awaits opened)
      fun _ => plainCommand_turns cfg line awaits
  | content => simp [waits, awaits] at off
  | plainResponse => exact finishSmtpAuth_turns answers "PLAIN" _ rfl
  | loginUsername => exact turns_quiet rfl rfl
  | loginPassword userB64 => exact finishSmtpAuth_turns answers "LOGIN" _ rfl

theorem content_quiet (answers : SubmissionAnswers) (s : Submission) (line : Str) :
    asksForData (content answers s line).2 = false := by
  unfold content finalizeDataMessage
  split
  · dsimp only
    rw [asksForData_handed]
    cases answers.ingest s.env.mailFrom s.env.rcpts _ <;> rfl
  · split <;> rfl

theorem content_stays (answers : SubmissionAnswers) (s : Submission) (line : Str) :
    (content answers s line).1.closed = s.closed := by
  unfold content
  split
  · rfl
  · split <;> rfl

theorem loops (cfg : SubmissionConfig) : Loops (step cfg) waits closed where
  finished s input finished := by simp [step, finished]
  turns s input opened off := step_turns cfg s input opened off
  quiet s input opened on := by
    have awaits : s.awaits = .content := of_decide_eq_true on
    simp only [step, opened, awaits, Bool.false_eq_true, if_false]
    exact content_quiet input.2 s input.1
  ends s input opened on dot := by
    have awaits : s.awaits = .content := of_decide_eq_true on
    simp only [step, opened, awaits, content, dot, Bool.false_eq_true, if_false, if_true]
    rfl
  mark s input opened off dot := by
    have turns := step_turns cfg s input opened off
    rw [← turns]
    rcases input with ⟨line, answers⟩
    obtain rfl : line = ['.'] := dot
    simp only [step, opened, Bool.false_eq_true, if_false]
    cases awaits : s.awaits with
    | command =>
      have still := waiting_of_command awaits
      cases s.tls with
      | true => exact still
      | false => exact still
    | content => simp [waits, awaits] at off
    | plainResponse => exact waiting_of_command (finishSmtpAuth_awaits answers "PLAIN" _ rfl)
    | loginUsername => rfl
    | loginPassword userB64 => exact waiting_of_command (finishSmtpAuth_awaits answers "LOGIN" _ rfl)
  stays s input opened on := by
    have awaits : s.awaits = .content := of_decide_eq_true on
    simp only [step, opened, awaits, Bool.false_eq_true, if_false]
    exact (content_stays input.2 s input.1).trans opened

end Submission

/-! ### Lines that are too long for the message -/

theorem appendInboundDataLine_none {dataBuf line : Str} :
    appendInboundDataLine dataBuf line = none ↔
      maxMsgBytes < len dataBuf + len (unstuffed line) + 2 := by
  unfold appendInboundDataLine
  split <;> simp_all

theorem appendDataLine_none {dataBuf line : Str} :
    appendDataLine dataBuf line = none ↔
      maxMsgBytes < len dataBuf + len (unstuffed line) := by
  unfold appendDataLine
  split <;> simp_all

/-- A line of a message, and too long for it. -/
def Inbound.Oversteps {α : Type} (s : Inbound) (input : Str × α) : Prop :=
  s.dataMode = true ∧ s.closed = false ∧ input.1 ≠ ['.'] ∧
    maxMsgBytes < len s.dataBuf + len (unstuffed input.1) + 2

def Lmtp.Oversteps {α : Type} (s : Lmtp) (input : Str × α) : Prop :=
  s.dataMode = true ∧ s.closed = false ∧ input.1 ≠ ['.'] ∧
    maxMsgBytes < len s.dataBuf + len (unstuffed input.1) + 2

def Submission.Oversteps {α : Type} (s : Submission) (input : Str × α) : Prop :=
  s.awaits = .content ∧ s.closed = false ∧ input.1 ≠ ['.'] ∧
    maxMsgBytes < len s.dataBuf + len (unstuffed input.1)

theorem Loops.interrupts_iff {σ α : Type} {step : σ → Str × α → σ × List Effect}
    {waits closed : σ → Bool} (loops : Loops step waits closed) (s : σ) (input : Str × α) :
    (sessionReader step waits closed).Interrupts s input ↔
      waits s = true ∧ closed s = false ∧ input.1 ≠ ['.'] ∧ waits (step s input).1 = false := by
  constructor
  · intro ⟨here, goesOn, idle⟩
    obtain ⟨opened, on⟩ := inData_true here
    have stays := loops.stays s input opened on
    have off : (waits (step s input).1 && !closed (step s input).1) = false := idle
    rw [stays, Bool.not_false, Bool.and_true] at off
    exact ⟨on, opened, of_decide_eq_false goesOn, off⟩
  · intro ⟨on, opened, goesOn, off⟩
    refine ⟨?_, decide_eq_false goesOn, inData_of_idle off⟩
    change (waits s && !closed s) = true
    rw [on, opened]
    rfl

theorem inbound_interrupts_iff (cfg : InboundConfig) (s : Inbound)
    (input : Str × InboundAnswers) :
    (sessionReader (Inbound.step cfg) Inbound.dataMode Inbound.closed).Interrupts s input ↔
      s.Oversteps input := by
  rw [(Inbound.loops cfg).interrupts_iff]
  refine and_congr_right fun on => and_congr_right fun opened => and_congr_right fun goesOn => ?_
  rw [← appendInboundDataLine_none]
  simp only [Inbound.step, opened, on, Inbound.content, if_neg goesOn, Bool.false_eq_true, if_false,
    if_true]
  cases appendInboundDataLine s.dataBuf input.1 <;> simp

theorem lmtp_interrupts_iff (domain : Str) (s : Lmtp) (input : Str × Ingest) :
    (sessionReader (Lmtp.step domain) Lmtp.dataMode Lmtp.closed).Interrupts s input ↔
      s.Oversteps input := by
  rw [(Lmtp.loops domain).interrupts_iff]
  refine and_congr_right fun on => and_congr_right fun opened => and_congr_right fun goesOn => ?_
  rw [← appendInboundDataLine_none]
  simp only [Lmtp.step, opened, on, Lmtp.content, if_neg goesOn, Bool.false_eq_true, if_false,
    if_true]
  cases appendInboundDataLine s.dataBuf input.1 <;> simp

theorem submission_interrupts_iff (cfg : SubmissionConfig) (s : Submission)
    (input : Str × SubmissionAnswers) :
    (sessionReader (Submission.step cfg) Submission.waits Submission.closed).Interrupts s input ↔
      s.Oversteps input := by
  rw [(Submission.loops cfg).interrupts_iff, Submission.Oversteps]
  have on_iff : s.waits = true ↔ s.awaits = .content := decide_eq_true_iff
  rw [on_iff]
  refine and_congr_right fun on => and_congr_right fun opened => and_congr_right fun goesOn => ?_
  rw [← appendDataLine_none]
  simp only [Submission.step, opened, on, Submission.content, if_neg goesOn, Bool.false_eq_true,
    if_false]
  cases appendDataLine s.dataBuf input.1 <;> simp [Submission.waits]

/-! ### What is smuggled -/

section
variable {σ α : Type} (step : σ → Str × α → σ × List Effect) (waits closed : σ → Bool)

/-- No line that the client sends between the 354 reply and the lone dot is read as a command. -/
def NoSmuggling (s : σ) (inputs : List (Str × α)) : Prop :=
  let reader := sessionReader step waits closed
  EachStep reader.withSender (fun x input => ¬reader.Smuggled x input) (s, false) inputs

/-- No line but the dot follows one that oversteps the size of a message. -/
def Guarded (oversteps : σ → Str × α → Prop) (s : σ) (inputs : List (Str × α)) : Prop :=
  (sessionReader step waits closed).Guarded oversteps s inputs

end

theorem inbound_no_smuggling_iff (cfg : InboundConfig) (tls : Bool)
    (inputs : List (Str × InboundAnswers)) :
    NoSmuggling (Inbound.step cfg) Inbound.dataMode Inbound.closed (.start tls) inputs ↔
      Guarded (Inbound.step cfg) Inbound.dataMode Inbound.closed Inbound.Oversteps (.start tls)
        inputs := by
  calc
    _ ↔ _ := Reader.no_smuggling_iff (Inbound.loops cfg).lawful (.start tls) inputs
    _ ↔ _ := Reader.guarded_congr (inbound_interrupts_iff cfg) (.start tls) inputs

theorem submission_no_smuggling_iff (cfg : SubmissionConfig)
    (inputs : List (Str × SubmissionAnswers)) :
    NoSmuggling (Submission.step cfg) Submission.waits Submission.closed .start inputs ↔
      Guarded (Submission.step cfg) Submission.waits Submission.closed Submission.Oversteps .start
        inputs := by
  calc
    _ ↔ _ := Reader.no_smuggling_iff (Submission.loops cfg).lawful .start inputs
    _ ↔ _ := Reader.guarded_congr (submission_interrupts_iff cfg) .start inputs

theorem lmtp_no_smuggling_iff (domain : Str) (inputs : List (Str × Ingest)) :
    NoSmuggling (Lmtp.step domain) Lmtp.dataMode Lmtp.closed .start inputs ↔
      Guarded (Lmtp.step domain) Lmtp.dataMode Lmtp.closed Lmtp.Oversteps .start inputs := by
  calc
    _ ↔ _ := Reader.no_smuggling_iff (Lmtp.loops domain).lawful .start inputs
    _ ↔ _ := Reader.guarded_congr (lmtp_interrupts_iff domain) .start inputs

/-- In the sessions of the three listeners no line of a message is read as a command if and only
if none but the dot follows a line that makes the message too long. -/
theorem sessions_no_smuggling_iff (inbound : InboundConfig) (tls : Bool)
    (submission : SubmissionConfig) (domain : Str) (inputs : List (Str × InboundAnswers))
    (submitted : List (Str × SubmissionAnswers)) (handed : List (Str × Ingest)) :
    (NoSmuggling (Inbound.step inbound) Inbound.dataMode Inbound.closed (.start tls) inputs ↔
      Guarded (Inbound.step inbound) Inbound.dataMode Inbound.closed Inbound.Oversteps (.start tls)
        inputs) ∧
    (NoSmuggling (Submission.step submission) Submission.waits Submission.closed .start submitted ↔
      Guarded (Submission.step submission) Submission.waits Submission.closed Submission.Oversteps
        .start submitted) ∧
    (NoSmuggling (Lmtp.step domain) Lmtp.dataMode Lmtp.closed .start handed ↔
      Guarded (Lmtp.step domain) Lmtp.dataMode Lmtp.closed Lmtp.Oversteps .start handed) :=
  ⟨inbound_no_smuggling_iff inbound tls inputs, submission_no_smuggling_iff submission submitted,
    lmtp_no_smuggling_iff domain handed⟩

/-! ### A message that is too long -/

def sampleInbound : InboundConfig := ⟨"x.org".toList, false⟩

/-- No result of SPF, DKIM and DMARC, and one delivery. -/
def sampleInboundAnswers : InboundAnswers where
  verifyInbound _ _ _ _ := ⟨false, fun _ => [], fun _ => []⟩
  ingest _ _ _ := .ok 1

def inboundLine (text : String) : Str × InboundAnswers := (text.toList, sampleInboundAnswers)

/-- After the line comes another one of the same message. -/
def afterLine (line : Str) : List (Str × InboundAnswers) :=
  [inboundLine "MAIL FROM:<a@x.org>", inboundLine "RCPT TO:<b@x.org>", inboundLine "DATA",
    (line, sampleInboundAnswers), inboundLine "MAIL FROM:<c@x.org>"]

theorem afterLine_not_guarded {line : Str} (content : line ≠ ['.'])
    (long : maxMsgBytes < len (unstuffed line) + 2) :
    ¬Guarded (Inbound.step sampleInbound) Inbound.dataMode Inbound.closed Inbound.Oversteps
      (.start false) (afterLine line) := by
  intro guarded
  have started : ([inboundLine "MAIL FROM:<a@x.org>", inboundLine "RCPT TO:<b@x.org>",
      inboundLine "DATA"].foldl
        (sessionReader (Inbound.step sampleInbound) Inbound.dataMode Inbound.closed).step
        (.start false)) =
      ⟨⟨some "a@x.org".toList, ["b@x.org".toList], none⟩, true, [], false, false⟩ := by
    decide
  have last := guarded.2.2.2.1
  change Inbound.Oversteps (List.foldl _ _ [_, _, _]) (line, _) → _ at last
  rw [started] at last
  have dot := last ⟨rfl, rfl, content, by simpa [len] using long⟩
  have other : (sessionReader (Inbound.step sampleInbound) Inbound.dataMode Inbound.closed).ends
      (inboundLine "MAIL FROM:<c@x.org>") = false := rfl
  rw [other] at dot
  cases dot

theorem len_replicate (n : Nat) : len (List.replicate n 'x') = n := by
  have one : 'x'.utf8Size = 1 := rfl
  simp [len, List.map_replicate, one]

theorem unstuffed_replicate (n : Nat) :
    unstuffed (List.replicate n 'x') = List.replicate n 'x' := by
  cases n <;> rfl

theorem replicate_ne_dot (n : Nat) : List.replicate n 'x' ≠ ['.'] := by
  intro same
  have member : '.' ∈ List.replicate n 'x' := same ▸ List.mem_singleton_self '.'
  cases List.eq_of_mem_replicate member

/-- A line of 50 MiB, which with its end is too long. -/
theorem longLine_smuggled :
    ¬NoSmuggling (Inbound.step sampleInbound) Inbound.dataMode Inbound.closed (.start false)
      (afterLine (List.replicate maxMsgBytes 'x')) := by
  rw [inbound_no_smuggling_iff]
  apply afterLine_not_guarded (replicate_ne_dot maxMsgBytes)
  rw [unstuffed_replicate, len_replicate]
  exact Nat.lt_add_of_pos_right (by decide)

end Expresso.Smtp
