import Expresso.Smtp.Submission
import Expresso.Text.Trim

/-! Whose messages the submission port hands on. -/

namespace Expresso.Smtp.Submission
open Text

/-! ### What happens in a session -/

inductive Event where
  | authenticated (user : Str)
  | sender (address : Str)
  | recipient (address : Str)
  | message (mailFrom : Option Str) (rcpts : List Str)
  deriving DecidableEq

def Event.asRecipient : Event → Option Str
  | .recipient address => some address
  | _ => none

def success : List Effect := said "235 2.7.0 Authentication successful"
def accepted : List Effect := said "250 OK"

/-- What the line and the effects of a step tell. -/
def eventOf (s : Submission) (line : Str) (after : Submission × List Effect) : Option Event :=
  let upper := toAsciiUppercase line
  let command := s.tls && s.awaits = .command
  if after.2 = success then after.1.authedUser.map .authenticated
  else if after.2 = accepted then
    if command && startsWith "MAIL FROM:" upper then some (.sender (extractAngle (line.drop 10)))
    else if command && startsWith "RCPT TO:" upper then
      some (.recipient (extractAngle (line.drop 8)))
    else none
  else after.2.findSome? fun
    | .handed sender rcpts _ => some (.message sender rcpts)
    | .reply _ => none

def event (cfg : SubmissionConfig) (s : Submission) (input : Str × SubmissionAnswers) :
    Option Event := eventOf s input.1 (step cfg s input)

def events (cfg : SubmissionConfig) : Submission → List (Str × SubmissionAnswers) → List Event
  | _, [] => []
  | s, input :: rest => (event cfg s input).toList ++ events cfg (step cfg s input).1 rest

/-! ### What a step does -/

/-- The sender, the recipients and the login that a step leaves, and its event. -/
inductive Did (answers : SubmissionAnswers) (s s' : Submission) : Option Event → Prop where
  | nothing (authed : s'.authedUser = s.authedUser) (sender : s'.env.mailFrom = s.env.mailFrom)
      (rcpts : s'.env.rcpts = s.env.rcpts)
      (content : s'.awaits = .content →
        s.awaits = .content ∨ s.env.mailFrom.isSome = true ∧ s.env.rcpts ≠ []) :
      Did answers s s' none
  | reset (authed : s'.authedUser = s.authedUser) (sender : s'.env.mailFrom = none)
      (idle : s'.awaits ≠ .content) : Did answers s s' none
  | authenticated (user pass : Str) (authentic : answers.authenticate user pass = true)
      (authed : s'.authedUser = some user) (env : s'.env = s.env) (idle : s'.awaits ≠ .content) :
      Did answers s s' (some (.authenticated user))
  | sender (address user : Str) (known : s.authedUser = some user)
      (same : fromMatchesAuthed address user = true) (authed : s'.authedUser = s.authedUser)
      (sender : s'.env.mailFrom = some address) (rcpts : s'.env.rcpts = [])
      (idle : s'.awaits ≠ .content) : Did answers s s' (some (.sender address))
  | recipient (address : Str) (room : s.env.rcpts.length < maxRcpts)
      (authed : s'.authedUser = s.authedUser) (sender : s'.env.mailFrom = s.env.mailFrom)
      (rcpts : s'.env.rcpts = s.env.rcpts ++ [address]) (idle : s'.awaits ≠ .content) :
      Did answers s s' (some (.recipient address))
  | message (waited : s.awaits = .content) (authed : s'.authedUser = s.authedUser)
      (sender : s'.env.mailFrom = none) (idle : s'.awaits ≠ .content) :
      Did answers s s' (some (.message s.env.mailFrom s.env.rcpts))

section
variable {answers : SubmissionAnswers} {s s' : Submission} {line : Str}

theorem said_inj {first second : String} : said first = said second ↔ first = second := by
  constructor
  · intro same
    simp only [said, List.cons.injEq, Effect.reply.injEq, and_true] at same
    exact String.toList_inj.mp (List.append_cancel_right same)
  · exact congrArg said

/-- A reply of another kind tells nothing. -/
theorem eventOf_other {text : Str} (noSuccess : [.reply text] ≠ success)
    (notAccepted : [.reply text] ≠ accepted) : eventOf s line (s', [.reply text]) = none := by
  simp [eventOf, noSuccess, notAccepted]

theorem eventOf_said {text : String}
    (noSuccess : text ≠ "235 2.7.0 Authentication successful") (notAccepted : text ≠ "250 OK") :
    eventOf s line (s', said text) = none :=
  eventOf_other (fun same => noSuccess (said_inj.1 same)) fun same =>
    notAccepted (said_inj.1 same)

theorem eventOf_accepted : eventOf s line (s', accepted) =
    if (s.tls && s.awaits = .command) && startsWith "MAIL FROM:" (toAsciiUppercase line) then
      some (.sender (extractAngle (line.drop 10)))
    else if (s.tls && s.awaits = .command) && startsWith "RCPT TO:" (toAsciiUppercase line) then
      some (.recipient (extractAngle (line.drop 8)))
    else none := by
  have other : accepted ≠ success := by decide
  simp [eventOf, other]

theorem eventOf_sender (tls : s.tls = true) (idle : s.awaits = .command)
    (mail : startsWith "MAIL FROM:" (toAsciiUppercase line) = true) :
    eventOf s line (s', accepted) = some (.sender (extractAngle (line.drop 10))) := by
  rw [eventOf_accepted, tls, idle, mail]
  rfl

theorem eventOf_recipient (tls : s.tls = true) (idle : s.awaits = .command)
    (noMail : startsWith "MAIL FROM:" (toAsciiUppercase line) = false)
    (rcpt : startsWith "RCPT TO:" (toAsciiUppercase line) = true) :
    eventOf s line (s', accepted) = some (.recipient (extractAngle (line.drop 8))) := by
  rw [eventOf_accepted, tls, idle, noMail, rcpt]
  rfl

/-- `RSET` and `NOOP` are accepted as well. -/
theorem eventOf_other_command
    (noMail : startsWith "MAIL FROM:" (toAsciiUppercase line) = false)
    (noRcpt : startsWith "RCPT TO:" (toAsciiUppercase line) = false) :
    eventOf s line (s', accepted) = none := by
  rw [eventOf_accepted, noMail, noRcpt]
  simp

theorem eventOf_ehloReply (domain : Str) (capabilities : String) :
    eventOf s line (s', ehloReply domain capabilities) = none :=
  eventOf_other (by simp [success, said]) (by simp [accepted, said])

theorem eventOf_byeReply (domain : Str) :
    eventOf s line (s', byeReply "221 " domain) = none :=
  eventOf_other (by simp [success, said]) (by simp [accepted, said])

theorem eventOf_handed (sender : Option Str) (rcpts : List Str) (raw : Str)
    (effects : List Effect) :
    eventOf s line (s', .handed sender rcpts raw :: effects) = some (.message sender rcpts) := by
  simp [eventOf, success, accepted, said]

theorem Did.quiet {text : String} (noSuccess : text ≠ "235 2.7.0 Authentication successful")
    (notAccepted : text ≠ "250 OK") (authed : s'.authedUser = s.authedUser)
    (sender : s'.env.mailFrom = s.env.mailFrom) (rcpts : s'.env.rcpts = s.env.rcpts)
    (idle : s'.awaits ≠ .content) :
    Did answers s s' (eventOf s line (s', said text)) := by
  rw [eventOf_said noSuccess notAccepted]
  exact .nothing authed sender rcpts fun content => absurd content idle

theorem finishSmtpAuth_did (mech : String) (creds : Option (Str × Str)) {resumed : Submission}
    (authed : resumed.authedUser = s.authedUser) (env : resumed.env = s.env)
    (idle : resumed.awaits = .command) :
    let after := finishSmtpAuth answers mech creds resumed
    Did answers s after.1 (eventOf s line after) := by
  have command : resumed.awaits ≠ .content := by simp [idle]
  unfold finishSmtpAuth
  rcases creds with _ | ⟨user, pass⟩
  · have other : ∀ text : String, text.toList.head? ≠ some '5' →
        "501 5.5.2 Cannot decode AUTH " ++ mech ≠ text := by
      rintro _ head rfl
      simp at head
    exact .quiet (other _ (by decide)) (other _ (by decide)) authed (by rw [env]) (by rw [env])
      command
  · dsimp only
    split
    · next authentic =>
      have tells : eventOf s line ({ resumed with authedUser := some user }, success) =
          some (.authenticated user) := by simp [eventOf]
      change Did answers s _ (eventOf s line (_, success))
      rw [tells]
      exact .authenticated user pass authentic rfl env command
    · exact .quiet (by decide) (by decide) authed (by rw [env]) (by rw [env]) command

theorem handleMailFrom_did (tls : s.tls = true) (idle : s.awaits = .command)
    (mail : startsWith "MAIL FROM:" (toAsciiUppercase line) = true) :
    Did answers s (handleMailFrom s line).1 (eventOf s line (handleMailFrom s line)) := by
  have command : s.awaits ≠ .content := by simp [idle]
  unfold handleMailFrom
  cases known : s.authedUser with
  | none => exact .quiet (by decide) (by decide) rfl rfl rfl command
  | some authed =>
    dsimp only
    split
    · exact .quiet (by decide) (by decide) rfl rfl rfl command
    · split
      · next same =>
        change Did answers s _ (eventOf s line (_, accepted))
        rw [eventOf_sender tls idle mail]
        exact .sender _ authed known same known.symm rfl rfl command
      · exact .quiet (by decide) (by decide) rfl rfl rfl command

theorem handleRcptTo_did (tls : s.tls = true) (idle : s.awaits = .command)
    (noMail : startsWith "MAIL FROM:" (toAsciiUppercase line) = false)
    (rcpt : startsWith "RCPT TO:" (toAsciiUppercase line) = true) :
    Did answers s (handleRcptTo s line).1 (eventOf s line (handleRcptTo s line)) := by
  have command : s.awaits ≠ .content := by simp [idle]
  unfold handleRcptTo rcptTo
  split
  · exact .quiet (by decide) (by decide) rfl rfl rfl command
  · dsimp only
    split
    · exact .quiet (by decide) (by decide) rfl rfl rfl command
    · split
      · exact .quiet (by decide) (by decide) rfl rfl rfl command
      · next room =>
        change Did answers s _ (eventOf s line (_, accepted))
        rw [eventOf_recipient tls idle noMail rcpt]
        exact .recipient _ (Nat.lt_of_not_le room) rfl rfl rfl command

theorem handleDataCommand_did :
    let after : Submission × List Effect :=
      ({ s with awaits := if (handleDataCommand s).1 then .content else .command },
        (handleDataCommand s).2)
    Did answers s after.1 (eventOf s line after) := by
  unfold handleDataCommand dataCommand
  split
  · exact .quiet (by decide) (by decide) rfl rfl rfl (by simp)
  · split
    · exact .quiet (by decide) (by decide) rfl rfl rfl (by simp)
    · next given =>
      dsimp only
      rw [eventOf_said (by decide) (by decide)]
      refine .nothing rfl rfl rfl fun _ => .inr ?_
      rw [not_or] at given
      exact ⟨by simpa [Option.isSome_iff_ne_none] using given.1, by simpa using given.2⟩

theorem command_did (cfg : SubmissionConfig) (tls : s.tls = true) (idle : s.awaits = .command) :
    Did answers s (command cfg answers s line).1 (eventOf s line (command cfg answers s line)) := by
  have stays : s.awaits ≠ .content := by simp [idle]
  let P (after : Submission × List Effect) : Prop := Did answers s after.1 (eventOf s line after)
  change P (command cfg answers s line)
  unfold command
  refine iteInduction (fun _ => ?_) fun _ => ?_
  · simp only [P, eventOf_ehloReply]
    exact .nothing rfl rfl rfl fun content => absurd content stays
  refine iteInduction (fun _ => ?_) fun _ => ?_
  · unfold authPlain
    refine iteInduction (fun _ => ?_) fun _ => ?_
    · exact .quiet (by decide) (by decide) rfl rfl rfl (by simp)
    · exact finishSmtpAuth_did "PLAIN" _ rfl rfl idle
  refine iteInduction (fun _ => ?_) fun _ => ?_
  · exact .quiet (by decide) (by decide) rfl rfl rfl (by simp)
  refine iteInduction (fun mail => handleMailFrom_did tls idle mail) fun noMail => ?_
  refine iteInduction (fun rcpt => handleRcptTo_did tls idle (by simpa using noMail) rcpt)
    fun _ => ?_
  refine iteInduction (fun _ => handleDataCommand_did) fun _ => ?_
  refine iteInduction (fun reset => ?_) fun _ => ?_
  · change Did answers s _ (eventOf s line (_, accepted))
    rw [eventOf_other_command (by rw [reset]; rfl) (by rw [reset]; rfl)]
    exact .reset rfl rfl stays
  refine iteInduction (fun noop => ?_) fun _ => ?_
  · change Did answers s _ (eventOf s line (_, accepted))
    rw [eventOf_other_command (by rw [noop]; rfl) (by rw [noop]; rfl)]
    exact .nothing rfl rfl rfl fun content => absurd content stays
  refine iteInduction (fun _ => ?_) fun _ => ?_
  · simp only [P, eventOf_byeReply]
    exact .nothing rfl rfl rfl fun content => absurd content stays
  · exact .quiet (by decide) (by decide) rfl rfl rfl stays

theorem plainCommand_did (cfg : SubmissionConfig) (tls : s.tls = false)
    (idle : s.awaits = .command) :
    Did answers s (plainCommand cfg s line).1 (eventOf s line (plainCommand cfg s line)) := by
  have stays : s.awaits ≠ .content := by simp [idle]
  have same : ∀ s'' : Submission, s''.authedUser = s.authedUser →
      s''.env.mailFrom = s.env.mailFrom → s''.env.rcpts = s.env.rcpts →
      s''.awaits = s.awaits → Did answers s s'' none := fun s'' authed sender rcpts awaits =>
    .nothing authed sender rcpts fun content => absurd (awaits.symm.trans content) stays
  let P (after : Submission × List Effect) : Prop := Did answers s after.1 (eventOf s line after)
  change P (plainCommand cfg s line)
  unfold plainCommand
  refine iteInduction (fun _ => ?_) fun _ => ?_
  · simp only [P, eventOf_ehloReply]
    exact same _ rfl rfl rfl rfl
  refine iteInduction (fun _ => .quiet (by decide) (by decide) rfl rfl rfl stays) fun _ => ?_
  refine iteInduction (fun _ => ?_) fun _ => ?_
  · simp only [P, eventOf_byeReply]
    exact same _ rfl rfl rfl rfl
  refine iteInduction (fun _ => ?_) fun _ => ?_
  · have silent : eventOf s line (s, said "250 OK") = none := by
      change eventOf s line (s, accepted) = none
      rw [eventOf_accepted, tls]
      simp
    simp only [P, silent]
    exact same s rfl rfl rfl rfl
  refine iteInduction (fun _ => .quiet (by decide) (by decide) rfl rfl rfl stays) fun _ => ?_
  exact .quiet (by decide) (by decide) rfl rfl rfl stays

theorem content_did (waited : s.awaits = .content) :
    Did answers s (content answers s line).1 (eventOf s line (content answers s line)) := by
  unfold content
  split
  · unfold finalizeDataMessage
    dsimp only
    rw [eventOf_handed]
    exact .message waited rfl rfl (by simp)
  · split
    · rw [eventOf_said (by decide) (by decide)]
      exact .reset rfl rfl (by simp)
    · exact .nothing rfl rfl rfl fun _ => .inl waited

/-- What a step of the session can do. -/
theorem step_did (cfg : SubmissionConfig) (s : Submission) (input : Str × SubmissionAnswers) :
    Did input.2 s (step cfg s input).1 (event cfg s input) := by
  rcases input with ⟨line, answers⟩
  simp only [event, step]
  cases closed : s.closed with
  | true => exact .nothing rfl rfl rfl .inl
  | false =>
    simp only [Bool.false_eq_true, if_false]
    cases awaits : s.awaits with
    | command =>
      cases tls : s.tls with
      | true => exact command_did cfg tls awaits
      | false => exact plainCommand_did cfg tls awaits
    | content => exact content_did awaits
    | plainResponse => exact finishSmtpAuth_did "PLAIN" _ rfl rfl rfl
    | loginUsername => exact .quiet (by decide) (by decide) rfl rfl rfl (by simp)
    | loginPassword userB64 => exact finishSmtpAuth_did "LOGIN" _ rfl rfl rfl

end

/-! ### Senders -/

/-- The sender was accepted after a login with its address, and these are the recipients that
were accepted since. -/
structure Opened (same : Str → Str → Prop) (past : List Event) (address : Str)
    (rcpts : List Str) : Prop where
  since : ∃ earlier later user, past = earlier ++ .sender address :: later ∧
    (∀ other, .sender other ∉ later) ∧ rcpts = later.filterMap Event.asRecipient ∧
    .authenticated user ∈ earlier ∧ '@' ∈ user ∧ same address user
  few : rcpts.length ≤ maxRcpts

/-- What holds of the messages that are handed on after some events. -/
def Authentic (same : Str → Str → Prop) (past : List Event) (mailFrom : Option Str)
    (rcpts : List Str) : Prop :=
  ∃ address, mailFrom = some address ∧ Opened same past address rcpts ∧ rcpts ≠ []

/-- The addresses, without the blanks around them, are the same but for the case of letters. -/
def SameTrimmed (address user : Str) : Prop := eqIgnoreAsciiCase (trim address) (trim user) = true

theorem fromMatchesAuthed_same {address user : Str}
    (matches_ : fromMatchesAuthed address user = true) :
    '@' ∈ user ∧ SameTrimmed address user := by
  simp only [fromMatchesAuthed] at matches_
  split at matches_
  · cases matches_
  · split at matches_
    · cases matches_
    · next full => exact ⟨trim_subset user (not_not.mp full), matches_⟩

/-- What the state of a session has of the events so far. -/
structure Vouched (past : List Event) (s : Submission) : Prop where
  authed : ∀ user, s.authedUser = some user → .authenticated user ∈ past
  sender : ∀ address, s.env.mailFrom = some address → Opened SameTrimmed past address s.env.rcpts
  content : s.awaits = .content → s.env.mailFrom.isSome = true ∧ s.env.rcpts ≠ []

theorem vouched_start : Vouched [] start where
  authed _ none := by cases none
  sender _ none := by cases none
  content waits := by cases waits

theorem Opened.later {past : List Event} {address : Str} {rcpts more : List Str} {next : Event}
    (opened : Opened SameTrimmed past address rcpts) (other : ∀ a, next ≠ .sender a)
    (adds : more = rcpts ++ next.asRecipient.toList) (few : more.length ≤ maxRcpts) :
    Opened SameTrimmed (past ++ [next]) address more := by
  obtain ⟨earlier, later, user, rfl, noSender, rfl, login, full, same⟩ := opened.since
  refine ⟨⟨earlier, later ++ [next], user, by simp, ?_, ?_, login, full, same⟩, few⟩
  · intro a member
    obtain before | last := List.mem_append.mp member
    · exact noSender a before
    · exact other a (List.mem_singleton.mp last).symm
  · rw [adds, List.filterMap_append, List.filterMap_cons, List.filterMap_nil]
    cases next.asRecipient <;> rfl

/-- A step keeps what is vouched for, and hands on nothing else. -/
theorem Vouched.step {past : List Event} {answers : SubmissionAnswers} {s s' : Submission}
    {next : Option Event} (vouched : Vouched past s) (did : Did answers s s' next) :
    Vouched (past ++ next.toList) s' ∧
      ∀ sender rcpts, next = some (.message sender rcpts) →
        Authentic SameTrimmed past sender rcpts := by
  cases did with
  | nothing authed sender rcpts content =>
    simp only [Option.toList_none, List.append_nil, reduceCtorEq, false_implies, implies_true,
      and_true]
    constructor
    · rw [authed]
      exact vouched.authed
    · rw [sender, rcpts]
      exact vouched.sender
    · rw [sender, rcpts]
      exact fun waits => (content waits).elim vouched.content id
  | reset authed sender idle =>
    simp only [Option.toList_none, List.append_nil, reduceCtorEq, false_implies, implies_true,
      and_true]
    constructor
    · rw [authed]
      exact vouched.authed
    · rw [sender]
      exact fun address none => by cases none
    · exact fun waits => absurd waits idle
  | authenticated user pass authentic authed env idle =>
    refine ⟨⟨?_, ?_, fun waits => absurd waits idle⟩, fun _ _ other => by cases other⟩
    · intro user' known
      rw [authed, Option.some.injEq] at known
      simp [known]
    · intro address sender
      rw [env] at sender ⊢
      have opened := vouched.sender address sender
      exact opened.later (by simp) (by simp [Event.asRecipient]) opened.few
  | sender address user known same authed sender rcpts idle =>
    refine ⟨⟨?_, ?_, fun waits => absurd waits idle⟩, fun _ _ other => by cases other⟩
    · intro user' login
      rw [authed] at login
      exact List.mem_append_left _ (vouched.authed user' login)
    · intro address' accepted
      rw [sender, Option.some.injEq] at accepted
      subst accepted
      obtain ⟨full, same⟩ := fromMatchesAuthed_same same
      rw [rcpts]
      exact ⟨⟨past, [], user, rfl, by simp, rfl, vouched.authed user known, full, same⟩,
        Nat.zero_le _⟩
  | recipient address room authed sender rcpts idle =>
    refine ⟨⟨?_, ?_, fun waits => absurd waits idle⟩, fun _ _ other => by cases other⟩
    · intro user login
      rw [authed] at login
      exact List.mem_append_left _ (vouched.authed user login)
    · intro address' accepted
      rw [sender] at accepted
      rw [rcpts]
      refine (vouched.sender address' accepted).later (by simp) rfl ?_
      rw [List.length_append]
      exact room
  | message waited authed sender idle =>
    refine ⟨⟨?_, ?_, fun waits => absurd waits idle⟩, ?_⟩
    · intro user login
      rw [authed] at login
      exact List.mem_append_left _ (vouched.authed user login)
    · rw [sender]
      exact fun address none => by cases none
    · intro sender' rcpts' handed
      simp only [Option.some.injEq, Event.message.injEq] at handed
      obtain ⟨rfl, rfl⟩ := handed
      obtain ⟨given, some_⟩ := vouched.content waited
      obtain ⟨address, accepted⟩ := Option.isSome_iff_exists.mp given
      exact ⟨address, accepted, vouched.sender address accepted, some_⟩

/-- Every message of a run is authentic after the events before it. -/
theorem events_authentic {cfg : SubmissionConfig} {past : List Event} {s : Submission}
    (vouched : Vouched past s) {inputs : List (Str × SubmissionAnswers)}
    {before after : List Event} {sender : Option Str} {rcpts : List Str}
    (split : events cfg s inputs = before ++ .message sender rcpts :: after) :
    Authentic SameTrimmed (past ++ before) sender rcpts := by
  induction inputs generalizing past s before with
  | nil => simp [events] at split
  | cons input rest ih =>
    obtain ⟨kept, handed⟩ := vouched.step (step_did cfg s input)
    rw [events] at split
    cases next : event cfg s input with
    | none =>
      rw [next] at split kept
      simp only [Option.toList_none, List.nil_append, List.append_nil] at split kept
      exact ih kept split
    | some e =>
      rw [next] at split kept handed
      simp only [Option.toList_some, List.singleton_append] at split kept
      cases before with
      | nil =>
        obtain ⟨rfl, -⟩ := List.cons.inj split
        rw [List.append_nil]
        exact handed sender rcpts rfl
      | cons first before =>
        obtain ⟨rfl, tail⟩ := List.cons.inj split
        rw [← List.singleton_append, ← List.append_assoc]
        exact ih kept tail

theorem event_authenticated {cfg : SubmissionConfig} {s : Submission}
    {input : Str × SubmissionAnswers} {user : Str}
    (tells : event cfg s input = some (.authenticated user)) :
    ∃ pass, input.2.authenticate user pass = true := by
  have did := step_did cfg s input
  rw [tells] at did
  cases did with
  | authenticated _ pass authentic => exact ⟨pass, authentic⟩

theorem mem_events_authenticated {cfg : SubmissionConfig} {s : Submission}
    {inputs : List (Str × SubmissionAnswers)} {user : Str}
    (member : .authenticated user ∈ events cfg s inputs) :
    ∃ input ∈ inputs, ∃ pass, input.2.authenticate user pass = true := by
  induction inputs generalizing s with
  | nil => cases member
  | cons input rest ih =>
    rw [events, List.mem_append, Option.mem_toList] at member
    obtain here | later := member
    · exact ⟨input, List.mem_cons_self, event_authenticated here⟩
    · obtain ⟨other, among, accepts⟩ := ih later
      exact ⟨other, List.mem_cons_of_mem _ among, accepts⟩

/-- Each message that a session hands on has the sender of its last `MAIL FROM`, which is up to
blanks around it the address of an earlier login, and the recipients given since. -/
theorem submission_authentic (cfg : SubmissionConfig) (inputs : List (Str × SubmissionAnswers))
    (before after : List Event) (sender : Option Str) (rcpts : List Str)
    (split : events cfg start inputs = before ++ .message sender rcpts :: after) :
    Authentic SameTrimmed before sender rcpts ∧
      ∀ user, .authenticated user ∈ before →
        ∃ input ∈ inputs, ∃ pass, input.2.authenticate user pass = true := by
  constructor
  · exact events_authentic vouched_start split
  · intro user member
    have present : .authenticated user ∈ events cfg start inputs := by
      rw [split]
      exact List.mem_append_left _ member
    exact mem_events_authenticated present

/-- `"\0a@x.org\0p"` in base64 -/
def sampleConfig : SubmissionConfig where
  domain := "x.org".toList
  decode64 s :=
    if s = "AGFAeC5vcmcAcA==".toList then some [0, 97, 64, 120, 46, 111, 114, 103, 0, 112] else none

def sampleAnswers : SubmissionAnswers where
  authenticate user pass := user = "a@x.org".toList && pass = "p".toList
  dkim := none
  ingest _ _ _ := .ok 1

/-- A session that sends one message from an address. -/
def sessionFrom (sender : String) : List (Str × SubmissionAnswers) :=
  ["STARTTLS".toList, "AUTH PLAIN AGFAeC5vcmcAcA==".toList,
    "MAIL FROM:<".toList ++ sender.toList ++ ['>'], "RCPT TO:<b@x.org>".toList, "DATA".toList,
    ['.']].map fun line => (line, sampleAnswers)

def eventsFrom (sender : String) : List Event :=
  [.authenticated "a@x.org".toList, .sender sender.toList, .recipient "b@x.org".toList]

theorem submission_authentic_sample :
    Authentic SameTrimmed (eventsFrom "A@X.org") (some "A@X.org".toList) ["b@x.org".toList] :=
  (submission_authentic sampleConfig (sessionFrom "A@X.org") (eventsFrom "A@X.org") []
    (some "A@X.org".toList) ["b@x.org".toList] (by decide +kernel)).1

/-- The blanks inside the angle brackets stay in the sender. -/
theorem blanks_not_authentic :
    events sampleConfig start (sessionFrom " a@x.org ") =
        eventsFrom " a@x.org " ++ [.message (some " a@x.org ".toList) ["b@x.org".toList]] ∧
      ¬Authentic (fun address user => eqIgnoreAsciiCase address user = true)
        (eventsFrom " a@x.org ") (some " a@x.org ".toList) ["b@x.org".toList] := by
  constructor
  · decide +kernel
  · rintro ⟨address, known, ⟨⟨earlier, later, user, past, -, -, login, -, same⟩, -⟩, -⟩
    obtain rfl := Option.some.inj known
    have member : .authenticated user ∈ eventsFrom " a@x.org " := by
      rw [past]
      exact List.mem_append_left _ login
    have user_eq : user = "a@x.org".toList := by simpa [eventsFrom] using member
    rw [user_eq] at same
    revert same
    decide +kernel

end Expresso.Smtp.Submission
