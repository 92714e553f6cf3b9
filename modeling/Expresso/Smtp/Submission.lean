import Expresso.Smtp.Sessions

/-! The session of the submission port: the greeting before TLS, and after it the commands of a
client that authenticates. -/

namespace Expresso.Smtp
open Text

/-- What a session is told while it handles a line. -/
structure SubmissionAnswers where
  authenticate : (user pass : Str) → Bool
  /-- the DKIM signer, if one is configured, and the signed message, unless it fails -/
  dkim : Option (Str → Option Str)
  ingest : Ingest

structure SubmissionConfig where
  domain : Str
  /-- `base64` with the standard alphabet -/
  decode64 : Str → Option (List UInt8)

/-- What the next line is. -/
inductive Awaits where
  | command
  | content
  | plainResponse
  | loginUsername
  | loginPassword (userB64 : Str)
  deriving DecidableEq

structure Submission where
  env : Envelope
  authedUser : Option Str
  awaits : Awaits
  dataBuf : Str
  tls : Bool
  closed : Bool
  deriving DecidableEq

def submissionReplies : Replies where
  sizeExceeded := "552 5.3.4 Message size exceeds fixed maximum"
  sender := "250 OK"
  noSender := "503 Bad sequence: MAIL first"
  tooMany := "452 Too many recipients"
  recipient := "250 OK"
  badSequence := "503 Bad sequence"
  start := "354 Start input; end with <CRLF>.<CRLF>"

namespace Submission

def start : Submission := ⟨{}, none, .command, [], false, false⟩

/-! ### Credentials -/

/-- `"\0user\0pass"` in base64 -/
def decodePlain (decode64 : Str → Option (List UInt8)) (b64 : Str) : Option (Str × Str) := do
  let decoded ← decode64 (trim b64)
  let s ← fromUtf8 decoded
  let (_, rest) ← splitOnce '\x00' s
  let (user, pass) ← splitOnce '\x00' rest
  if user.isEmpty || pass.isEmpty then none else some (user, pass)

def decodeText (decode64 : Str → Option (List UInt8)) (b64 : Str) : Option Str :=
  (decode64 (trim b64)).bind fromUtf8

def eqIgnoreAsciiCase (s t : Str) : Bool := toAsciiLowercase s = toAsciiLowercase t

def fromMatchesAuthed (mailFrom authed : Str) : Bool :=
  let f := trim mailFrom
  let a := trim authed
  if f.isEmpty || a.isEmpty then false
  else if '@' ∉ a then false
  else eqIgnoreAsciiCase f a

def finishSmtpAuth (answers : SubmissionAnswers) (mech : String) (creds : Option (Str × Str))
    (s : Submission) : Submission × List Effect :=
  match creds with
  | none => (s, said ("501 5.5.2 Cannot decode AUTH " ++ mech))
  | some (user, pass) =>
      if answers.authenticate user pass then
        ({ s with authedUser := some user }, said "235 2.7.0 Authentication successful")
      else (s, said "535 5.7.8 Authentication credentials invalid")

/-! ### Commands -/

def handleMailFrom (s : Submission) (line : Str) : Submission × List Effect :=
  match s.authedUser with
  | none => (s, said "530 5.7.0 Authentication required")
  | some authed =>
      let rest := line.drop 10
      let sender := extractAngle rest
      if tooLarge (extractSizeParam rest) then (s, said submissionReplies.sizeExceeded)
      else if fromMatchesAuthed sender authed then
        ({ s with env := { s.env with mailFrom := some sender, rcpts := [] } },
          said submissionReplies.sender)
      else (s, said "550 5.7.1 MAIL FROM does not match authenticated user")

def handleRcptTo (s : Submission) (line : Str) : Submission × List Effect :=
  if s.authedUser.isNone then (s, said "530 5.7.0 Authentication required")
  else
    let (env, effects) := rcptTo submissionReplies extractAngle line s.env
    ({ s with env }, effects)

def handleDataCommand (s : Submission) : Bool × List Effect :=
  if s.authedUser.isNone then (false, said "530 5.7.0 Authentication required")
  else dataCommand submissionReplies s.env

/-- The envelope after a message or `RSET`: the greeting stays. -/
def resetEnvelope (env : Envelope) : Envelope := { helo := env.helo }

def finalizeDataMessage (answers : SubmissionAnswers) (env : Envelope) (dataBuf : Str) :
    List Effect :=
  let signed := match answers.dkim with
    | some sign => (sign dataBuf).getD dataBuf
    | none => dataBuf
  .handed env.mailFrom env.rcpts signed ::
    match answers.ingest env.mailFrom env.rcpts signed with
    | .ok n => [.reply ("250 OK queued (".toList ++ display n ++ " delivered locally)".toList ++
        crlf)]
    | .error () => said "451 Requested action aborted: local error"

def authPlain (cfg : SubmissionConfig) (answers : SubmissionAnswers) (s : Submission)
    (line : Str) : Submission × List Effect :=
  let b64 := trim (line.drop 10)
  if b64.isEmpty then ({ s with awaits := .plainResponse }, said "334 ")
  else finishSmtpAuth answers "PLAIN" (decodePlain cfg.decode64 b64) s

def command (cfg : SubmissionConfig) (answers : SubmissionAnswers) (s : Submission)
    (line : Str) : Submission × List Effect :=
  let upper := toAsciiUppercase line
  if startsWith "EHLO" upper || startsWith "HELO" upper then
    ({ s with env := { s.env with helo := some (trim (line.drop 4)) } },
      ehloReply cfg.domain
        "250-8BITMIME\r\n250-PIPELINING\r\n250-AUTH PLAIN LOGIN\r\n250 OK")
  else if startsWith "AUTH PLAIN" upper then authPlain cfg answers s line
  else if startsWith "AUTH LOGIN" upper then
    ({ s with awaits := .loginUsername }, said "334 VXNlcm5hbWU6")
  else if startsWith "MAIL FROM:" upper then handleMailFrom s line
  else if startsWith "RCPT TO:" upper then handleRcptTo s line
  else if upper = "DATA".toList then
    let (dataMode, effects) := handleDataCommand s
    ({ s with awaits := if dataMode then .content else .command }, effects)
  else if upper = "RSET".toList then ({ s with env := resetEnvelope s.env }, said "250 OK")
  else if upper = "NOOP".toList then (s, said "250 OK")
  else if upper = "QUIT".toList then ({ s with closed := true }, byeReply "221 " cfg.domain)
  else (s, said "500 Command not recognized")

/-- The commands before TLS. -/
def plainCommand (cfg : SubmissionConfig) (s : Submission) (line : Str) :
    Submission × List Effect :=
  let upper := toAsciiUppercase line
  if startsWith "EHLO" upper || startsWith "HELO" upper then
    ({ s with env := { s.env with helo := some (trim (line.drop 4)) } },
      ehloReply cfg.domain "250-8BITMIME\r\n250 STARTTLS")
  else if upper = "STARTTLS".toList then ({ s with tls := true }, said "220 Ready to start TLS")
  else if upper = "QUIT".toList then ({ s with closed := true }, byeReply "221 " cfg.domain)
  else if upper = "NOOP".toList then (s, said "250 OK")
  else if startsWith "AUTH" upper || startsWith "MAIL" upper || startsWith "RCPT" upper ||
      upper = "DATA".toList then
    (s, said "530 Must issue a STARTTLS command first")
  else (s, said "500 Command not recognized")

def content (answers : SubmissionAnswers) (s : Submission) (line : Str) :
    Submission × List Effect :=
  if line = ['.'] then
    ({ s with awaits := .command, dataBuf := [], env := resetEnvelope s.env },
      finalizeDataMessage answers s.env s.dataBuf)
  else match appendDataLine s.dataBuf line with
    | none =>
        ({ s with awaits := .command, dataBuf := [], env := resetEnvelope s.env },
          said "552 Message too large")
    | some dataBuf => ({ s with dataBuf }, [])

def step (cfg : SubmissionConfig) (s : Submission) (input : Str × SubmissionAnswers) :
    Submission × List Effect :=
  let (line, answers) := input
  let resumed := { s with awaits := .command }
  if s.closed then (s, [])
  else match s.awaits with
    | .command => if s.tls then command cfg answers s line else plainCommand cfg s line
    | .content => content answers s line
    | .plainResponse =>
        finishSmtpAuth answers "PLAIN" (decodePlain cfg.decode64 line) resumed
    | .loginUsername => ({ s with awaits := .loginPassword line }, said "334 UGFzc3dvcmQ6")
    | .loginPassword userB64 =>
        let user := decodeText cfg.decode64 userB64
        let pass := decodeText cfg.decode64 line
        finishSmtpAuth answers "LOGIN" (user.bind fun u => pass.map fun p => (u, p)) resumed

end Submission

end Expresso.Smtp
