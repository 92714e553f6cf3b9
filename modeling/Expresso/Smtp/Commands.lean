import Expresso.Text.Str

/-! What the loops of the three listeners share: the arguments of their commands, the envelope
and the lines of a message. -/

namespace Expresso.Smtp
open Text

def maxMsgBytes : Nat := 50 * 1024 * 1024
def maxRcpts : Nat := 100

def crlf : Str := ['\r', '\n']

/-- What a session does with a line: it writes a reply, and it hands a message to
`ingest::process`. -/
inductive Effect where
  | reply (text : Str)
  | handed (mailFrom : Option Str) (rcpts : List Str) (raw : Str)
  deriving DecidableEq

/-! ### Arguments -/

/-- `split_whitespace().next()` -/
def firstWord (s : Str) : Option Str :=
  match (s.dropWhile isWhitespace).takeWhile fun c => !isWhitespace c with
  | [] => none
  | word => some word

/-- What stands between `<` and the `>` that ends it. -/
def insideAngles (s : Str) : Str :=
  if s.head? = some '<' ∧ s.getLast? = some '>' then s.tail.dropLast else s

/-- `extract_angle` of the port 25 and submission sessions. -/
def extractAngle (s : Str) : Str :=
  let addrPart := trim s
  let addrPart :=
    if '>' ∈ addrPart then addrPart.takeWhile (· ≠ '>') ++ ['>']
    else (firstWord addrPart).getD addrPart
  insideAngles (trim addrPart)

/-- What follows the first place at which a text stands. -/
def afterFirst (text : Str) : Str → Option Str
  | [] => if text.isEmpty then some [] else none
  | c :: rest =>
      if text.isPrefixOf (c :: rest) then some ((c :: rest).drop text.length)
      else afterFirst text rest

/-- The positions in the upper-cased text are those in the text itself. -/
def extractSizeParam (s : Str) : Option Nat := do
  let upper ← afterFirst "SIZE=".toList (toAsciiUppercase s)
  let after ← firstWord (s.drop (s.length - upper.length))
  parseUnsigned (2 ^ 64 - 1) after

def tooLarge (declared : Option Nat) : Bool := declared.any (maxMsgBytes < ·)

/-! ### Envelopes -/

structure Envelope where
  mailFrom : Option Str := none
  rcpts : List Str := []
  helo : Option Str := none
  deriving DecidableEq

/-- The replies to the commands of an envelope. -/
structure Replies where
  sizeExceeded : String
  sender : String
  noSender : String
  tooMany : String
  recipient : String
  badSequence : String
  start : String

def said (text : String) : List Effect := [.reply (text.toList ++ crlf)]

section
variable (replies : Replies)

def mailFrom (angle : Str → Str) (line : Str) (env : Envelope) : Envelope × List Effect :=
  let rest := line.drop 10
  if tooLarge (extractSizeParam rest) then (env, said replies.sizeExceeded)
  else ({ env with mailFrom := some (angle rest), rcpts := [] }, said replies.sender)

def rcptTo (angle : Str → Str) (line : Str) (env : Envelope) : Envelope × List Effect :=
  if env.mailFrom.isNone then (env, said replies.noSender)
  else if maxRcpts ≤ env.rcpts.length then (env, said replies.tooMany)
  else ({ env with rcpts := env.rcpts ++ [angle (line.drop 8)] }, said replies.recipient)

/-- Whether the lines of a message come next. -/
def dataCommand (env : Envelope) : Bool × List Effect :=
  if env.mailFrom.isNone ∨ env.rcpts.isEmpty then (false, said replies.badSequence)
  else (true, said replies.start)

end

/-! ### The lines of a message -/

/-- A line without the dot that a client puts before one. -/
def unstuffed (line : Str) : Str := (stripPrefix ['.'] line).getD line

/-- `append_inbound_data_line`, which LMTP repeats: the buffer, unless it would be too long. -/
def appendInboundDataLine (dataBuf line : Str) : Option Str :=
  if maxMsgBytes < len dataBuf + len (unstuffed line) + 2 then none
  else some (dataBuf ++ unstuffed line ++ crlf)

/-- `append_data_line` of the submission session, which does not count the line's end. -/
def appendDataLine (dataBuf line : Str) : Option Str :=
  if maxMsgBytes < len dataBuf + len (unstuffed line) then none
  else some (dataBuf ++ unstuffed line ++ crlf)

/-! ### Facts about commands -/

section
variable {replies : Replies} {angle : Str → Str} {line : Str} {env : Envelope}

theorem mailFrom_cases :
    (mailFrom replies angle line env).1 = env ∨
      (mailFrom replies angle line env).1 =
        { env with mailFrom := some (angle (line.drop 10)), rcpts := [] } := by
  simp only [mailFrom]
  split
  · exact .inl rfl
  · exact .inr rfl

theorem dataCommand_true :
    (dataCommand replies env).1 = true ↔ env.mailFrom.isSome = true ∧ env.rcpts ≠ [] := by
  unfold dataCommand
  cases env.mailFrom <;> cases env.rcpts <;> simp

end

end Expresso.Smtp
