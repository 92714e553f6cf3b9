import Expresso.Text.Utf8

/-! The WBXML codec of Exchange ActiveSync: a flat event stream, its encoder with
the current code page as only state, and the bounds-checked decoder. -/

namespace Expresso.Wbxml
open Text

namespace Global

def switchPage : UInt8 := 0x00
def endTag : UInt8 := 0x01
def strI : UInt8 := 0x03
def opaqueToken : UInt8 := 0xC3
def hasContent : UInt8 := 0x40
def tagMask : UInt8 := 0x3F

end Global

def wbxmlVersion : UInt8 := 0x03
def publicIdUnknown : UInt8 := 0x01
def charsetUtf8 : UInt8 := 0x6A

inductive Event where
  | startElement (page token : UInt8) (hasContent : Bool)
  | endElement
  | text (value : Str)
  | opaqueData (bytes : List UInt8)
  deriving DecidableEq

inductive DecodeError where
  | unexpectedEof
  | truncatedSwitchPage
  | unterminatedString
  | invalidUtf8
  | badMultiByte
  | opaqueOverrun
  | unsupportedToken (byte : UInt8)
  deriving DecidableEq

/-! ### Encoder -/

/-- The `while v != 0` loop of `write_mb_u32`. It fills the five-byte buffer from
its end, so after the first byte at most four slots are left. -/
def writeMbLoop : Nat → UInt32 → List UInt8 → List UInt8
  | 0, _, buf => buf
  | slots + 1, v, buf =>
      if v ≠ 0 then writeMbLoop slots (v >>> 7) (((v &&& 0x7F).toUInt8 ||| 0x80) :: buf)
      else buf

def writeMbU32 (v : UInt32) : List UInt8 :=
  writeMbLoop 4 (v >>> 7) [(v &&& 0x7F).toUInt8]

def tagByte (token : UInt8) (hasContent : Bool) : UInt8 :=
  if hasContent then (token &&& Global.tagMask) ||| Global.hasContent
  else token &&& Global.tagMask

def encodeBody (page : UInt8) : List Event → List UInt8
  | [] => []
  | .startElement p token hasContent :: events =>
      if p ≠ page then
        Global.switchPage :: p :: tagByte token hasContent :: encodeBody p events
      else tagByte token hasContent :: encodeBody page events
  | .endElement :: events => Global.endTag :: encodeBody page events
  | .text s :: events => Global.strI :: (asBytes s ++ 0x00 :: encodeBody page events)
  | .opaqueData bytes :: events =>
      Global.opaqueToken ::
        (writeMbU32 (UInt32.ofNat bytes.length) ++ (bytes ++ encodeBody page events))

def encode (events : List Event) : List UInt8 :=
  wbxmlVersion :: publicIdUnknown :: charsetUtf8 :: 0x00 :: encodeBody 0 events

/-! ### Decoder -/

/-- The unread part `buf[pos..]` of the input. -/
abbrev Cursor := List UInt8

namespace Cursor

def u8 : Cursor → Except DecodeError (UInt8 × Cursor)
  | [] => .error .unexpectedEof
  | b :: rest => .ok (b, rest)

def skip (cursor : Cursor) (n : Nat) : Except DecodeError Cursor :=
  if n > cursor.length then .error .unexpectedEof else .ok (cursor.drop n)

def take (cursor : Cursor) (n : Nat) : Except DecodeError (List UInt8 × Cursor) :=
  if n > cursor.length then .error .opaqueOverrun
  else .ok (List.take n cursor, List.drop n cursor)

/-- The bytes up to the first NUL, and what follows it. -/
def untilNul : Cursor → Option (List UInt8 × Cursor)
  | [] => none
  | b :: rest =>
      if b = 0 then some ([], rest)
      else (untilNul rest).map fun found => (b :: found.1, found.2)

def cstring (cursor : Cursor) : Except DecodeError (Str × Cursor) :=
  match untilNul cursor with
  | none => .error .unterminatedString
  | some (bytes, rest) =>
      match fromUtf8 bytes with
      | none => .error .invalidUtf8
      | some s => .ok (s, rest)

end Cursor

/-- `checked_shl(7)` on a `u32` never fails: it drops the bits shifted out. -/
def readMbLoop : Nat → UInt32 → Cursor → Except DecodeError (UInt32 × Cursor)
  | 0, _, _ => .error .badMultiByte
  | _ + 1, _, [] => .error .badMultiByte
  | left + 1, v, b :: rest =>
      let v := (v <<< 7) ||| (b &&& 0x7F).toUInt32
      if b &&& 0x80 = 0 then .ok (v, rest) else readMbLoop left v rest

def readMbU32 (cursor : Cursor) : Except DecodeError (UInt32 × Cursor) :=
  readMbLoop 5 0 cursor

/-- The token bytes the decoder names and rejects. -/
def unsupportedTokens : List UInt8 :=
  [0x02, 0x04, 0x40, 0x43, 0x44, 0x80, 0x81, 0x83, 0x84]

/-- One round of the decoder's loop: the token byte `b` has been read, `rest` has
not. The result is the new page, the event if the token makes one, and the cursor. -/
def decodeToken (page b : UInt8) (rest : Cursor) :
    Except DecodeError (UInt8 × Option Event × Cursor) :=
  if b = Global.switchPage then
    match Cursor.u8 rest with
    | .error _ => .error .truncatedSwitchPage
    | .ok (p, rest) => .ok (p, none, rest)
  else if b = Global.endTag then .ok (page, some .endElement, rest)
  else if b = Global.strI then do
    let (s, rest) ← Cursor.cstring rest
    .ok (page, some (.text s), rest)
  else if b = Global.opaqueToken then do
    let (len, rest) ← readMbU32 rest
    let (bytes, rest) ← Cursor.take rest len.toNat
    .ok (page, some (.opaqueData bytes), rest)
  else if b ∈ unsupportedTokens then .error (.unsupportedToken b)
  else
    .ok (page, some (.startElement page (b &&& Global.tagMask)
      (b &&& Global.hasContent ≠ 0)), rest)

/-- The `while let Some(b) = p.peek()` loop. Every round reads at least one byte,
so as many rounds as there are bytes are enough. -/
def decodeLoop : Nat → UInt8 → Cursor → Except DecodeError (List Event)
  | _, _, [] => .ok []
  | 0, _, _ :: _ => .error .unexpectedEof
  | rounds + 1, page, b :: rest => do
      let (page, event, rest) ← decodeToken page b rest
      let events ← decodeLoop rounds page rest
      .ok (event.toList ++ events)

example (page : UInt8) : decodeLoop 0 page [] = .ok [] := by simp only [decodeLoop]

def decodeBody (cursor : Cursor) : Except DecodeError (List Event) :=
  decodeLoop cursor.length 0 cursor

/-- The header is read for its length only. -/
def decodeHeader (bytes : List UInt8) : Except DecodeError Cursor := do
  let (_, p) ← Cursor.u8 bytes
  let (_, p) ← readMbU32 p
  let (_, p) ← readMbU32 p
  let (strtblLen, p) ← readMbU32 p
  Cursor.skip p strtblLen.toNat

def decode (bytes : List UInt8) : Except DecodeError (List Event) := do
  let body ← decodeHeader bytes
  decodeBody body

end Expresso.Wbxml
