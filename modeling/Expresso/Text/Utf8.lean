import Mathlib

/-! Texts are lists of Unicode scalar values. Their byte view is the UTF-8
encoding, and `fromUtf8` accepts exactly the byte strings that are one. -/

namespace Expresso.Text

abbrev Str := List Char

instance : LawfulBEq Str := inferInstance

def asBytes (text : Str) : List UInt8 :=
  text.flatMap String.utf8EncodeChar

def fromUtf8 (bytes : List UInt8) : Option Str :=
  bytes.toByteArray.utf8Decode?.map Array.toList

private theorem toByteArray_asBytes (text : Str) :
    (asBytes text).toByteArray = text.utf8Encode := by
  simp only [asBytes, List.utf8Encode]

theorem fromUtf8_asBytes (text : Str) : fromUtf8 (asBytes text) = some text := by
  simp [fromUtf8, toByteArray_asBytes]

private theorem toByteArray_injective {first second : List UInt8}
    (same : first.toByteArray = second.toByteArray) : first = second := by
  have datas := congrArg (fun array => array.data.toList) same
  simpa using datas

theorem asBytes_of_fromUtf8 {bytes : List UInt8} {text : Str}
    (decoded : fromUtf8 bytes = some text) : asBytes text = bytes := by
  simp only [fromUtf8, Option.map_eq_some_iff] at decoded
  obtain ⟨chars, found, rfl⟩ := decoded
  apply toByteArray_injective
  have present : bytes.toByteArray.utf8Decode?.isSome := by simp [found]
  have inverse := ByteArray.utf8Encode_get_utf8Decode? (b := bytes.toByteArray) (h := present)
  rw [toByteArray_asBytes]
  simpa [found] using inverse

/-! ### Lossy decoding -/

def replacementCharacter : Char := '\uFFFD'

def isContinuation (b : UInt8) : Bool := 0x80 ≤ b && b ≤ 0xBF

/-- The second bytes that may follow a lead byte of three bytes. -/
def secondOfThree (lead b : UInt8) : Bool :=
  if lead = 0xE0 then 0xA0 ≤ b && b ≤ 0xBF
  else if lead = 0xED then 0x80 ≤ b && b ≤ 0x9F
  else isContinuation b

/-- The second bytes that may follow a lead byte of four bytes. -/
def secondOfFour (lead b : UInt8) : Bool :=
  if lead = 0xF0 then 0x90 ≤ b && b ≤ 0xBF
  else if lead = 0xF4 then 0x80 ≤ b && b ≤ 0x8F
  else isContinuation b

/-- The bits of a lead byte below its mark, followed by six bits of each continuation. -/
def scalar (lead : Nat) (continuations : List UInt8) : Char :=
  Char.ofNat (continuations.foldl (fun value b => value * 64 + b.toNat % 64) lead)

/-- The first character and the bytes after it. An ill-formed beginning, as far as it could
start a character, becomes one replacement character. -/
def decodeFirst (lead : UInt8) (rest : List UInt8) : Char × List UInt8 :=
  if lead < 0x80 then (scalar lead.toNat [], rest)
  else if 0xC2 ≤ lead && lead ≤ 0xDF then
    match rest with
    | a :: more =>
        if isContinuation a then (scalar (lead.toNat % 32) [a], more)
        else (replacementCharacter, rest)
    | [] => (replacementCharacter, [])
  else if 0xE0 ≤ lead && lead ≤ 0xEF then
    match rest with
    | a :: more =>
        if secondOfThree lead a then
          match more with
          | b :: more' =>
              if isContinuation b then (scalar (lead.toNat % 16) [a, b], more')
              else (replacementCharacter, more)
          | [] => (replacementCharacter, [])
        else (replacementCharacter, rest)
    | [] => (replacementCharacter, [])
  else if 0xF0 ≤ lead && lead ≤ 0xF4 then
    match rest with
    | a :: more =>
        if secondOfFour lead a then
          match more with
          | b :: more' =>
              if isContinuation b then
                match more' with
                | c :: more'' =>
                    if isContinuation c then (scalar (lead.toNat % 8) [a, b, c], more'')
                    else (replacementCharacter, more')
                | [] => (replacementCharacter, [])
              else (replacementCharacter, more)
          | [] => (replacementCharacter, [])
        else (replacementCharacter, rest)
    | [] => (replacementCharacter, [])
  else (replacementCharacter, rest)

/-- Characters one after the other; each takes at least one byte. -/
def decodeLossy : Nat → List UInt8 → Str
  | 0, _ | _, [] => []
  | fuel + 1, lead :: rest =>
      let (first, rest) := decodeFirst lead rest
      first :: decodeLossy fuel rest

/-- `String::from_utf8_lossy`. -/
def fromUtf8Lossy (bytes : List UInt8) : Str := decodeLossy bytes.length bytes

example : fromUtf8Lossy (asBytes "aé€😀".toList) = "aé€😀".toList := by decide

example : fromUtf8Lossy [0x61, 0xE2, 0x82, 0x62, 0xFF] = "a\uFFFDb\uFFFD".toList := by decide

end Expresso.Text
