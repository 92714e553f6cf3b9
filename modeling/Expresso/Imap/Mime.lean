import Expresso.Text.Bytes
import Expresso.Text.Utf8

/-! The parts of a message: how `FETCH` finds the bytes of a section, and how it describes the
message with all its parts. -/

namespace Expresso.Imap
open Text

/-! ### Headers and text -/

/-- `email_header_bytes`. -/
def emailHeaderBytes (raw : List UInt8) : List UInt8 :=
  match position separator raw with
  | some pos => raw.take (pos + 4)
  | none => raw

/-- `email_text_bytes`: `BODY[TEXT]`. -/
def emailTextBytes (raw : List UInt8) : List UInt8 :=
  match position separator raw with
  | some pos => raw.drop (pos + 4)
  | none => []

/-- `str::lines`: a line feed ends a line, with a carriage return before it. -/
def lines (text : Str) : List Str :=
  let pieces := split '\n' text
  pieces.dropLast.map (fun line => (stripSuffix ['\r'] line).getD line) ++
    pieces.getLast?.toList.filter (!·.isEmpty)

/-- A header line, or the continuation of the last one. -/
def unfoldHeader (headers : List (Str × Str)) (line : Str) : List (Str × Str) :=
  match line.head?.filter (fun c => c = ' ' ∨ c = '\t'), headers.getLast? with
  | some _, some (name, value) => headers.dropLast ++ [(name, value ++ [' '] ++ trim line)]
  | _, _ =>
      match splitOnce ':' line with
      | some (name, value) => headers ++ [(toAsciiLowercase (trim name), trim value)]
      | none => headers

structure ContentType where
  type : Str
  subtype : Str
  params : List (Str × Str)
  transferEncoding : Str
  deriving DecidableEq

def ContentType.plain : ContentType := ⟨"TEXT".toList, "PLAIN".toList, [], "7BIT".toList⟩

def trimQuotes (s : Str) : Str :=
  ((s.dropWhile (· = '"')).reverse.dropWhile (· = '"')).reverse

theorem trimQuotes_quoted {s : Str} (unquoted : '"' ∉ s) : trimQuotes ('"' :: s ++ ['"']) = s := by
  have stays {t : Str} (absent : '"' ∉ t) : t.dropWhile (· = '"') = t := by
    cases t with
    | nil => rfl
    | cons c rest =>
      have other : c ≠ '"' := fun same => absent (same ▸ List.mem_cons_self)
      rw [List.dropWhile_cons_of_neg (by simpa using other)]
  unfold trimQuotes
  rw [List.cons_append, List.dropWhile_cons_of_pos (by decide)]
  cases s with
  | nil => rfl
  | cons c rest =>
    have other : c ≠ '"' := fun same => unquoted (same ▸ List.mem_cons_self)
    rw [List.cons_append, List.dropWhile_cons_of_neg (by simpa using other), ← List.cons_append,
      List.reverse_append, List.reverse_singleton, List.singleton_append,
      List.dropWhile_cons_of_pos (by decide), stays (by simpa [and_comm] using unquoted), List.reverse_reverse]

/-- `name=value`, without the quotes around the value. -/
def contentParam (param : Str) : Option (Str × Str) :=
  match splitOnce '=' (trim param) with
  | some (k, v) =>
      let key := toAsciiLowercase (trim k)
      if key.isEmpty then none else some (key, trimQuotes (trim v))
  | none => none

def parseContentType (raw : List UInt8) : ContentType :=
  let headerBytes := match position separator raw with
    | some pos => raw.take pos
    | none => raw
  let headers := (lines (fromUtf8Lossy headerBytes)).foldl unfoldHeader []
  let line := (headers.lookup "content-type".toList).getD "text/plain".toList
  let encoding := ((headers.lookup "content-transfer-encoding".toList).map fun value =>
    toAsciiUppercase (trim value)).getD "7BIT".toList
  let (typeSubtype, params) := (splitOnce ';' line).getD (line, [])
  match splitOnce '/' (trim typeSubtype) with
  | some (type, subtype) =>
      ⟨trim type, trim subtype, (split ';' params).filterMap contentParam, encoding⟩
  | none => .plain

def ContentType.multipart (contentType : ContentType) : Bool :=
  toAsciiUppercase contentType.type = "MULTIPART".toList

/-! ### Parts -/

def mimeBoundary (raw : List UInt8) : Option Str :=
  (parseContentType raw).params.lookup "boundary".toList

/-- The line break before a delimiter is not part of the part. -/
def trimBreak (bytes : List UInt8) : List UInt8 :=
  if [13, 10].isSuffixOf bytes then bytes.take (bytes.length - 2)
  else if [10].isSuffixOf bytes then bytes.take (bytes.length - 1)
  else bytes

/-- The bytes behind a delimiter and its line break. -/
def skipBreak (bytes : List UInt8) : List UInt8 :=
  if [13, 10].isPrefixOf bytes then bytes.drop 2
  else if [10].isPrefixOf bytes then bytes.drop 1
  else bytes

theorem position_bound {α : Type} [DecidableEq α] {needle text : List α} {pos : Nat}
    (found : position needle text = some pos) : pos + needle.length ≤ text.length := by
  induction text generalizing pos with
  | nil =>
    rw [position] at found
    split at found
    · next isPrefix =>
      cases found
      simpa using (List.isPrefixOf_iff_prefix.mp isPrefix).length_le
    · cases found
  | cons x rest ih =>
    rw [position] at found
    split at found
    · next isPrefix =>
      cases found
      simpa using (List.isPrefixOf_iff_prefix.mp isPrefix).length_le
    · obtain ⟨before, earlier, rfl⟩ := Option.map_eq_some_iff.mp found
      have bound := ih earlier
      rw [List.length_cons]
      omega

theorem skipBreak_length (bytes : List UInt8) : (skipBreak bytes).length ≤ bytes.length := by
  rw [skipBreak]
  split
  · rw [List.length_drop]
    omega
  · split
    · rw [List.length_drop]
      omega
    · exact Nat.le_refl _

/-- The loop of `mime_split_parts`, for the delimiter `--boundary`. -/
def partsFrom (boundary remaining : List UInt8) : List (List UInt8) :=
  match found : position (45 :: 45 :: boundary) remaining with
  | none => []
  | some pos =>
      let after := remaining.drop (pos + (45 :: 45 :: boundary).length)
      if [45, 45].isPrefixOf after then []
      else
        let body := skipBreak after
        let endPos := (position (45 :: 45 :: boundary) body).getD body.length
        trimBreak (body.take endPos) :: partsFrom boundary (body.drop endPos)
termination_by remaining.length
decreasing_by
  have bound := position_bound found
  have shorter := skipBreak_length (remaining.drop (pos + (45 :: 45 :: boundary).length))
  simp only [List.length_drop, List.length_cons] at bound shorter ⊢
  omega

/-- The parts of a body with their headers; none without a boundary. -/
def mimeSplitParts (raw : List UInt8) : List (List UInt8) :=
  match mimeBoundary raw with
  | none => []
  | some boundary => partsFrom (asBytes boundary) (emailTextBytes raw)

def maxMimeDepth : Nat := 64

/-- The part at a path of numbers, with its headers; a message without parts has its text as the
part 1. -/
def mimeNavigate (raw : List UInt8) (path : List Nat) : Option (List UInt8) :=
  if maxMimeDepth < path.length then none
  else match path with
    | [] => some raw
    | head :: tail =>
        if head = 0 then none
        else match mimeSplitParts raw with
          | [] => if head = 1 ∧ tail = [] then some (emailTextBytes raw) else none
          | first :: others =>
              match (first :: others)[head - 1]? with
              | none => none
              | some part => if tail = [] then some part else mimeNavigate part tail

example (raw : List UInt8) : mimeNavigate raw [] = some raw := by simp [mimeNavigate]

/-- A part without its headers. -/
def partContent (part : List UInt8) : List UInt8 :=
  match position separator part with
  | some pos => part.drop (pos + 4)
  | none => part

/-- `BODY[path]`. -/
def mimePartBodyPath (raw : List UInt8) (path : List Nat) : List UInt8 :=
  match mimeNavigate raw path with
  | none => []
  | some part => partContent part

/-! ### Structure -/

theorem trimBreak_length (bytes : List UInt8) : (trimBreak bytes).length ≤ bytes.length := by
  rw [trimBreak]
  split
  · rw [List.length_take]
    omega
  · split
    · rw [List.length_take]
      omega
    · exact Nat.le_refl _

theorem partsFrom_length {boundary remaining part : List UInt8}
    (member : part ∈ partsFrom boundary remaining) : part.length + 2 ≤ remaining.length := by
  fun_induction partsFrom boundary remaining with
  | case1 remaining missing => cases member
  | case2 remaining pos found after closing => cases member
  | case3 remaining pos found after closing body endPos ih =>
    have bound := position_bound found
    have skipped : body.length + 2 ≤ remaining.length := by
      have shorter := skipBreak_length after
      simp only [after, List.length_drop, List.length_cons] at bound shorter
      exact Nat.le_trans (Nat.add_le_add_right shorter 2) (by omega)
    rcases List.mem_cons.mp member with rfl | later
    · have trimmed := trimBreak_length (body.take endPos)
      rw [List.length_take] at trimmed
      omega
    · have rest := ih later
      rw [List.length_drop] at rest
      omega

theorem mimeSplitParts_length {raw part : List UInt8} (member : part ∈ mimeSplitParts raw) :
    part.length < raw.length := by
  rw [mimeSplitParts] at member
  split at member
  · cases member
  · have bound := partsFrom_length member
    have shorter : (emailTextBytes raw).length ≤ raw.length := by
      rw [emailTextBytes]
      split
      · rw [List.length_drop]
        omega
      · exact Nat.zero_le _
    omega

structure BasicFields where
  parameterList : List (Str × Str)
  contentTransferEncoding : Str
  size : Nat
  deriving DecidableEq

inductive SpecificFields where
  | text (subtype : Str) (numberOfLines : Nat)
  | basic (type subtype : Str)
  deriving DecidableEq

inductive BodyStructure where
  | single (basic : BasicFields) (specific : SpecificFields)
  | multi (bodies : List BodyStructure) (subtype : Str)

/-- What the response crate and the standard library do with strings. -/
structure Strings where
  /-- `IString::try_from` accepts the string -/
  istring : Str → Bool
  toUppercase : Str → Str

variable (strings : Strings)

/-- A string in capitals, or the default if the response cannot hold it. -/
def Strings.field (text fallback : Str) : Str :=
  let upper := strings.toUppercase text
  if strings.istring upper then upper else fallback

/-- The part that stands for the parts of a multipart that has none. -/
def placeholder (size : Nat) : BodyStructure :=
  .single ⟨[], "7BIT".toList, size⟩ (.text "PLAIN".toList 0)

/-- A part that is not a multipart. -/
def singleStructure (size : Nat) (contentType : ContentType) (text : List UInt8) : BodyStructure :=
  let subtype := strings.field contentType.subtype "PLAIN".toList
  .single
    ⟨contentType.params.filter fun (k, v) => strings.istring k && strings.istring v,
      strings.field contentType.transferEncoding "7BIT".toList, size⟩
    (if toAsciiUppercase contentType.type = "TEXT".toList then
      .text subtype (text.count 10)
    else .basic (strings.field contentType.type "TEXT".toList) subtype)

/-- Without the bytes the message is plain text of the given size. -/
def buildBodyStructure (size : Nat) (raw : Option (List UInt8)) : BodyStructure :=
  match raw with
  | none => singleStructure strings size .plain []
  | some bytes =>
      let contentType := parseContentType bytes
      if contentType.multipart then
        let inner := (mimeSplitParts bytes).attach.map fun ⟨part, _⟩ =>
          buildBodyStructure (part.length % 2 ^ 32) (some part)
        .multi (if inner.isEmpty then [placeholder size] else inner)
          (strings.field contentType.subtype "MIXED".toList)
      else singleStructure strings size contentType (emailTextBytes bytes)
termination_by raw.elim 0 (·.length)
decreasing_by
  have shorter := mimeSplitParts_length ‹part ∈ mimeSplitParts bytes›
  simpa using shorter

end Expresso.Imap
