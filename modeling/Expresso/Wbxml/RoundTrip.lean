import Expresso.Wbxml.MultiByte
import Mathlib.Data.Bool.AllAny

/-! What the encoder writes, the decoder reads back. An event is `Readable` when the
bytes written for it decode to it again; the two directions of the codec are both
stated through that predicate. -/

namespace Expresso.Wbxml
open Text

/-! ### The decoder's loop -/

theorem Cursor.untilNul_append (bytes rest : List UInt8) (noNul : (0 : UInt8) ∉ bytes) :
    Cursor.untilNul (bytes ++ 0 :: rest) = some (bytes, rest) := by
  induction bytes with
  | nil => simp [Cursor.untilNul]
  | cons b bytes ih =>
    have nonzero : b ≠ 0 := by
      intro zero
      exact noNul (by simp [zero])
    have tail := ih (fun member => noNul (List.mem_cons_of_mem _ member))
    simp [Cursor.untilNul, nonzero, tail]

theorem Cursor.untilNul_some {cursor : Cursor} {bytes : List UInt8} {rest : Cursor}
    (found : Cursor.untilNul cursor = some (bytes, rest)) :
    (0 : UInt8) ∉ bytes ∧ cursor = bytes ++ 0 :: rest := by
  induction cursor generalizing bytes with
  | nil => simp [Cursor.untilNul] at found
  | cons b cursor ih =>
    by_cases zero : b = 0
    · simp only [Cursor.untilNul, if_pos zero, Option.some.injEq, Prod.mk.injEq] at found
      obtain ⟨rfl, rfl⟩ := found
      simp [zero]
    · simp only [Cursor.untilNul, if_neg zero, Option.map_eq_some_iff] at found
      obtain ⟨⟨tail, after⟩, inner, same⟩ := found
      simp only [Prod.mk.injEq] at same
      obtain ⟨rfl, rfl⟩ := same
      obtain ⟨noNul, split⟩ := ih inner
      have nonzero : ¬0 = b := fun equal => zero equal.symm
      simp [nonzero, noNul, split]

theorem Cursor.cstring_ok {cursor : Cursor} {s : Str} {rest : Cursor}
    (read : Cursor.cstring cursor = .ok (s, rest)) :
    (0 : UInt8) ∉ asBytes s ∧ cursor = asBytes s ++ 0 :: rest := by
  unfold Cursor.cstring at read
  cases found : Cursor.untilNul cursor with
  | none => simp [found] at read
  | some pair =>
    obtain ⟨bytes, after⟩ := pair
    cases decoded : fromUtf8 bytes with
    | none => simp [found, decoded] at read
    | some text =>
      simp only [found, decoded, Except.ok.injEq, Prod.mk.injEq] at read
      obtain ⟨rfl, rfl⟩ := read
      rw [asBytes_of_fromUtf8 decoded]
      exact Cursor.untilNul_some found

theorem Cursor.cstring_asBytes (s : Str) (rest : Cursor) (noNul : (0 : UInt8) ∉ asBytes s) :
    Cursor.cstring (asBytes s ++ 0 :: rest) = .ok (s, rest) := by
  simp [Cursor.cstring, Cursor.untilNul_append _ rest noNul, fromUtf8_asBytes]

theorem Cursor.take_ok {cursor : Cursor} {n : Nat} {bytes : List UInt8} {rest : Cursor}
    (read : Cursor.take cursor n = .ok (bytes, rest)) :
    bytes.length = n ∧ cursor = bytes ++ rest := by
  unfold Cursor.take at read
  split at read
  · cases read
  · simp only [Except.ok.injEq, Prod.mk.injEq] at read
    obtain ⟨rfl, rfl⟩ := read
    refine ⟨?_, (List.take_append_drop n cursor).symm⟩
    rw [List.length_take]
    omega

theorem Cursor.take_append (bytes rest : List UInt8) :
    Cursor.take (bytes ++ rest) bytes.length = .ok (bytes, rest) := by
  have room : ¬bytes.length > (bytes ++ rest).length := by simp
  rw [Cursor.take, if_neg room, List.take_left, List.drop_left]

private theorem readMbLoop_length {left : Nat} {v result : UInt32} {cursor rest : Cursor}
    (read : readMbLoop left v cursor = .ok (result, rest)) : rest.length ≤ cursor.length := by
  induction left generalizing v cursor with
  | zero => simp [readMbLoop] at read
  | succ left ih =>
    cases cursor with
    | nil => simp [readMbLoop] at read
    | cons b cursor =>
      simp only [readMbLoop] at read
      split at read
      · simp only [Except.ok.injEq, Prod.mk.injEq] at read
        simp [← read.2]
      · have shorter := ih read
        simp only [List.length_cons]
        omega

/-- All that one round of the decoder's loop can do. -/
theorem decodeToken_ok {page b page' : UInt8} {rest rest' : Cursor} {event : Option Event}
    (step : decodeToken page b rest = .ok (page', event, rest')) :
    (b = Global.switchPage ∧ event = none ∧ rest = page' :: rest') ∨
    (b = Global.endTag ∧ event = some .endElement ∧ page' = page ∧ rest' = rest) ∨
    (b = Global.strI ∧ page' = page ∧ ∃ s, event = some (.text s) ∧
      (0 : UInt8) ∉ asBytes s ∧ rest = asBytes s ++ 0 :: rest') ∨
    (b = Global.opaqueToken ∧ page' = page ∧ ∃ bytes, event = some (.opaqueData bytes) ∧
      bytes.length < 2 ^ 32 ∧ rest'.length ≤ rest.length) ∨
    (b ≠ Global.switchPage ∧ b ≠ Global.endTag ∧ b ≠ Global.strI ∧ b ≠ Global.opaqueToken ∧
      b ∉ unsupportedTokens ∧ page' = page ∧ rest' = rest ∧
      event = some (.startElement page (b &&& Global.tagMask) (b &&& Global.hasContent ≠ 0))) := by
  unfold decodeToken at step
  split at step
  · next isSwitch =>
    cases rest with
    | nil => simp [Cursor.u8] at step
    | cons p rest =>
      simp only [Cursor.u8, Except.ok.injEq, Prod.mk.injEq] at step
      obtain ⟨rfl, rfl, rfl⟩ := step
      exact .inl ⟨isSwitch, rfl, rfl⟩
  · next notSwitch =>
    split at step
    · next isEnd =>
      simp only [Except.ok.injEq, Prod.mk.injEq] at step
      obtain ⟨rfl, rfl, rfl⟩ := step
      exact .inr (.inl ⟨isEnd, rfl, rfl, rfl⟩)
    · next notEnd =>
      split at step
      · next isStr =>
        cases read : Cursor.cstring rest with
        | error e => simp [read, bind, Except.bind] at step
        | ok pair =>
          simp only [read, bind, Except.bind, Except.ok.injEq, Prod.mk.injEq] at step
          obtain ⟨rfl, rfl, rfl⟩ := step
          exact .inr (.inr (.inl ⟨isStr, rfl, pair.1, rfl, Cursor.cstring_ok read⟩))
      · next notStr =>
        split at step
        · next isOpaque =>
          cases lengthRead : readMbU32 rest with
          | error e => simp [lengthRead, bind, Except.bind] at step
          | ok lengthPair =>
            cases dataRead : Cursor.take lengthPair.2 lengthPair.1.toNat with
            | error e => simp [lengthRead, dataRead, bind, Except.bind] at step
            | ok dataPair =>
              simp only [lengthRead, dataRead, bind, Except.bind, Except.ok.injEq,
                Prod.mk.injEq] at step
              obtain ⟨rfl, rfl, rfl⟩ := step
              obtain ⟨sized, split⟩ := Cursor.take_ok dataRead
              have shorter : lengthPair.2.length ≤ rest.length := readMbLoop_length lengthRead
              refine .inr (.inr (.inr (.inl ⟨isOpaque, rfl, dataPair.1, rfl, ?_, ?_⟩)))
              · rw [sized]
                exact lengthPair.1.toNat_lt
              · rw [split, List.length_append] at shorter
                omega
        · next notOpaque =>
          split at step
          · cases step
          · next supported =>
            simp only [Except.ok.injEq, Prod.mk.injEq] at step
            obtain ⟨rfl, rfl, rfl⟩ := step
            exact .inr (.inr (.inr (.inr
              ⟨notSwitch, notEnd, notStr, notOpaque, supported, rfl, rfl, rfl⟩)))

theorem decodeToken_length {page b page' : UInt8} {rest rest' : Cursor} {event : Option Event}
    (step : decodeToken page b rest = .ok (page', event, rest')) :
    rest'.length ≤ rest.length := by
  rcases decodeToken_ok step with ⟨_, _, rfl⟩ | ⟨_, _, _, rfl⟩ | ⟨_, _, s, _, _, rfl⟩ |
    ⟨_, _, _, _, _, shorter⟩ | ⟨_, _, _, _, _, _, rfl, _⟩
  · simp
  · exact Nat.le_refl _
  · simp only [List.length_append, List.length_cons]
    omega
  · exact shorter
  · exact Nat.le_refl _

/-- More rounds than bytes change nothing. -/
theorem decodeLoop_rounds (rounds : Nat) (page : UInt8) (cursor : Cursor)
    (enough : cursor.length ≤ rounds) :
    decodeLoop rounds page cursor = decodeLoop cursor.length page cursor := by
  induction rounds using Nat.strongRecOn generalizing page cursor with
  | ind rounds ih =>
    cases cursor with
    | nil => cases rounds <;> rfl
    | cons b rest =>
      cases rounds with
      | zero => simp at enough
      | succ rounds =>
        simp only [List.length_cons] at enough ⊢
        simp only [decodeLoop]
        cases step : decodeToken page b rest with
        | error e => rfl
        | ok result =>
          obtain ⟨page', event, rest'⟩ := result
          have shorter := decodeToken_length step
          simp only [bind, Except.bind]
          rw [ih rounds (by omega) page' rest' (by omega),
            ih rest.length (by omega) page' rest' shorter]

/-- The decoder's loop with as many rounds as it needs. -/
def decodeFrom (page : UInt8) (cursor : Cursor) : Except DecodeError (List Event) :=
  decodeLoop cursor.length page cursor

@[simp] theorem decodeFrom_nil (page : UInt8) : decodeFrom page [] = .ok [] := rfl

theorem decodeFrom_cons (page b : UInt8) (rest : Cursor) :
    decodeFrom page (b :: rest) =
      match decodeToken page b rest with
      | .error e => .error e
      | .ok (page', event, rest') =>
          match decodeFrom page' rest' with
          | .error e => .error e
          | .ok events => .ok (event.toList ++ events) := by
  simp only [decodeFrom, List.length_cons, decodeLoop]
  cases step : decodeToken page b rest with
  | error e => rfl
  | ok result =>
    obtain ⟨page', event, rest'⟩ := result
    simp only [bind, Except.bind]
    rw [decodeLoop_rounds _ _ _ (decodeToken_length step)]
    cases decodeLoop rest'.length page' rest' <;> rfl

/-! ### Events that survive the wire -/

/-- The tag byte written for the element is an element token to the decoder, and it
carries the whole token. -/
def TagReadable (token : UInt8) (hasContent : Bool) : Prop :=
  token &&& Global.tagMask = token ∧
    tagByte token hasContent ∉
      [Global.switchPage, Global.endTag, Global.strI, Global.opaqueToken] ∧
    tagByte token hasContent ∉ unsupportedTokens

instance (token : UInt8) (hasContent : Bool) : Decidable (TagReadable token hasContent) := by
  unfold TagReadable
  infer_instance

def Readable : Event → Prop
  | .startElement _ token hasContent => TagReadable token hasContent
  | .endElement => True
  | .text s => (0 : UInt8) ∉ asBytes s
  | .opaqueData bytes => bytes.length < 2 ^ 32

/-- The tag byte written for the element is one the decoder rejects by name. -/
def Rejected : Event → Prop
  | .startElement _ token hasContent => tagByte token hasContent ∈ unsupportedTokens
  | _ => False

/-- The bits of a tag byte: the token below the attribute bit. -/
theorem toNat_tagByte (token : UInt8) (hasContent : Bool) :
    (tagByte token hasContent).toNat = token.toNat % 64 + if hasContent then 64 else 0 := by
  have low := @toNat_and_mask token Global.tagMask 6 rfl
  have small : (token &&& Global.tagMask).toNat < 2 ^ 6 := by
    rw [low]
    exact Nat.mod_lt _ (by decide)
  cases hasContent with
  | false => exact low
  | true =>
    have both := @toNat_or_bit (token &&& Global.tagMask) Global.hasContent 6 rfl small
    rw [low] at both
    exact both

theorem masked_iff (token : UInt8) : token &&& Global.tagMask = token ↔ token.toNat < 64 := by
  rw [← UInt8.toNat_inj, @toNat_and_mask token Global.tagMask 6 rfl]
  omega

theorem hasContent_iff (b : UInt8) : b &&& Global.hasContent ≠ 0 ↔ b.toNat / 64 % 2 = 1 := by
  have zero : (0 : UInt8).toNat = 0 := rfl
  rw [ne_eq, ← UInt8.toNat_inj, @toNat_and_bit b Global.hasContent 6 rfl]
  omega

theorem mem_globals_iff (b : UInt8) :
    b ∈ [Global.switchPage, Global.endTag, Global.strI, Global.opaqueToken] ↔
      b.toNat = 0 ∨ b.toNat = 1 ∨ b.toNat = 3 ∨ b.toNat = 0xC3 := by
  simp only [List.mem_cons, List.not_mem_nil, or_false, ← UInt8.toNat_inj]
  exact Iff.rfl

theorem mem_unsupported_iff (b : UInt8) : b ∈ unsupportedTokens ↔
    b.toNat = 0x02 ∨ b.toNat = 0x04 ∨ b.toNat = 0x40 ∨ b.toNat = 0x43 ∨ b.toNat = 0x44 ∨
      b.toNat = 0x80 ∨ b.toNat = 0x81 ∨ b.toNat = 0x83 ∨ b.toNat = 0x84 := by
  simp only [unsupportedTokens, List.mem_cons, List.not_mem_nil, or_false, ← UInt8.toNat_inj]
  exact Iff.rfl

theorem tagByte_content (token : UInt8) (hasContent : Bool)
    (masked : token &&& Global.tagMask = token) :
    tagByte token hasContent &&& Global.tagMask = token ∧
      decide (tagByte token hasContent &&& Global.hasContent ≠ 0) = hasContent := by
  rw [masked_iff] at masked
  have tag := toNat_tagByte token hasContent
  constructor
  · rw [← UInt8.toNat_inj, @toNat_and_mask _ Global.tagMask 6 rfl, tag]
    split <;> omega
  · rw [Bool.eq_iff_iff, decide_eq_true_iff, hasContent_iff, tag]
    cases hasContent
    · simp only [Bool.false_eq_true, if_false, iff_false]
      omega
    · simp only [if_true, iff_true]
      omega

theorem tagReadable_of_range (token : UInt8) (hasContent : Bool)
    (low : 5 ≤ token) (high : token ≤ 0x3F) : TagReadable token hasContent := by
  have least : 5 ≤ token.toNat := UInt8.le_iff_toNat_le.mp low
  have most : token.toNat ≤ 63 := UInt8.le_iff_toNat_le.mp high
  have tag := toNat_tagByte token hasContent
  rw [TagReadable, masked_iff, mem_globals_iff, mem_unsupported_iff, tag]
  cases hasContent
  · simp only [Bool.false_eq_true, if_false]
    omega
  · simp only [if_true]
    omega

theorem decodeToken_tagByte (page token : UInt8) (hasContent : Bool) (rest : Cursor)
    (readable : TagReadable token hasContent) :
    decodeToken page (tagByte token hasContent) rest =
      .ok (page, some (.startElement page token hasContent), rest) := by
  obtain ⟨masked, notGlobal, supported⟩ := readable
  simp only [List.mem_cons, List.not_mem_nil, or_false, not_or] at notGlobal
  obtain ⟨tokenBack, contentBack⟩ := tagByte_content token hasContent masked
  rw [decodeToken, if_neg notGlobal.1, if_neg notGlobal.2.1, if_neg notGlobal.2.2.1,
    if_neg notGlobal.2.2.2, if_neg supported, tokenBack, contentBack]

/-- One readable event: the bytes written for it decode to it, and encoder and
decoder agree on the page afterwards. -/
theorem decodeFrom_encodeBody_cons (page : UInt8) (event : Event) (events : List Event)
    (readable : Readable event) :
    ∃ page', decodeFrom page (encodeBody page (event :: events)) =
      match decodeFrom page' (encodeBody page' events) with
      | .error e => .error e
      | .ok decoded => .ok (event :: decoded) := by
  cases event with
  | startElement p token hasContent =>
    have tag := fun rest => decodeToken_tagByte p token hasContent rest readable
    refine ⟨p, ?_⟩
    by_cases same : p = page
    · subst same
      simp only [encodeBody, ne_eq, not_true_eq_false, ↓reduceIte]
      rw [decodeFrom_cons, tag]
      rfl
    · simp only [encodeBody, ne_eq, same, not_false_eq_true, ↓reduceIte]
      rw [decodeFrom_cons]
      simp only [decodeToken, ↓reduceIte, Cursor.u8, Option.toList_none, List.nil_append]
      rw [decodeFrom_cons, tag]
      simp only [Option.toList_some, List.cons_append, List.nil_append]
      cases decodeFrom p (encodeBody p events) <;> rfl
  | endElement =>
    refine ⟨page, ?_⟩
    rw [encodeBody, decodeFrom_cons]
    rfl
  | text s =>
    refine ⟨page, ?_⟩
    have read := Cursor.cstring_asBytes s (encodeBody page events) readable
    have step : decodeToken page Global.strI (asBytes s ++ 0 :: encodeBody page events) =
        .ok (page, some (.text s), encodeBody page events) := by
      simp [decodeToken, Global.strI, Global.switchPage, Global.endTag, read, bind, Except.bind]
    rw [encodeBody, decodeFrom_cons, step]
    rfl
  | opaqueData bytes =>
    refine ⟨page, ?_⟩
    have sized : (UInt32.ofNat bytes.length).toNat = bytes.length := by
      rw [UInt32.toNat_ofNat']
      exact Nat.mod_eq_of_lt readable
    have step : decodeToken page Global.opaqueToken
        (writeMbU32 (UInt32.ofNat bytes.length) ++ (bytes ++ encodeBody page events)) =
        .ok (page, some (.opaqueData bytes), encodeBody page events) := by
      simp [decodeToken, Global.opaqueToken, Global.strI, Global.switchPage, Global.endTag,
        readMbU32_writeMbU32, sized, Cursor.take_append, bind, Except.bind]
    rw [encodeBody, decodeFrom_cons, step]
    rfl

theorem decodeFrom_encodeBody (page : UInt8) (events : List Event)
    (readable : ∀ event ∈ events, Readable event) :
    decodeFrom page (encodeBody page events) = .ok events := by
  induction events generalizing page with
  | nil => rfl
  | cons event events ih =>
    obtain ⟨page', step⟩ := decodeFrom_encodeBody_cons page event events
      (readable event (by simp))
    rw [step, ih page' (fun other member => readable other (by simp [member]))]

/-- A rejected element makes the decoder stop, whatever readable events precede it. -/
theorem decodeFrom_encodeBody_rejected (page : UInt8) (events : List Event)
    (known : ∀ event ∈ events, Readable event ∨ Rejected event)
    (bad : ∃ event ∈ events, Rejected event) :
    ∃ e, decodeFrom page (encodeBody page events) = .error e := by
  induction events generalizing page with
  | nil => simp at bad
  | cons event events ih =>
    by_cases rejected : Rejected event
    · cases event with
      | startElement p token hasContent =>
        have stop : ∀ rest, decodeToken p (tagByte token hasContent) rest =
            .error (.unsupportedToken (tagByte token hasContent)) := by
          intro rest
          have apart : ∀ b ∈ unsupportedTokens, b ≠ Global.switchPage ∧ b ≠ Global.endTag ∧
              b ≠ Global.strI ∧ b ≠ Global.opaqueToken := by
            intro b member
            rw [mem_unsupported_iff] at member
            refine ⟨?_, ?_, ?_, ?_⟩ <;> (rintro rfl; revert member; decide)
          obtain ⟨notSwitch, notEnd, notStr, notOpaque⟩ := apart _ rejected
          have unsupported : tagByte token hasContent ∈ unsupportedTokens := rejected
          rw [decodeToken, if_neg notSwitch, if_neg notEnd, if_neg notStr, if_neg notOpaque,
            if_pos unsupported]
        by_cases same : p = page
        · subst same
          simp only [encodeBody, ne_eq, not_true_eq_false, ↓reduceIte]
          rw [decodeFrom_cons, stop]
          exact ⟨_, rfl⟩
        · simp only [encodeBody, ne_eq, same, not_false_eq_true, ↓reduceIte]
          rw [decodeFrom_cons]
          simp only [decodeToken, ↓reduceIte, Cursor.u8]
          rw [decodeFrom_cons, stop]
          exact ⟨_, rfl⟩
      | endElement => exact rejected.elim
      | text s => exact rejected.elim
      | opaqueData bytes => exact rejected.elim
    · have readable : Readable event := (known event (by simp)).resolve_right rejected
      have later : ∃ other ∈ events, Rejected other := by
        obtain ⟨other, member, isRejected⟩ := bad
        rcases List.mem_cons.mp member with rfl | inside
        · exact (rejected isRejected).elim
        · exact ⟨other, inside, isRejected⟩
      obtain ⟨page', step⟩ := decodeFrom_encodeBody_cons page event events readable
      obtain ⟨e, failed⟩ := ih page' (fun other member => known other (by simp [member])) later
      rw [step, failed]
      exact ⟨e, rfl⟩

theorem decodeHeader_encode (events : List Event) :
    decodeHeader (encode events) = .ok (encodeBody 0 events) := by
  have publicId := readMbU32_writeMbU32 1 (charsetUtf8 :: 0 :: encodeBody 0 events)
  have charset := readMbU32_writeMbU32 0x6A (0 :: encodeBody 0 events)
  have table := readMbU32_writeMbU32 0 (encodeBody 0 events)
  rw [show writeMbU32 1 = [publicIdUnknown] by decide] at publicId
  rw [show writeMbU32 0x6A = [charsetUtf8] by decide] at charset
  rw [show writeMbU32 0 = [0x00] by decide] at table
  simp only [List.cons_append, List.nil_append] at publicId charset table
  simp [decodeHeader, encode, Cursor.u8, Cursor.skip, publicId, charset, table, bind, Except.bind]

theorem decode_encode_eq (events : List Event) :
    decode (encode events) = decodeFrom 0 (encodeBody 0 events) := by
  rw [decode, decodeHeader_encode]
  rfl

/-! ### The two directions -/

/-- Every document of element tokens, NUL-free texts and payloads below 4 GiB is read
back, in whatever order its events stand. -/
theorem decode_encode (doc : List Event)
    (tokens : ∀ page token hasContent, .startElement page token hasContent ∈ doc →
      5 ≤ token ∧ token ≤ 0x3F)
    (texts : ∀ s, .text s ∈ doc → (0 : UInt8) ∉ asBytes s)
    (payloads : ∀ bytes, .opaqueData bytes ∈ doc → bytes.length < 2 ^ 32) :
    decode (encode doc) = .ok doc := by
  rw [decode_encode_eq]
  apply decodeFrom_encodeBody
  intro event member
  cases event with
  | startElement page token hasContent =>
    obtain ⟨low, high⟩ := tokens page token hasContent member
    exact tagReadable_of_range token hasContent low high
  | endElement => trivial
  | text s => exact texts s member
  | opaqueData bytes => exact payloads bytes member

/-- Two pages, an empty element, text and opaque data, not well nested. -/
theorem decode_encode_mixed :
    decode (encode [.endElement, .startElement 7 0x16 true, .startElement 0 0x3F false,
      .text "é0".toList, .opaqueData [1, 0, 255]]) =
      .ok [.endElement, .startElement 7 0x16 true, .startElement 0 0x3F false,
        .text "é0".toList, .opaqueData [1, 0, 255]] := by
  apply decode_encode
  · intro page token hasContent member
    simp at member
    rcases member with ⟨_, rfl, _⟩ | ⟨_, rfl, _⟩ <;> decide
  · intro s member
    simp at member
    subst s
    decide
  · intro bytes member
    simp at member
    subst bytes
    decide

/-- The token bytes of a body, as the decoder's loop meets them. -/
def tokenLoop : Nat → UInt8 → Cursor → List UInt8
  | _, _, [] => []
  | 0, _, _ :: _ => []
  | rounds + 1, page, b :: rest =>
      b :: match decodeToken page b rest with
        | .error _ => []
        | .ok (page, _, rest) => tokenLoop rounds page rest

def tokenBytes (bytes : List UInt8) : List UInt8 :=
  match decodeHeader bytes with
  | .error _ => []
  | .ok body => tokenLoop body.length 0 body

/-- The global tokens `EXT_T_2`, `EXT_0` and `LITERAL_AC`, which the decoder takes
for elements although their tag bytes without the attribute bit are rejected. -/
def strayTokens : List UInt8 := [0x82, 0xC0, 0xC4]

theorem mem_stray_iff (b : UInt8) :
    b ∈ strayTokens ↔ b.toNat = 0x82 ∨ b.toNat = 0xC0 ∨ b.toNat = 0xC4 := by
  simp only [strayTokens, List.mem_cons, List.not_mem_nil, or_false, ← UInt8.toNat_inj]
  exact Iff.rfl

theorem element_readable_iff (b page : UInt8)
    (apart : b ∉ [Global.switchPage, Global.endTag, Global.strI, Global.opaqueToken])
    (supported : b ∉ unsupportedTokens) :
    (Readable (.startElement page (b &&& Global.tagMask) (b &&& Global.hasContent ≠ 0)) ↔
      b ∉ strayTokens) ∧
    (Rejected (.startElement page (b &&& Global.tagMask) (b &&& Global.hasContent ≠ 0)) ↔
      b ∈ strayTokens) := by
  have bound := b.toNat_lt
  have masked := @toNat_and_mask b Global.tagMask 6 rfl
  have tag : (tagByte (b &&& Global.tagMask) (b &&& Global.hasContent ≠ 0)).toNat =
      b.toNat % 128 := by
    rw [toNat_tagByte, masked]
    by_cases content : b.toNat / 64 % 2 = 1
    · rw [if_pos (decide_eq_true ((hasContent_iff b).mpr content))]
      omega
    · rw [if_neg (by simpa using (hasContent_iff b).not.mpr content)]
      omega
  rw [mem_globals_iff] at apart
  rw [mem_unsupported_iff] at supported
  constructor
  · rw [Readable, TagReadable, masked_iff, mem_globals_iff, mem_unsupported_iff, mem_stray_iff, tag,
      masked]
    omega
  · rw [Rejected, mem_unsupported_iff, mem_stray_iff, tag]
    omega

/-- A token is stray and makes a rejected element, or it makes a readable event. -/
theorem decodeToken_classified {page b page' : UInt8} {rest rest' : Cursor}
    {event : Option Event} (step : decodeToken page b rest = .ok (page', event, rest')) :
    (b ∈ strayTokens ∧ ∃ made, event = some made ∧ Rejected made) ∨
      (b ∉ strayTokens ∧ ∀ made ∈ event.toList, Readable made) := by
  rcases decodeToken_ok step with ⟨rfl, rfl, _⟩ | ⟨rfl, rfl, _, _⟩ |
    ⟨rfl, _, s, rfl, noNul, _⟩ | ⟨rfl, _, bytes, rfl, bounded, _⟩ |
    ⟨notSwitch, notEnd, notStr, notOpaque, supported, _, _, rfl⟩
  · exact .inr ⟨by decide, by simp⟩
  · exact .inr ⟨by decide, by simp [Readable]⟩
  · exact .inr ⟨by decide, by simpa [Readable] using noNul⟩
  · exact .inr ⟨by decide, by simpa [Readable] using bounded⟩
  · have apart : b ∉ [Global.switchPage, Global.endTag, Global.strI, Global.opaqueToken] := by
      simp [notSwitch, notEnd, notStr, notOpaque]
    obtain ⟨readableIff, rejectedIff⟩ := element_readable_iff b page apart supported
    by_cases stray : b ∈ strayTokens
    · exact .inl ⟨stray, _, rfl, rejectedIff.mpr stray⟩
    · refine .inr ⟨stray, ?_⟩
      intro made member
      rw [Option.toList_some, List.mem_singleton] at member
      rw [member]
      exact readableIff.mpr stray

/-- A run of the decoder's loop yields readable events, and rejected ones exactly
when it meets a stray token. -/
theorem decodeLoop_events (rounds : Nat) (page : UInt8) (cursor : Cursor) (doc : List Event)
    (decoded : decodeLoop rounds page cursor = .ok doc) :
    (∀ event ∈ doc, Readable event ∨ Rejected event) ∧
      ((∃ b ∈ tokenLoop rounds page cursor, b ∈ strayTokens) → ∃ event ∈ doc, Rejected event) ∧
      ((∀ b ∈ tokenLoop rounds page cursor, b ∉ strayTokens) → ∀ event ∈ doc, Readable event) := by
  induction rounds generalizing page cursor doc with
  | zero =>
    cases cursor with
    | nil =>
      simp only [decodeLoop, Except.ok.injEq] at decoded
      subst doc
      simp [tokenLoop]
    | cons b rest => simp [decodeLoop] at decoded
  | succ rounds ih =>
    cases cursor with
    | nil =>
      simp only [decodeLoop, Except.ok.injEq] at decoded
      subst doc
      simp [tokenLoop]
    | cons b rest =>
      simp only [decodeLoop, bind, Except.bind] at decoded
      cases step : decodeToken page b rest with
      | error e => simp [step] at decoded
      | ok result =>
        obtain ⟨page', event, rest'⟩ := result
        simp only [step] at decoded
        cases tail : decodeLoop rounds page' rest' with
        | error e => simp [tail] at decoded
        | ok events =>
          simp only [tail, Except.ok.injEq] at decoded
          subst doc
          obtain ⟨known, rejected, readable⟩ := ih page' rest' events tail
          simp only [tokenLoop, step, List.mem_append, List.mem_cons]
          rcases decodeToken_classified step with ⟨stray, made, rfl, bad⟩ | ⟨clean, good⟩
          · refine ⟨?_, fun _ => ⟨made, .inl (by simp), bad⟩, ?_⟩
            · rintro other (first | later)
              · rw [Option.toList_some, List.mem_singleton] at first
                exact .inr (first ▸ bad)
              · exact known other later
            · intro none
              exact (none b (.inl rfl) stray).elim
          · refine ⟨?_, ?_, ?_⟩
            · rintro other (first | later)
              · exact .inl (good other first)
              · exact known other later
            · rintro ⟨other, rfl | later, stray⟩
              · exact (clean stray).elim
              · obtain ⟨found, member, bad⟩ := rejected ⟨other, later, stray⟩
                exact ⟨found, .inr member, bad⟩
            · intro none other member
              rcases member with first | later
              · exact good other first
              · exact readable (fun token inside => none token (.inr inside)) other later

/-- What the decoder accepts survives a second round trip exactly when the bytes hold
no stray global token. -/
theorem decode_encode_decode_iff (b : List UInt8) (doc : List Event)
    (accepted : decode b = .ok doc) :
    decode (encode doc) = .ok doc ↔ ∀ token ∈ tokenBytes b, token ∉ strayTokens := by
  cases header : decodeHeader b with
  | error e => simp [decode, header, bind, Except.bind] at accepted
  | ok body =>
    simp only [decode, header, bind, Except.bind, decodeBody] at accepted
    obtain ⟨known, rejected, readable⟩ := decodeLoop_events _ _ _ _ accepted
    rw [decode_encode_eq]
    simp only [tokenBytes, header]
    constructor
    · intro survives token member stray
      obtain ⟨e, failed⟩ := decodeFrom_encodeBody_rejected 0 doc known
        (rejected ⟨token, member, stray⟩)
      rw [failed] at survives
      cases survives
    · intro clean
      exact decodeFrom_encodeBody 0 doc (readable clean)

theorem decode_encode_decode_switch :
    decode (encode [.startElement 7 0x05 false]) = .ok [.startElement 7 0x05 false] := by
  have accepted : decode [0x03, 0x01, 0x6A, 0x00, 0x00, 0x07, 0x85] =
      .ok [.startElement 7 0x05 false] := by decide
  exact (decode_encode_decode_iff _ _ accepted).mpr (List.all_iff_forall_prop.mp (by decide))

/-- `0x82` is accepted as element 2, which is written as the rejected byte `0x02`. -/
theorem decode_encode_decode_stray :
    decode [0x03, 0x01, 0x6A, 0x00, 0x82] = .ok [.startElement 0 2 false] ∧
      decode (encode [.startElement 0 2 false]) = .error (.unsupportedToken 0x02) := by
  decide

end Expresso.Wbxml
