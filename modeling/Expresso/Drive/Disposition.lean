import Expresso.Text.Percent
import Expresso.Text.Utf8

/-! The header that names a downloaded file: once in plain characters, once in full. -/

namespace Expresso.Drive
open Text

/-- `char::is_ascii_graphic` -/
def isAsciiGraphic (c : Char) : Bool := 0x21 ≤ c.toNat && c.toNat ≤ 0x7E

def attrSymbols : List UInt8 := "!#$&+-.^_`|~".toList.map fun c => UInt8.ofNat c.toNat

def attrChar (c : UInt8) : Bool :=
  (0x30 ≤ c && c ≤ 0x39) || (0x41 ≤ c && c ≤ 0x5A) || (0x61 ≤ c && c ≤ 0x7A) || c ∈ attrSymbols

def percentEncodeFilename (name : Str) : Str := percentEncode attrChar (asBytes name)

def asciiChar (c : Char) : Char := if isAsciiGraphic c && c ≠ '"' && c ≠ '\\' then c else '_'

/-- The quoted name. -/
def asciiName (name : Str) : Str :=
  let ascii := name.map asciiChar
  if ascii.isEmpty then "download".toList else ascii

/-- What stands before the quoted name. -/
def headerOpening : Str := "attachment; filename=\"".toList

/-- What stands between the quoted name and the encoded one. -/
def headerMiddle : Str := "\"; filename*=UTF-8''".toList

def buildContentDisposition (name : Str) : Str :=
  headerOpening ++ asciiName name ++ headerMiddle ++ percentEncodeFilename name

/-- Neither a control character nor one beyond ASCII. -/
def Printable (c : Char) : Prop := 0x20 ≤ c.toNat ∧ c.toNat ≤ 0x7E

theorem attrChar_range {c : UInt8} (kept : attrChar c = true) :
    0x20 ≤ c.toNat ∧ c.toNat ≤ 0x7E ∧ c.toNat ≠ 37 := by
  have symbols : (attrSymbols.all fun c =>
      0x20 ≤ c.toNat && c.toNat ≤ 0x7E && c.toNat ≠ 37) = true := by decide
  simp only [attrChar, Bool.or_eq_true, Bool.and_eq_true, decide_eq_true_eq,
    UInt8.le_iff_toNat_le, UInt8.reduceToNat] at kept
  rcases kept with ((digit | upper) | lower) | symbol
  · omega
  · omega
  · omega
  · simpa [and_assoc] using List.all_eq_true.mp symbols c symbol

theorem asciiName_quoted (name : Str) : asciiName name ≠ [] ∧
    ∀ c ∈ asciiName name, isAsciiGraphic c = true ∧ c ≠ '"' ∧ c ≠ '\\' := by
  cases name with
  | nil =>
    have fallback : asciiName [] = "download".toList := rfl
    have plain : ("download".toList.all fun c =>
        isAsciiGraphic c && c ≠ '"' && c ≠ '\\') = true := by decide
    rw [fallback]
    exact ⟨by decide, fun c member => by simpa [and_assoc] using List.all_eq_true.mp plain c member⟩
  | cons first rest =>
    refine ⟨List.cons_ne_nil _ _, ?_⟩
    intro c member
    have listed : c ∈ (first :: rest).map asciiChar := member
    obtain ⟨d, -, rfl⟩ := List.mem_map.mp listed
    unfold asciiChar
    split
    · next plain => simpa [and_assoc] using plain
    · decide

theorem Printable.oneLine {c : Char} (printable : Printable c) : c ≠ '\r' ∧ c ≠ '\n' := by
  constructor
  · rintro rfl
    exact absurd printable.1 (by decide)
  · rintro rfl
    exact absurd printable.1 (by decide)

theorem hexUpper_printable {n : Nat} (digit : n < 16) : Printable (hexUpper n) := by
  have all : ∀ n < 16, 0x20 ≤ (hexUpper n).toNat ∧ (hexUpper n).toNat ≤ 0x7E := by decide
  exact all n digit

theorem percentEncodeFilename_printable (name : Str) :
    ∀ c ∈ percentEncodeFilename name, Printable c := by
  intro c member
  obtain ⟨b, -, written⟩ := List.mem_flatMap.mp member
  split at written
  · next kept =>
    obtain ⟨low, high, -⟩ := attrChar_range kept
    have value : (Char.ofNat b.toNat).toNat = b.toNat := toNat_ofNat_ascii (by omega)
    rw [List.mem_singleton.mp written]
    exact ⟨by omega, by omega⟩
  · have range := b.toNat_lt
    simp only [percentTriplet, List.mem_cons, List.not_mem_nil, or_false] at written
    rcases written with rfl | rfl | rfl
    · exact ⟨by decide, by decide⟩
    · exact hexUpper_printable (by omega)
    · exact hexUpper_printable (by omega)

theorem frame_printable : ∀ c ∈ headerOpening ++ headerMiddle, Printable c := by
  have frame : ((headerOpening ++ headerMiddle).all fun c =>
      0x20 ≤ c.toNat && c.toNat ≤ 0x7E) = true := by decide
  intro c member
  have range := List.all_eq_true.mp frame c member
  rw [Bool.and_eq_true, decide_eq_true_eq, decide_eq_true_eq] at range
  exact range

theorem isAsciiGraphic.printable {c : Char} (graphic : isAsciiGraphic c = true) : Printable c := by
  simp only [isAsciiGraphic, Bool.and_eq_true, decide_eq_true_eq] at graphic
  exact ⟨by omega, graphic.2⟩

theorem buildContentDisposition_printable (name : Str) :
    ∀ c ∈ buildContentDisposition name, Printable c := by
  intro c member
  rw [buildContentDisposition, List.mem_append, List.mem_append, List.mem_append] at member
  rcases member with ((front | plain) | between) | encoded
  · exact frame_printable c (List.mem_append_left _ front)
  · exact isAsciiGraphic.printable ((asciiName_quoted name).2 c plain).1
  · exact frame_printable c (List.mem_append_right _ between)
  · exact percentEncodeFilename_printable name c encoded

theorem percentDecode_filename (name : Str) :
    percentDecode (percentEncodeFilename name) = some (asBytes name) := by
  apply percentDecode_percentEncode
  intro b kept
  obtain ⟨-, high, other⟩ := attrChar_range kept
  exact ⟨by omega, fun same => other (same ▸ rfl)⟩

/-- For every name the header is of printable ASCII, the quoted name can be quoted, and the encoded
one decodes to the name in UTF-8. -/
theorem buildContentDisposition_safe (name : Str) :
    ∃ ascii encoded,
      buildContentDisposition name = headerOpening ++ ascii ++ headerMiddle ++ encoded ∧
      (∀ c ∈ buildContentDisposition name, Printable c ∧ c ≠ '\r' ∧ c ≠ '\n') ∧
      ascii ≠ [] ∧ '"' ∉ ascii ∧ '\\' ∉ ascii ∧
      Encoded attrChar encoded ∧ percentDecode encoded = some (asBytes name) := by
  obtain ⟨present, quoted⟩ := asciiName_quoted name
  have printable := buildContentDisposition_printable name
  refine ⟨asciiName name, percentEncodeFilename name, rfl, ?_, present, ?_, ?_, ?_, ?_⟩
  · exact fun c member => ⟨printable c member, (printable c member).oneLine⟩
  · exact fun member => (quoted _ member).2.1 rfl
  · exact fun member => (quoted _ member).2.2 rfl
  · exact encoded_percentEncode attrChar _
  · exact percentDecode_filename name

end Expresso.Drive
