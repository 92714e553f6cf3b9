import Expresso.Ingest.Parse
import Expresso.Text.Split
import Expresso.Text.Trim
import Mathlib.Data.Bool.AllAny
import Mathlib.Data.List.TakeWhile

/-! Address lists: the entries of a header field, written `"name" <addr>`, and what
`parse_address_list_json` reads of them. -/

namespace Expresso.Ingest
open Text Imap

/-- A display name and an address that `"name" <addr>` can carry. -/
structure NamedAddress where
  name : Str
  addr : Str
  nonempty : name ≠ []
  trimmed : trim name = name
  unquoted : '"' ∉ name
  unbracketed : '<' ∉ addr ∧ '>' ∉ addr
  unspaced : ∀ c ∈ addr, isWhitespace c = false

def NamedAddress.formatted (a : NamedAddress) : Str :=
  ('"' :: a.name ++ ['"', ' ']) ++ '<' :: (a.addr ++ ['>'])

def NamedAddress.entry (a : NamedAddress) : AddrEntry := ⟨some a.addr, some a.name⟩

def formatList (entries : List NamedAddress) : Str :=
  [',', ' '].intercalate (entries.map (·.formatted))

/-! ### One entry -/

theorem lastIndex_append {c : Char} {after : Str} (last : c ∉ after) (before : Str) :
    lastIndex c (before ++ c :: after) = some before.length := by
  have place : (before ++ c :: after).reverse.idxOf c = after.length := by
    rw [List.reverse_append, List.reverse_cons, List.append_assoc,
      List.idxOf_append_of_notMem (by simpa using last)]
    simp
  rw [lastIndex, if_pos (by simp), place]
  simp

/-- A name before the last angles, and the address in them. -/
theorem parse_bracketed {raw before addr : Str} (unbracketed : '<' ∉ addr ∧ '>' ∉ addr)
    (text : trim raw = before ++ '<' :: (addr ++ ['>'])) :
    parseSingleAddress raw = (notEmpty (trimQuotes (trim before)), notEmpty (trim addr)) := by
  have ended : trim raw = (before ++ '<' :: addr) ++ '>' :: [] := by
    rw [text, List.append_assoc, List.cons_append]
  have start : lastIndex '<' (trim raw) = some before.length := by
    rw [text, lastIndex_append (by simp [unbracketed.1])]
  have stop : lastIndex '>' (trim raw) = some (before ++ '<' :: addr).length := by
    rw [ended, lastIndex_append (by simp)]
  have ordered : before.length < (before ++ '<' :: addr).length := by
    rw [List.length_append, List.length_cons]
    omega
  have name : (trim raw).take before.length = before := by rw [text, List.take_left]
  have inside : ((trim raw).take (before ++ '<' :: addr).length).drop (before.length + 1) = addr := by
    rw [ended, List.take_left, List.append_cons]
    exact List.drop_left' (by simp)
  simp only [parseSingleAddress, start, stop, if_pos ordered, inside, name]

namespace NamedAddress
variable (a : NamedAddress)

theorem trim_formatted : trim a.formatted = a.formatted := by
  rw [trim_eq_self_iff]
  constructor
  · intro c first
    cases first
    decide
  · intro c last
    have final : a.formatted.getLast? = some '>' := by
      unfold formatted
      rw [← List.cons_append, ← List.append_assoc, List.getLast?_concat]
    rw [final] at last
    cases last
    decide

theorem trim_addr : trim a.addr = a.addr :=
  trim_eq_self_iff.mpr ⟨fun c first => a.unspaced c (List.mem_of_mem_head? first),
    fun c last => a.unspaced c (List.mem_of_mem_getLast? last)⟩

theorem trim_quotedName : trim ('"' :: a.name ++ ['"', ' ']) = '"' :: a.name ++ ['"'] := by
  have whole : '"' :: a.name ++ ['"', ' '] = ('"' :: a.name ++ ['"']) ++ [' '] := by simp
  have quoted : trim ('"' :: a.name ++ ['"']) = '"' :: a.name ++ ['"'] := by
    rw [trim_eq_self_iff]
    constructor
    · intro c first
      cases first
      decide
    · intro c last
      rw [List.getLast?_concat] at last
      cases last
      decide
  rw [whole, trim_append_blank (List.forall_mem_singleton.mpr (by decide)), quoted]

/-- The angles of the address are the last ones; an empty address is none. -/
theorem parse_formatted {blank : Str} (blanks : ∀ c ∈ blank, isWhitespace c = true) :
    parseSingleAddress (blank ++ a.formatted) = (some a.name, notEmpty a.addr) := by
  have text : trim (blank ++ a.formatted) =
      ('"' :: a.name ++ ['"', ' ']) ++ '<' :: (a.addr ++ ['>']) := by
    rw [trim_blank_append blanks, a.trim_formatted]
    rfl
  rw [parse_bracketed a.unbracketed text, a.trim_quotedName, trimQuotes_quoted a.unquoted,
    a.trim_addr, notEmpty, if_neg a.nonempty]

end NamedAddress

/-! ### The list -/

theorem formatList_cons (a : NamedAddress) (rest : List NamedAddress) (more : rest ≠ []) :
    formatList (a :: rest) = a.formatted ++ ',' :: ' ' :: formatList rest := by
  cases rest with
  | nil => exact absurd rfl more
  | cons b rest => simp [formatList, List.intercalate]

theorem count_formatted (a : NamedAddress) :
    a.formatted.count ',' = a.name.count ',' + a.addr.count ',' := by
  simp [NamedAddress.formatted, List.count_append]

/-- One comma behind every entry but the last, and those of the names and addresses. -/
theorem count_formatList {entries : List NamedAddress} (some_ : entries ≠ []) :
    (formatList entries).count ',' + 1 =
      entries.length + (entries.map fun a => a.name.count ',' + a.addr.count ',').sum := by
  induction entries with
  | nil => exact absurd rfl some_
  | cons a rest ih =>
    by_cases more : rest = []
    · subst more
      simp [formatList, List.intercalate, count_formatted, Nat.add_comm]
    · rw [formatList_cons a rest more, List.count_append, List.count_cons_self,
        List.count_cons_of_ne (by decide), count_formatted, List.length_cons, List.map_cons,
        List.sum_cons]
      have later := ih more
      omega

theorem split_formatList {a : NamedAddress} {rest : List NamedAddress}
    (noComma : ∀ e ∈ a :: rest, ',' ∉ e.formatted) :
    split ',' (formatList (a :: rest)) = a.formatted :: rest.map fun e => ' ' :: e.formatted := by
  induction rest generalizing a with
  | nil =>
    have single : formatList [a] = a.formatted := by simp [formatList, List.intercalate]
    rw [single, split_of_not_mem (noComma a List.mem_cons_self)]
    rfl
  | cons b rest ih =>
    have later := ih fun e member => noComma e (List.mem_cons_of_mem a member)
    rw [formatList_cons a (b :: rest) (List.cons_ne_nil _ _),
      split_append_cons (noComma a List.mem_cons_self)]
    have blank : split ',' (' ' :: formatList (b :: rest)) =
        (' ' :: b.formatted) :: rest.map fun e => ' ' :: e.formatted := by
      rw [split, if_neg (by decide), later]
    rw [blank]
    rfl

theorem trim_formatList_ne_nil (a : NamedAddress) (rest : List NamedAddress) :
    trim (formatList (a :: rest)) ≠ [] := by
  have first : ∃ more, formatList (a :: rest) = '"' :: more := by
    cases rest with
    | nil => exact ⟨_, by simp [formatList, List.intercalate, NamedAddress.formatted]; rfl⟩
    | cons b rest => exact ⟨_, formatList_cons a _ (List.cons_ne_nil _ _)⟩
  obtain ⟨more, text⟩ := first
  have start : trimStart ('"' :: more) = '"' :: more :=
    trimStart_of_head fun c head => by cases head; decide
  intro none
  rw [text, trim, start, trimEnd, List.reverse_eq_nil_iff, List.dropWhile_eq_nil_iff] at none
  exact absurd (none '"' (by simp)) (by decide)

theorem parse_formatList {entries : List NamedAddress}
    (noComma : ∀ e ∈ entries, ',' ∉ e.formatted) :
    parseAddressListJson (formatList entries) =
      entries.map fun e => ⟨notEmpty e.addr, some e.name⟩ := by
  cases entries with
  | nil => rfl
  | cons a rest =>
    rw [parseAddressListJson, if_neg (trim_formatList_ne_nil a rest), split_formatList noComma,
      List.map_cons, List.map_cons, List.map_map]
    have first := @NamedAddress.parse_formatted a [] (by simp)
    rw [List.nil_append] at first
    rw [first]
    congr 1
    refine List.map_congr_left fun e _ => ?_
    have other := @NamedAddress.parse_formatted e [' '] (List.forall_mem_singleton.mpr (by decide))
    show AddrEntry.mk (parseSingleAddress ([' '] ++ e.formatted)).2
      (parseSingleAddress ([' '] ++ e.formatted)).1 = _
    rw [other]

/-- A list is read back if and only if no name and no address has a comma, and no address is
empty. -/
theorem addressList_reads_back_iff (entries : List NamedAddress) :
    parseAddressListJson (formatList entries) = entries.map (·.entry) ↔
      ∀ a ∈ entries, ',' ∉ a.name ∧ ',' ∉ a.addr ∧ a.addr ≠ [] := by
  have counted : (parseAddressListJson (formatList entries)).length = entries.length ↔
      ∀ a ∈ entries, ',' ∉ a.formatted := by
    cases entries with
    | nil => simp [parseAddressListJson, formatList, List.intercalate, trim, trimStart, trimEnd]
    | cons a rest =>
      have commas := count_formatList (List.cons_ne_nil a rest)
      rw [parseAddressListJson, if_neg (trim_formatList_ne_nil a rest), List.length_map,
        split_length, commas, Nat.add_eq_left, List.sum_eq_zero_iff_forall_eq_nat, List.forall_mem_map]
      refine forall₂_congr fun e _ => ?_
      rw [← count_formatted, List.count_eq_zero]
  constructor
  · intro back
    have noComma := counted.mp (by rw [back, List.length_map])
    rw [parse_formatList noComma, List.map_inj_left] at back
    intro a member
    have none := noComma a member
    rw [← List.count_eq_zero, count_formatted, Nat.add_eq_zero_iff, List.count_eq_zero,
      List.count_eq_zero] at none
    refine ⟨none.1, none.2, fun empty => ?_⟩
    have read := congrArg AddrEntry.addr (back a member)
    rw [empty] at read
    cases read
  · intro clean
    have noComma : ∀ a ∈ entries, ',' ∉ a.formatted := by
      intro a member
      obtain ⟨name, addr, -⟩ := clean a member
      rw [← List.count_eq_zero, count_formatted, List.count_eq_zero.mpr name,
        List.count_eq_zero.mpr addr]
    rw [parse_formatList noComma, List.map_inj_left]
    intro a member
    rw [NamedAddress.entry, notEmpty, if_neg (clean a member).2.2]

def lastFirst : NamedAddress where
  name := "Silva, Ana".toList
  addr := "ana@x.br".toList
  nonempty := by decide
  trimmed := by decide
  unquoted := by decide
  unbracketed := by decide
  unspaced := List.all_iff_forall_prop.mp (by decide)

/-- A comma in a name makes two entries of one. -/
theorem addressList_comma_in_name :
    parseAddressListJson (formatList [lastFirst]) =
        [⟨none, none⟩, ⟨some "ana@x.br".toList, some "Ana".toList⟩] ∧
      parseAddressListJson (formatList [lastFirst]) ≠ [lastFirst].map (·.entry) := by
  decide

end Expresso.Ingest
