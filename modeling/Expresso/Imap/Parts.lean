import Expresso.Imap.Lines
import Expresso.Text.Find
import Expresso.Text.Lossy
import Expresso.Text.Split
import Expresso.Text.Trim
import Expresso.Text.Wire

/-! The parts of a multipart, put together with a boundary and taken apart again. -/

namespace Expresso.Imap
open Text

/-- `--boundary` -/
def partDelimiter (boundary : Octets) : Octets := 45 :: 45 :: boundary

/-- Every part behind a delimiter line, and the line that closes the multipart with what is behind
it. -/
def assembleParts (boundary : Octets) (parts : List Octets) (epilogue : Octets) : Octets :=
  (parts.flatMap fun part => partDelimiter boundary ++ (wireEnd ++ (part ++ wireEnd))) ++
    (partDelimiter boundary ++ (45 :: 45 :: epilogue))

theorem assembleParts_cons (boundary part : Octets) (parts : List Octets) (epilogue : Octets) :
    assembleParts boundary (part :: parts) epilogue = partDelimiter boundary ++
      (wireEnd ++ ((part ++ wireEnd) ++ assembleParts boundary parts epilogue)) := by
  rw [assembleParts, List.flatMap_cons, assembleParts]
  simp only [List.append_assoc]

/-! ### One part -/

section
variable {boundary part rest : Octets}

theorem skipBreak_wireEnd (bytes : Octets) : skipBreak (wireEnd ++ bytes) = bytes := by
  have begins : [13, 10].isPrefixOf (wireEnd ++ bytes) = true :=
    List.isPrefixOf_iff_prefix.mpr (List.prefix_append wireEnd bytes)
  rw [skipBreak, if_pos begins]
  rfl

theorem trimBreak_wireEnd (bytes : Octets) : trimBreak (bytes ++ wireEnd) = bytes := by
  have ends : [13, 10].isSuffixOf (bytes ++ wireEnd) = true :=
    List.isSuffixOf_iff_suffix.mpr (List.suffix_append bytes wireEnd)
  rw [trimBreak, if_pos ends, List.length_append]
  exact List.take_left

theorem partsFrom_close (epilogue : Octets) :
    partsFrom boundary (partDelimiter boundary ++ (45 :: 45 :: epilogue)) = [] := by
  have found := position_of_prefix (List.prefix_append (partDelimiter boundary) (45 :: 45 :: epilogue))
  unfold partDelimiter at found ⊢
  rw [partsFrom]
  split
  · rfl
  next pos here =>
    rw [found] at here
    cases here
    rw [Nat.zero_add, List.drop_left]
    exact if_pos rfl

/-- A delimiter line, then what the loop makes of the bytes behind it. -/
theorem partsFrom_open (body : Octets) :
    partsFrom boundary (partDelimiter boundary ++ (wireEnd ++ body)) =
      trimBreak (body.take ((position (partDelimiter boundary) body).getD body.length)) ::
        partsFrom boundary
          (body.drop ((position (partDelimiter boundary) body).getD body.length)) := by
  have found := position_of_prefix (List.prefix_append (partDelimiter boundary) (wireEnd ++ body))
  unfold partDelimiter at found ⊢
  rw [partsFrom]
  split
  next missing => cases found.symm.trans missing
  next pos here =>
    rw [found] at here
    cases here
    rw [Nat.zero_add, List.drop_left]
    simp only [skipBreak_wireEnd]
    exact if_neg Bool.false_ne_true

/-- The delimiter is not in the part, also not with the carriage return behind it. -/
def Undelimited (boundary part : Octets) : Prop := ¬partDelimiter boundary <:+: part ++ [13]

theorem undelimited_iff (oneLine : 10 ∉ boundary) (short : Octets)
    (shorter : short.length < (partDelimiter boundary).length) :
    Undelimited boundary part ↔ ¬partDelimiter boundary <:+: (part ++ wireEnd) ++ short := by
  have absent : 10 ∉ partDelimiter boundary := by simp [partDelimiter, oneLine]
  have split : (part ++ wireEnd) ++ short = (part ++ [13]) ++ 10 :: short := by simp [wireEnd]
  have outside : ¬partDelimiter boundary <:+: short := fun inside =>
    absurd inside.length_le (Nat.not_le.mpr shorter)
  rw [split, infix_append_cons_iff absent, Undelimited]
  simp only [outside, or_false]

/-- A part without the delimiter comes out as it went in. -/
theorem partsFrom_part (oneLine : 10 ∉ boundary) (undelimited : Undelimited boundary part) :
    partsFrom boundary
        (partDelimiter boundary ++ (wireEnd ++ ((part ++ wireEnd) ++ (partDelimiter boundary ++ rest)))) =
      part :: partsFrom boundary (partDelimiter boundary ++ rest) := by
  have shorter : (partDelimiter boundary).dropLast.length < (partDelimiter boundary).length := by
    simp [partDelimiter]
  have found := position_append_of_not_infix
    ((undelimited_iff oneLine _ shorter).mp undelimited) rest
  rw [partsFrom_open, found, Option.getD_some, List.take_left, List.drop_left, trimBreak_wireEnd]

/-- A part with the delimiter is cut short. -/
theorem partsFrom_cut (delimited : ¬Undelimited boundary part) :
    ∃ first later, partsFrom boundary
        (partDelimiter boundary ++ (wireEnd ++ ((part ++ wireEnd) ++ (partDelimiter boundary ++ rest)))) =
      first :: later ∧ first.length < part.length := by
  have inside : partDelimiter boundary <:+: part ++ [13] := not_not.mp delimited
  obtain ⟨pos, found, within⟩ :=
    position_append_of_infix inside (10 :: (partDelimiter boundary ++ rest))
  have split : (part ++ wireEnd) ++ (partDelimiter boundary ++ rest) =
      (part ++ [13]) ++ 10 :: (partDelimiter boundary ++ rest) := by simp [wireEnd]
  refine ⟨_, _, partsFrom_open _, ?_⟩
  rw [split, found, Option.getD_some]
  have kept := trimBreak_length (((part ++ [13]) ++ 10 :: (partDelimiter boundary ++ rest)).take pos)
  rw [List.length_take] at kept
  simp only [partDelimiter, List.length_cons, List.length_append, List.length_nil] at within
  omega

end

/-- The parts come out as they went in if and only if none of them has the delimiter inside. The
induction is on the parts. -/
theorem partsFrom_assembleParts_iff {boundary : Octets} (oneLine : 10 ∉ boundary)
    (parts : List Octets) (epilogue : Octets) :
    partsFrom boundary (assembleParts boundary parts epilogue) = parts ↔
      ∀ part ∈ parts, Undelimited boundary part := by
  have starts (parts : List Octets) :
      ∃ rest, assembleParts boundary parts epilogue = partDelimiter boundary ++ rest := by
    cases parts with
    | nil => exact ⟨_, rfl⟩
    | cons part parts => exact ⟨_, assembleParts_cons boundary part parts epilogue⟩
  induction parts with
  | nil =>
    refine iff_of_true (partsFrom_close epilogue) ?_
    simp
  | cons part parts ih =>
    obtain ⟨rest, later⟩ := starts parts
    rw [assembleParts_cons, later, List.forall_mem_cons]
    by_cases undelimited : Undelimited boundary part
    · rw [partsFrom_part oneLine undelimited, List.cons_inj_right, ← later,
        and_iff_right undelimited]
      exact ih
    · obtain ⟨first, later, parted, shorter⟩ := partsFrom_cut undelimited
      rw [parted]
      simp only [undelimited, false_and, iff_false]
      intro same
      rw [(List.cons.inj same).1] at shorter
      exact absurd shorter (Nat.lt_irrefl _)

/-! ### The boundary of a message -/

theorem not_mem_lines {text line : Str} (member : line ∈ lines text) : '\n' ∉ line := by
  have pieces {piece : Str} (among : piece ∈ split '\n' text) : '\n' ∉ piece :=
    not_mem_of_mem_split among
  rw [lines, List.mem_append] at member
  cases member with
  | inl ended =>
    obtain ⟨piece, among, rfl⟩ := List.mem_map.mp ended
    have whole := pieces (List.mem_of_mem_dropLast among)
    cases stripped : stripSuffix ['\r'] piece with
    | none => exact whole
    | some bare =>
      intro inside
      simp only [stripSuffix] at stripped
      split at stripped
      · cases stripped
        exact whole (List.mem_of_mem_take inside)
      · cases stripped
  | inr last =>
    exact pieces (List.mem_of_getLast? (Option.mem_toList.mp (List.mem_filter.mp last).1))

theorem trimQuotes_subset (s : Str) : trimQuotes s ⊆ s := by
  intro c member
  rw [trimQuotes, List.mem_reverse] at member
  have inside := (List.dropWhile_suffix _).subset member
  exact (List.dropWhile_suffix _).subset (List.mem_reverse.mp inside)

/-- The values of the headers are on one line. -/
theorem unfoldHeader_oneLine {headers : List (Str × Str)} {line : Str} (oneLine : '\n' ∉ line)
    (before : ∀ header ∈ headers, '\n' ∉ header.2) :
    ∀ header ∈ unfoldHeader headers line, '\n' ∉ header.2 := by
  have trimmed {text : Str} (absent : '\n' ∉ text) : '\n' ∉ trim text :=
    fun inside => absent (trim_subset text inside)
  unfold unfoldHeader
  split
  next name value _ last =>
    rw [List.forall_mem_append, List.forall_mem_singleton]
    refine ⟨fun header member => before header (List.mem_of_mem_dropLast member), ?_⟩
    have known := before (name, value) (List.mem_of_getLast? last)
    have continuation := trimmed oneLine
    simp_all
  next =>
    split
    next name value parted =>
      rw [List.forall_mem_append, List.forall_mem_singleton]
      refine ⟨before, trimmed fun inside => oneLine ?_⟩
      rw [(splitOnce_some parted).1]
      simp [inside]
    next => exact before

theorem foldl_unfoldHeader_oneLine {ls : List Str} (oneLine : ∀ line ∈ ls, '\n' ∉ line)
    {headers : List (Str × Str)} (before : ∀ header ∈ headers, '\n' ∉ header.2) :
    ∀ header ∈ ls.foldl unfoldHeader headers, '\n' ∉ header.2 := by
  induction ls generalizing headers with
  | nil => exact before
  | cons line ls ih =>
    obtain ⟨here, later⟩ := List.forall_mem_cons.mp oneLine
    exact ih later (unfoldHeader_oneLine here before)

theorem contentParam_subset {param key value : Str} (read : contentParam param = some (key, value)) :
    value ⊆ param := by
  unfold contentParam at read
  split at read
  next k v parted =>
    simp only at read
    split at read
    · cases read
    · cases read
      intro c member
      apply trim_subset param
      rw [(splitOnce_some parted).1]
      exact List.mem_append_right k
        (List.mem_cons_of_mem '=' (trim_subset v (trimQuotes_subset (trim v) member)))
  next => cases read

/-- The headers are read by lines, so no boundary has a line feed. -/
theorem mimeBoundary_oneLine {raw : Octets} {boundary : Str}
    (declared : mimeBoundary raw = some boundary) : '\n' ∉ boundary := by
  unfold mimeBoundary parseContentType at declared
  simp only at declared
  generalize fromUtf8Lossy _ = text at declared
  have headers : ∀ header ∈ (lines text).foldl unfoldHeader [], '\n' ∉ header.2 :=
    foldl_unfoldHeader_oneLine (fun line member => not_mem_lines member) (by simp)
  generalize (lines text).foldl unfoldHeader [] = fields at declared headers
  have line : '\n' ∉ (fields.lookup "content-type".toList).getD "text/plain".toList := by
    cases found : fields.lookup "content-type".toList with
    | none => decide
    | some value =>
      obtain ⟨front, back, whole, -⟩ := List.lookup_eq_some_iff.mp found
      exact headers (_, value) (whole ▸ List.mem_append_right front List.mem_cons_self)
  generalize (fields.lookup "content-type".toList).getD "text/plain".toList = value at declared line
  have params : '\n' ∉ ((splitOnce ';' value).getD (value, [])).2 := by
    cases parted : splitOnce ';' value with
    | none => simp
    | some halves =>
      intro inside
      apply line
      rw [(splitOnce_some (a := halves.1) (b := halves.2) parted).1]
      exact List.mem_append_right _ (List.mem_cons_of_mem _ inside)
  generalize (splitOnce ';' value).getD (value, []) = halves at declared params
  split at declared
  next type subtype _ =>
    obtain ⟨front, back, whole, -⟩ := List.lookup_eq_some_iff.mp declared
    have member : ("boundary".toList, boundary) ∈ (split ';' halves.2).filterMap contentParam := by
      change (split ';' halves.2).filterMap contentParam = _ at whole
      exact whole ▸ List.mem_append_right front List.mem_cons_self
    obtain ⟨param, among, read⟩ := List.mem_filterMap.mp member
    exact fun inside => params (subset_of_mem_split among (contentParam_subset read inside))
  next => cases declared

/-- A boundary that can be written between quotes. -/
structure Quotable (boundary : Str) : Prop where
  unquoted : '"' ∉ boundary
  single : ';' ∉ boundary
  oneLine : '\n' ∉ boundary

/-- A message with the boundary in its only header. -/
def multipartMessage (boundary : Str) (body : Octets) : Octets :=
  asBytes ("Content-Type: multipart/mixed; boundary=\"".toList ++ boundary ++ ['"']) ++
    (separator ++ body)

section
variable {boundary : Str}

theorem position_multipartMessage (quotable : Quotable boundary) (body : Octets) :
    position separator (multipartMessage boundary body) =
      some (asBytes ("Content-Type: multipart/mixed; boundary=\"".toList ++ boundary ++
        ['"'])).length := by
  apply position_append_of_not_infix
  intro inside
  have none : 10 ∉ asBytes ("Content-Type: multipart/mixed; boundary=\"".toList ++ boundary ++
      ['"']) := by
    intro among
    have feed := ascii_mem_asBytes (c := '\n') (by decide) rfl among
    rw [List.mem_append, List.mem_append] at feed
    exact feed.elim (fun front => front.elim (by decide) quotable.oneLine) (by decide)
  have count := inside.sublist.count_le 10
  rw [List.count_append, List.count_eq_zero_of_not_mem none] at count
  exact absurd count (by decide)

theorem emailTextBytes_multipartMessage (quotable : Quotable boundary) (body : Octets) :
    emailTextBytes (multipartMessage boundary body) = body := by
  rw [emailTextBytes, position_multipartMessage quotable]
  show (multipartMessage boundary body).drop (_ + 4) = body
  rw [multipartMessage, ← List.drop_drop, List.drop_left]
  rfl

theorem trim_quoted {front : Str} {c : Char} (starts : isWhitespace c = false) (text : Str) :
    trim (c :: (front ++ text ++ ['"'])) = c :: (front ++ text ++ ['"']) := by
  rw [trim_eq_self_iff]
  refine ⟨fun d first => ?_, fun d last => ?_⟩
  · cases first
    exact starts
  · rw [← List.cons_append, List.getLast?_concat] at last
    cases last
    decide

theorem contentParam_boundary (quotable : Quotable boundary) :
    contentParam (" boundary=\"".toList ++ boundary ++ ['"']) =
      some ("boundary".toList, boundary) := by
  have name : trim (" boundary=\"".toList ++ boundary ++ ['"']) =
      "boundary".toList ++ '=' :: ('"' :: boundary ++ ['"']) := by
    have blank := @trim_blank_append [' '] (List.forall_mem_singleton.mpr (by decide))
      ('b' :: ("oundary=\"".toList ++ boundary ++ ['"']))
    rw [trim_quoted (by decide)] at blank
    exact blank
  have value : trim ('"' :: boundary ++ ['"']) = '"' :: boundary ++ ['"'] :=
    @trim_quoted [] '"' (by decide) boundary
  unfold contentParam
  rw [name, splitOnce_append (by decide)]
  simp only [value, trimQuotes_quoted quotable.unquoted]
  rfl

theorem mimeBoundary_multipartMessage (quotable : Quotable boundary) (body : Octets) :
    mimeBoundary (multipartMessage boundary body) = some boundary := by
  have header : (multipartMessage boundary body).take (asBytes
      ("Content-Type: multipart/mixed; boundary=\"".toList ++ boundary ++ ['"'])).length =
        asBytes ("Content-Type: multipart/mixed; boundary=\"".toList ++ boundary ++ ['"']) :=
    List.take_left
  have oneLine : '\n' ∉ "Content-Type: multipart/mixed; boundary=\"".toList ++ boundary ++ ['"'] := by
    intro feed
    rw [List.mem_append, List.mem_append] at feed
    exact feed.elim (fun front => front.elim (by decide) quotable.oneLine) (by decide)
  have field : unfoldHeader [] ("Content-Type: multipart/mixed; boundary=\"".toList ++ boundary ++
      ['"']) = [("content-type".toList,
        "multipart/mixed; boundary=\"".toList ++ boundary ++ ['"'])] := by
    have parted : splitOnce ':' ("Content-Type: multipart/mixed; boundary=\"".toList ++ boundary ++
        ['"']) = some ("Content-Type".toList,
          " multipart/mixed; boundary=\"".toList ++ boundary ++ ['"']) :=
      splitOnce_append (a := "Content-Type".toList) (by decide)
        (" multipart/mixed; boundary=\"".toList ++ boundary ++ ['"'])
    have value : trim (" multipart/mixed; boundary=\"".toList ++ boundary ++ ['"']) =
        "multipart/mixed; boundary=\"".toList ++ boundary ++ ['"'] := by
      have blank := @trim_blank_append [' '] (List.forall_mem_singleton.mpr (by decide))
        ('m' :: ("ultipart/mixed; boundary=\"".toList ++ boundary ++ ['"']))
      rw [trim_quoted (by decide)] at blank
      exact blank
    simp only [unfoldHeader, List.getLast?_nil]
    rw [parted]
    simp only [value]
    rfl
  have read : parseContentType (multipartMessage boundary body) =
      ⟨"multipart".toList, "mixed".toList, [("boundary".toList, boundary)], "7BIT".toList⟩ := by
    have parted : splitOnce ';' ("multipart/mixed; boundary=\"".toList ++ boundary ++ ['"']) =
        some ("multipart/mixed".toList, " boundary=\"".toList ++ boundary ++ ['"']) :=
      splitOnce_append (a := "multipart/mixed".toList) (by decide)
        (" boundary=\"".toList ++ boundary ++ ['"'])
    have whole : split ';' (" boundary=\"".toList ++ boundary ++ ['"']) =
        [" boundary=\"".toList ++ boundary ++ ['"']] := by
      apply split_of_not_mem
      intro inside
      rw [List.mem_append, List.mem_append] at inside
      exact inside.elim (fun front => front.elim (by decide) quotable.single) (by decide)
    unfold parseContentType
    simp only [position_multipartMessage quotable, header, fromUtf8Lossy_asBytes]
    rw [lines_single oneLine (by simp), List.foldl_cons, List.foldl_nil, field]
    simp only [List.lookup_cons_self, Option.getD_some, parted, whole, List.filterMap_cons,
      contentParam_boundary quotable]
    rfl
  rw [mimeBoundary, read]
  exact List.lookup_cons_self

end

/-- A message comes apart into the parts it was put together from if and only if no part has the
delimiter inside, at the beginning of a line or not. -/
theorem mimeSplitParts_assembleParts_iff {raw : Octets} {boundary : Str} {parts : List Octets}
    {epilogue : Octets} (declared : mimeBoundary raw = some boundary)
    (body : emailTextBytes raw = assembleParts (asBytes boundary) parts epilogue) :
    mimeSplitParts raw = parts ↔ ∀ part ∈ parts, Undelimited (asBytes boundary) part := by
  have oneLine : 10 ∉ asBytes boundary := fun inside =>
    mimeBoundary_oneLine declared (ascii_mem_asBytes (by decide) rfl inside)
  rw [mimeSplitParts, declared]
  show partsFrom (asBytes boundary) (emailTextBytes raw) = parts ↔ _
  rw [body]
  exact partsFrom_assembleParts_iff oneLine parts epilogue

/-! ### A short boundary -/

theorem quotable_short : Quotable ['b'] := ⟨by decide, by decide, by decide⟩

/-- Two parts, the second one empty, and an epilogue. -/
theorem mimeSplitParts_two :
    mimeSplitParts (multipartMessage ['b'] (assembleParts (asBytes ['b'])
        [asBytes "a\r\n\r\nx -- b".toList, []] (asBytes "--b".toList))) =
      [asBytes "a\r\n\r\nx -- b".toList, []] := by
  apply (mimeSplitParts_assembleParts_iff (mimeBoundary_multipartMessage quotable_short _)
    (emailTextBytes_multipartMessage quotable_short _)).mpr
  unfold Undelimited
  decide

/-- The delimiter stands in the middle of a line. -/
theorem mimeSplitParts_midLine :
    mimeSplitParts (multipartMessage ['b'] (assembleParts (asBytes ['b'])
        [asBytes "x --b y".toList] [])) ≠ [asBytes "x --b y".toList] := by
  rw [mimeSplitParts, mimeBoundary_multipartMessage quotable_short]
  show partsFrom _ (emailTextBytes _) ≠ _
  rw [emailTextBytes_multipartMessage quotable_short]
  intro same
  have undelimited := (partsFrom_assembleParts_iff (by decide) _ _).mp same _
    (List.mem_singleton_self _)
  exact undelimited ⟨asBytes "x ".toList, asBytes " y\r".toList, by decide⟩

end Expresso.Imap
