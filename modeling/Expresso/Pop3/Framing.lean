import Expresso.Pop3.Session

/-! What a client reads of a multi-line reply, and that `RETR` and `TOP` frame every message. -/

namespace Expresso.Pop3
open Text Ingest

/-! ### The client's reading -/

/-- A line of a single dot, whatever ends it. -/
def LoneDot (line : Octets) : Prop := ∃ ending ∈ [[], [10], wireEnd], line = 46 :: ending

/-- One leading dot is removed. -/
def undotted (line : Octets) : Octets := if line.head? = some 46 then line.tail else line

/-- A status line, the lines of the payload and of one more line end, and a lone dot, the first. -/
def Framed (reply payload : Octets) : Prop :=
  ∃ (status : Octets) (body : List Octets) (terminator : Octets),
    wireLines reply = status :: (body ++ [terminator]) ∧
    LoneDot terminator ∧ (∀ line ∈ status :: body, ¬LoneDot line) ∧
    (body.map undotted).flatten = payload ++ wireEnd

/-- The lines after the first blank line. -/
def bodyLines (raw : Octets) : List Octets :=
  match position separator raw with
  | none => []
  | some pos => wireLines (raw.drop (pos + 4))

/-- What `RETR` and `TOP` are to carry: the message, or its headers and so many lines of its body. -/
def selected (raw : Octets) (topLines : Option UInt32) : Octets :=
  match topLines, position separator raw with
  | some n, some pos => raw.take (pos + 4) ++ ((bodyLines raw).take n.toNat).flatten
  | _, _ => raw

/-! ### The cut -/

theorem topLoop_eq (limit taken : Nat) (line out rest : Octets) (more : taken < limit) :
    (let (out', taken', left) := topLoop limit taken line out rest
      if taken' < limit ∧ left ≠ [] then out' ++ left else out') =
    out ++ ((wireLinesFrom line rest).take (limit - taken)).flatten := by
  induction rest generalizing taken line out with
  | nil =>
    by_cases empty : line = []
    · simp [topLoop, wireLinesFrom, empty]
    · have one : limit - taken = limit - taken - 1 + 1 := by omega
      rw [one]
      simp [topLoop, wireLinesFrom, empty, more]
  | cons b rest ih =>
    by_cases feed : b = 10
    · by_cases last : limit ≤ taken + 1
      · have one : limit - taken = 1 := by omega
        have full : ¬taken + 1 < limit := Nat.not_lt.mpr last
        simp [topLoop, wireLinesFrom, feed, last, full, one]
      · have fewer : limit - taken = limit - (taken + 1) + 1 := by omega
        have later := ih (taken + 1) [] (out ++ (line ++ [b])) (by omega)
        unfold topLoop wireLinesFrom
        rw [if_pos feed, if_neg last, if_pos feed, later, fewer, List.take_succ_cons,
          List.flatten_cons, List.append_assoc out]
    · unfold topLoop wireLinesFrom
      rw [if_neg feed, if_neg feed]
      exact ih taken (line ++ [b]) out more

theorem topBytes_eq (raw : Octets) (n : UInt32) : topBytes raw n.toNat = selected raw (some n) := by
  unfold topBytes selected bodyLines
  cases position separator raw with
  | none => rfl
  | some pos =>
    by_cases zero : n.toNat = 0
    · simp [zero]
    · have cut := topLoop_eq n.toNat 0 [] (raw.take (pos + 4)) (raw.drop (pos + 4)) (by omega)
      simp only [zero, ↓reduceIte]
      exact cut

theorem selected_all (raw : Octets) (n : UInt32) (all : (bodyLines raw).length ≤ n.toNat) :
    selected raw (some n) = raw := by
  unfold selected
  cases found : position separator raw with
  | none => rfl
  | some pos =>
    have lines : bodyLines raw = wireLines (raw.drop (pos + 4)) := by rw [bodyLines, found]
    calc raw.take (pos + 4) ++ ((bodyLines raw).take n.toNat).flatten
      _ = raw.take (pos + 4) ++ (wireLines (raw.drop (pos + 4))).flatten := by
        rw [List.take_of_length_le all, lines]
      _ = raw := by rw [flatten_wireLines, List.take_append_drop]

/-! ### Dot stuffing -/

def dotted (line : Octets) : Octets := if line.head? = some 46 then 46 :: line else line

theorem undotted_dotted (line : Octets) : undotted (dotted line) = line := by
  unfold dotted undotted
  by_cases first : line.head? = some 46
  · rw [if_pos first]
    rfl
  · rw [if_neg first, if_neg first]

theorem dotted_not_loneDot (line : Octets) : ¬LoneDot (dotted line) := by
  intro lone
  obtain ⟨ending, known, same⟩ := lone
  unfold dotted at same
  split at same
  · next first =>
    have rest : line = ending := List.tail_eq_of_cons_eq same
    rw [rest] at first
    revert known first
    simp only [List.mem_cons, List.not_mem_nil, or_false]
    rintro (rfl | rfl | rfl) first <;> simp [wireEnd] at first
  · next first => exact first (by rw [same]; rfl)

theorem dotted_terminated {line : Octets} (terminated : Terminated line) :
    Terminated (dotted line) := by
  unfold dotted
  split
  · obtain ⟨inside, single, rfl⟩ := terminated
    exact ⟨46 :: inside, List.not_mem_cons_of_ne_of_not_mem (by decide) single, rfl⟩
  · exact terminated

theorem dotStuffFrom_inside (inside rest : Octets) (single : 10 ∉ inside) :
    dotStuffFrom false (inside ++ 10 :: rest) = inside ++ 10 :: dotStuff rest := by
  induction inside with
  | nil => simp [dotStuffFrom, dotStuff]
  | cons b inside ih =>
    have other : b ≠ 10 := fun same => single (same ▸ List.mem_cons_self)
    have later : 10 ∉ inside := fun member => single (List.mem_cons_of_mem _ member)
    simp only [List.cons_append, dotStuffFrom, Bool.false_and, Bool.false_eq_true, ↓reduceIte,
      other, decide_false, ih later]

theorem dotStuff_line {line : Octets} (rest : Octets) (terminated : Terminated line) :
    dotStuff (line ++ rest) = dotted line ++ dotStuff rest := by
  obtain ⟨inside, single, rfl⟩ := terminated
  cases inside with
  | nil => simp [dotStuff, dotStuffFrom, dotted]
  | cons b inside =>
    have other : b ≠ 10 := fun same => single (same ▸ List.mem_cons_self)
    have later : 10 ∉ inside := fun member => single (List.mem_cons_of_mem _ member)
    have inner := dotStuffFrom_inside inside rest later
    by_cases dot : b = 46
    · subst dot
      simp [dotStuff, dotStuffFrom, dotted] at inner ⊢
      exact inner
    · simp [dotStuff, dotStuffFrom, dotted, dot, other] at inner ⊢
      exact inner

theorem dotStuff_lines (lines : List Octets) (terminated : ∀ line ∈ lines, Terminated line) :
    dotStuff lines.flatten = (lines.map dotted).flatten := by
  induction lines with
  | nil => rfl
  | cons line lines ih =>
    obtain ⟨first, others⟩ := List.forall_mem_cons.mp terminated
    rw [List.flatten_cons, dotStuff_line _ first, ih others, List.map_cons, List.flatten_cons]

theorem dotStuffFrom_end (start : Bool) (raw : Octets) :
    dotStuffFrom start raw ++ wireEnd = dotStuffFrom start (raw ++ wireEnd) := by
  induction raw generalizing start with
  | nil => cases start <;> rfl
  | cons b raw ih =>
    simp only [List.cons_append, dotStuffFrom]
    split
    · rw [List.cons_append, List.cons_append, ih]
    · rw [List.cons_append, ih]

/-- The payload and its line end are a list of lines. -/
theorem ended_lines (payload : Octets) :
    ∃ lines : List Octets, (∀ line ∈ lines, Terminated line) ∧
      payload ++ wireEnd = lines.flatten := by
  obtain ⟨lines, left, terminated, single, same⟩ := exists_lines payload
  have last : Terminated (left ++ wireEnd) :=
    ⟨left ++ [13], by simp [single], by simp [wireEnd]⟩
  refine ⟨lines ++ [left ++ wireEnd], fun line member => ?_, by simp [same]⟩
  rcases List.mem_append.mp member with inside | final
  · exact terminated line inside
  · rw [List.mem_singleton.mp final]
    exact last

theorem framed (status payload : Octets) (terminated : Terminated status)
    (answer : status.head? = some 43) :
    Framed (status ++ dotStuff payload ++ (wireEnd ++ 46 :: wireEnd)) payload := by
  obtain ⟨lines, ended, same⟩ := ended_lines payload
  have stuffed : dotStuff payload ++ wireEnd = (lines.map dotted).flatten := by
    rw [← dotStuff_lines lines ended, ← same]
    exact dotStuffFrom_end true payload
  have each : ∀ line ∈ status :: lines.map dotted, Terminated line := by
    refine List.forall_mem_cons.mpr ⟨terminated, fun line member => ?_⟩
    obtain ⟨source, inside, rfl⟩ := List.mem_map.mp member
    exact dotted_terminated (ended source inside)
  refine ⟨status, lines.map dotted, 46 :: wireEnd, ?_, ⟨wireEnd, by simp, rfl⟩, ?_, ?_⟩
  · calc wireLines (status ++ dotStuff payload ++ (wireEnd ++ 46 :: wireEnd))
      _ = wireLines ((status :: lines.map dotted).flatten ++ 46 :: wireEnd) := by
        rw [List.flatten_cons, ← stuffed]
        simp only [List.append_assoc]
      _ = (status :: lines.map dotted) ++ wireLines (46 :: wireEnd) := wireLines_append _ _ each
      _ = status :: (lines.map dotted ++ [46 :: wireEnd]) := rfl
  · refine List.forall_mem_cons.mpr ⟨fun lone => ?_, fun line member => ?_⟩
    · obtain ⟨ending, _, dot⟩ := lone
      rw [dot] at answer
      exact absurd answer (by simp)
    · obtain ⟨source, _, rfl⟩ := List.mem_map.mp member
      exact dotted_not_loneDot source
  · have back : (lines.map dotted).map undotted = lines := by
      rw [List.map_map]
      exact List.map_id'' undotted_dotted lines
    rw [back, same]

/-! ### The replies -/

theorem newline_not_display (n : Int) : '\n' ∉ display n := by
  have digit : ∀ m : Nat, '\n' ∉ Nat.toDigits 10 m := fun m member => by
    have decimal : '\n'.isDigit = true :=
      Nat.isDigit_of_mem_toDigits (b := 10) (by decide) (by decide) member
    exact absurd decimal (by decide)
  cases n with
  | ofNat m => exact digit m
  | negSucc m =>
    exact List.not_mem_cons_of_ne_of_not_mem (by decide) (digit (m + 1))

theorem asBytes_terminated (text : Str) (single : '\n' ∉ text) :
    Terminated (asBytes (text ++ ['\n'])) := by
  refine ⟨asBytes text, fun member => ?_, asBytes_append text ['\n']⟩
  exact single (ascii_mem_asBytes (by decide) (by decide) member)

theorem retr_framed (fetchBody : Str → Option Octets) (md : Maildrop) (num : UInt32) (slot : Slot)
    (path : Str) (raw : Octets) (live : (md.live num).bind (md.slots[·]?) = some slot)
    (stored : slot.msg.bodyPath = some path) (found : fetchBody path = some raw) :
    (∀ topLines, ∃ reply,
      retr fetchBody md num topLines = [reply] ∧ Framed reply (selected raw topLines)) ∧
    ∀ n : UInt32, (bodyLines raw).length ≤ n.toNat → selected raw (some n) = selected raw none := by
  refine ⟨fun topLines => ?_, selected_all raw⟩
  unfold retr
  simp only [live, stored, found]
  cases topLines with
  | some n =>
    refine ⟨_, rfl, ?_⟩
    simp only [topBytes_eq]
    exact framed _ _ (asBytes_terminated "+OK top of message follows\r".toList (by decide))
      (by decide)
  | none =>
    refine ⟨_, rfl, ?_⟩
    have text : "+OK ".toList ++ display raw.length ++ " octets\r\n".toList =
        ("+OK ".toList ++ display raw.length ++ " octets\r".toList) ++ ['\n'] := by
      rw [List.append_assoc _ " octets\r".toList]
      rfl
    have single : '\n' ∉ "+OK ".toList ++ display raw.length ++ " octets\r".toList := by
      have number := newline_not_display raw.length
      simp only [List.mem_append, not_or]
      exact ⟨⟨by decide, number⟩, by decide⟩
    rw [text]
    exact framed _ _ (asBytes_terminated _ single) rfl

/-- A body with a line of a dot, and without a last line end. -/
def dots : Octets := asBytes "A: b\r\n\r\n.\n..\r\nx".toList

def dotsDrop : Maildrop := .fresh 1 2 [⟨3, 15, some "/m".toList⟩]

theorem retr_framed_dots :
    ∃ reply, retr (fun _ => some dots) dotsDrop 1 (some 1) = [reply] ∧
      Framed reply (asBytes "A: b\r\n\r\n.\n".toList) := by
  have cut : selected dots (some 1) = asBytes "A: b\r\n\r\n.\n".toList := by decide
  rw [← cut]
  exact (retr_framed (fun _ => some dots) dotsDrop 1 ⟨⟨3, 15, some "/m".toList⟩, false⟩
    "/m".toList dots (by decide) rfl rfl).1 (some 1)

end Expresso.Pop3
