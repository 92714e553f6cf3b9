import Expresso.Imap.Mime
import Mathlib.Data.Nat.ModEq

/-! The parts that `BODYSTRUCTURE` describes against those that `BODY[section]` returns. -/

namespace Expresso.Imap
open Text

/-! ### The parts of a structure -/

mutual

/-- The sizes in a structure, each with the numbers on the way to it. -/
def leaves : BodyStructure → List (List Nat × Nat)
  | .single basic _ => [([], basic.size)]
  | .multi bodies _ => leavesFrom 1 bodies

def leavesFrom : Nat → List BodyStructure → List (List Nat × Nat)
  | _, [] => []
  | i, body :: rest =>
      (leaves body).map (fun leaf => (i :: leaf.1, leaf.2)) ++ leavesFrom (i + 1) rest

end

/-- A message that is not a multipart has its text as the part 1. -/
def sectionPath (path : List Nat) : List Nat := if path = [] then [1] else path

theorem mem_leavesFrom {bodies : List BodyStructure} {i : Nat} {leaf : List Nat × Nat} :
    leaf ∈ leavesFrom i bodies ↔
      ∃ (k : Nat) (body : BodyStructure) (inner : List Nat × Nat), bodies[k]? = some body ∧
        inner ∈ leaves body ∧ leaf = ((i + k) :: inner.1, inner.2) := by
  induction bodies generalizing i with
  | nil => simp [leavesFrom]
  | cons body rest ih =>
    have number (k : Nat) : i + 1 + k = i + (k + 1) := by omega
    rw [leavesFrom, List.mem_append, List.mem_map, ih]
    constructor
    · rintro (⟨inner, member, rfl⟩ | ⟨k, body', inner, found, member, rfl⟩)
      · exact ⟨0, body, inner, rfl, member, rfl⟩
      · exact ⟨k + 1, body', inner, found, member, by rw [number]⟩
    · rintro ⟨k, body', inner, found, member, rfl⟩
      cases k with
      | zero =>
        cases found
        exact .inl ⟨inner, member, rfl⟩
      | succ k => exact .inr ⟨k, body', inner, found, member, by rw [number]⟩

def isMultipart (raw : List UInt8) : Bool := (parseContentType raw).multipart

/-- The message, or a part inside its multiparts, with the numbers on the way to it. -/
inductive Within : List UInt8 → List Nat → List UInt8 → Prop
  | root (raw : List UInt8) : Within raw [] raw
  | inner {raw part bytes : List UInt8} {k : Nat} {path : List Nat} (multi : isMultipart raw = true)
      (found : (mimeSplitParts raw)[k]? = some part) (within : Within part path bytes) :
      Within raw ((k + 1) :: path) bytes

/-- A part that has no parts: it is described as itself, or by a placeholder if it is a
multipart. -/
def Ends (path : List Nat) (bytes : List UInt8) (leaf : List Nat) : Prop :=
  (isMultipart bytes = false ∧ leaf = path) ∨
    (isMultipart bytes = true ∧ mimeSplitParts bytes = [] ∧ leaf = path ++ [1])

section
variable (strings : Strings)

/-- The structure that `FETCH` returns for a stored message. -/
def structureOf (raw : List UInt8) : BodyStructure :=
  buildBodyStructure strings (raw.length % 2 ^ 32) (some raw)

variable {strings}

theorem structureOf_single {raw : List UInt8} (flat : isMultipart raw = false) :
    leaves (structureOf strings raw) = [([], raw.length % 2 ^ 32)] := by
  rw [structureOf, buildBodyStructure, isMultipart] at *
  simp only [flat]
  rfl

theorem structureOf_bodies {raw : List UInt8} (multi : isMultipart raw = true) :
    leaves (structureOf strings raw) =
      leavesFrom 1 (if (mimeSplitParts raw).isEmpty then [placeholder (raw.length % 2 ^ 32)]
        else (mimeSplitParts raw).map (structureOf strings)) := by
  have refold (part : List UInt8) :
      buildBodyStructure strings (part.length % 2 ^ 32) (some part) = structureOf strings part := by
    rw [structureOf]
  rw [structureOf, buildBodyStructure]
  simp only [show (parseContentType raw).multipart = true from multi, if_true, leaves, refold]
  rw [List.attach_map_val (f := structureOf strings), List.isEmpty_map]

theorem within_iff {raw bytes : List UInt8} {path : List Nat} :
    Within raw path bytes ↔ (path = [] ∧ bytes = raw) ∨
      (isMultipart raw = true ∧ ∃ k part rest, (mimeSplitParts raw)[k]? = some part ∧
        Within part rest bytes ∧ path = (k + 1) :: rest) := by
  constructor
  · intro within
    cases within with
    | root => exact .inl ⟨rfl, rfl⟩
    | inner multi found within => exact .inr ⟨multi, _, _, _, found, within, rfl⟩
  · rintro (⟨rfl, rfl⟩ | ⟨multi, k, part, rest, found, within, rfl⟩)
    · exact .root bytes
    · exact .inner multi found within

theorem ends_cons_iff {bytes : List UInt8} {n : Nat} {path leaf : List Nat} :
    Ends (n :: path) bytes leaf ↔ ∃ rest, leaf = n :: rest ∧ Ends path bytes rest := by
  constructor
  · rintro (⟨flat, rfl⟩ | ⟨multi, empty, rfl⟩)
    · exact ⟨path, rfl, .inl ⟨flat, rfl⟩⟩
    · exact ⟨path ++ [1], rfl, .inr ⟨multi, empty, rfl⟩⟩
  · rintro ⟨rest, rfl, ⟨flat, rfl⟩ | ⟨multi, empty, rfl⟩⟩
    · exact .inl ⟨flat, rfl⟩
    · exact .inr ⟨multi, empty, rfl⟩

/-- A part without parts is described once, and only such parts are. -/
theorem mem_leaves_iff {raw : List UInt8} {leaf : List Nat} {size : Nat} :
    (leaf, size) ∈ leaves (structureOf strings raw) ↔
      ∃ path bytes, Within raw path bytes ∧ Ends path bytes leaf ∧
        size = bytes.length % 2 ^ 32 := by
  induction length : raw.length using Nat.strong_induction_on generalizing raw leaf size with
  | _ n ih =>
    subst length
    cases multi : isMultipart raw with
    | false =>
      rw [structureOf_single multi]
      simp only [@within_iff raw, multi, Bool.false_eq_true, false_and, or_false]
      simp [Ends, multi]
    | true =>
      rw [structureOf_bodies multi]
      cases parts : mimeSplitParts raw with
      | nil =>
        simp only [@within_iff raw, multi, parts]
        simp [Ends, multi, parts, leavesFrom, leaves, placeholder]
      | cons first others =>
        have shorter : ∀ part ∈ mimeSplitParts raw, part.length < raw.length :=
          fun part member => mimeSplitParts_length member
        rw [← parts, List.isEmpty_eq_false_iff.mpr (by simp [parts]), if_neg Bool.false_ne_true,
          mem_leavesFrom]
        constructor
        · intro ⟨k, body, ⟨rest, size'⟩, found, member, same⟩
          rw [List.getElem?_map, Option.map_eq_some_iff] at found
          obtain ⟨part, isPart, rfl⟩ := found
          obtain ⟨path, bytes, within, ends, isSize⟩ :=
            (ih part.length (shorter part (List.mem_of_getElem? isPart)) rfl).mp member
          cases same
          exact ⟨_, bytes, .inner multi isPart within,
            ends_cons_iff.2 ⟨rest, by rw [Nat.add_comm], ends⟩, isSize⟩
        · intro ⟨path, bytes, within, ends, isSize⟩
          cases within with
          | root =>
            rcases ends with ⟨flat, -⟩ | ⟨-, empty, -⟩
            · exact absurd (multi.symm.trans flat) Bool.noConfusion
            · exact absurd (parts.symm.trans empty) (List.cons_ne_nil _ _)
          | inner _ found within =>
            obtain ⟨rest, rfl, inside⟩ := ends_cons_iff.1 ends
            have member := (ih _ (shorter _ (List.mem_of_getElem? found)) rfl).mpr
              ⟨_, _, within, inside, isSize⟩
            refine ⟨_, structureOf strings _, (rest, size), ?_, member, by rw [Nat.add_comm]⟩
            rw [List.getElem?_map, found, Option.map_some]

end

/-! ### The parts that can be fetched -/

section
variable {raw part bytes : List UInt8} {k : Nat} {path rest : List Nat}

theorem mimeNavigate_part (found : (mimeSplitParts raw)[k]? = some part) :
    mimeNavigate raw [k + 1] = some part := by
  rw [mimeNavigate, if_neg (by simp [maxMimeDepth])]
  cases parts : mimeSplitParts raw with
  | nil => simp [parts] at found
  | cons first others =>
    rw [parts] at found
    simp [found]

theorem mimeNavigate_inner (found : (mimeSplitParts raw)[k]? = some part) (inside : rest ≠ [])
    (shallow : rest.length < maxMimeDepth) :
    mimeNavigate raw ((k + 1) :: rest) = mimeNavigate part rest := by
  rw [mimeNavigate, if_neg (by rw [List.length_cons]; omega)]
  cases parts : mimeSplitParts raw with
  | nil => simp [parts] at found
  | cons first others =>
    rw [parts] at found
    simp [found, inside]

theorem mimeNavigate_within (within : Within raw path bytes) (inside : path ≠ [])
    (shallow : path.length ≤ maxMimeDepth) : mimeNavigate raw path = some bytes := by
  induction within with
  | root raw => exact absurd rfl inside
  | @inner raw part bytes k path multi found within ih =>
    cases path with
    | nil =>
      cases within
      exact mimeNavigate_part found
    | cons n path =>
      rw [mimeNavigate_inner found (List.cons_ne_nil _ _) shallow]
      exact ih (List.cons_ne_nil _ _) (Nat.le_of_succ_le shallow)

theorem mimeNavigate_append (within : Within raw path bytes) (inside : rest ≠ [])
    (shallow : path.length + rest.length ≤ maxMimeDepth) :
    mimeNavigate raw (path ++ rest) = mimeNavigate bytes rest := by
  induction within with
  | root raw => rfl
  | @inner raw part bytes k path multi found within ih =>
    rw [List.length_cons] at shallow
    rw [List.cons_append, mimeNavigate_inner found (by simp [inside]) (by
      rw [List.length_append]
      omega)]
    exact ih (by omega)

theorem mimeNavigate_text (empty : mimeSplitParts bytes = []) :
    mimeNavigate bytes [1] = some (emailTextBytes bytes) := by
  rw [mimeNavigate, if_neg (by simp [maxMimeDepth]), empty]
  rfl

theorem mimeNavigate_deep (deep : maxMimeDepth < path.length) : mimeNavigate raw path = none := by
  rw [mimeNavigate.eq_def, if_pos deep]

/-! ### Sizes -/

/-- What lies before the content is lost in a size of 32 bits: nothing, or a multiple of
2 ^ 32 bytes. -/
def Skips (whole content : List UInt8) : Prop :=
  content.length < 2 ^ 32 ∧ 2 ^ 32 ∣ whole.length - content.length

theorem size_eq_iff {whole content : List UInt8} (fits : content.length ≤ whole.length) :
    whole.length % 2 ^ 32 = content.length ↔ Skips whole content := by
  rw [Skips]
  generalize whole.length = n at *
  generalize content.length = m at *
  omega

theorem partContent_length (bytes : List UInt8) : (partContent bytes).length ≤ bytes.length := by
  rw [partContent]
  split
  · rw [List.length_drop]
    omega
  · exact le_refl _

theorem emailTextBytes_length (bytes : List UInt8) :
    (emailTextBytes bytes).length ≤ bytes.length := by
  rw [emailTextBytes]
  split
  · rw [List.length_drop]
    omega
  · exact Nat.zero_le _

theorem partContent_eq_iff : partContent bytes = bytes ↔ position separator bytes = none := by
  rw [partContent]
  cases found : position separator bytes with
  | none => simp
  | some pos =>
    have bound := position_bound found
    simp only [reduceCtorEq, iff_false]
    intro same
    have length := congrArg List.length same
    rw [List.length_drop] at length
    simp only [separator, List.length_cons, List.length_nil] at bound
    omega

/-- The part is there, and the size is that of its content. -/
def LeafAgrees (raw : List UInt8) (leaf : List Nat × Nat) : Prop :=
  (mimeNavigate raw (sectionPath leaf.1)).isSome ∧
    leaf.2 = (mimePartBodyPath raw (sectionPath leaf.1)).length

theorem leafAgrees_iff {found : List UInt8} {size : Nat}
    (there : path.length ≤ maxMimeDepth → mimeNavigate raw path = some found) (inside : path ≠ []) :
    LeafAgrees raw (path, size) ↔
      path.length ≤ maxMimeDepth ∧ size = (partContent found).length := by
  rw [LeafAgrees, sectionPath, if_neg inside, mimePartBodyPath]
  by_cases shallow : path.length ≤ maxMimeDepth
  · rw [there shallow]
    simp [shallow]
  · rw [mimeNavigate_deep (Nat.lt_of_not_le shallow)]
    simp [shallow]

theorem part_agrees_iff (within : Within raw path bytes) (inside : path ≠ []) :
    LeafAgrees raw (path, bytes.length % 2 ^ 32) ↔
      path.length ≤ maxMimeDepth ∧ Skips bytes (partContent bytes) := by
  rw [leafAgrees_iff (mimeNavigate_within within inside) inside,
    size_eq_iff (partContent_length bytes)]

theorem placeholder_agrees_iff (within : Within raw path bytes)
    (empty : mimeSplitParts bytes = []) :
    LeafAgrees raw (path ++ [1], bytes.length % 2 ^ 32) ↔
      path.length < maxMimeDepth ∧ Skips bytes (partContent (emailTextBytes bytes)) := by
  have there (shallow : (path ++ [1]).length ≤ maxMimeDepth) :
      mimeNavigate raw (path ++ [1]) = some (emailTextBytes bytes) := by
    rw [List.length_append] at shallow
    rw [mimeNavigate_append within (List.cons_ne_nil _ _) shallow, mimeNavigate_text empty]
  rw [leafAgrees_iff there (by simp), size_eq_iff
    ((partContent_length _).trans (emailTextBytes_length bytes)), List.length_append]
  rfl

/-- Without parts the text is `BODY[1]` as far as it has no blank line. -/
theorem flat_agrees_iff :
    (LeafAgrees raw ([], raw.length % 2 ^ 32) ∧ mimePartBodyPath raw [1] = emailTextBytes raw) ↔
      mimeSplitParts raw = [] ∧ position separator (emailTextBytes raw) = none ∧
        Skips raw (emailTextBytes raw) := by
  rw [LeafAgrees, sectionPath, if_pos rfl, mimePartBodyPath]
  cases parts : mimeSplitParts raw with
  | nil =>
    rw [mimeNavigate_text parts, ← partContent_eq_iff]
    dsimp only
    constructor
    · intro ⟨⟨_, size⟩, text⟩
      rw [text] at size
      exact ⟨rfl, text, (size_eq_iff (emailTextBytes_length raw)).mp size⟩
    · intro ⟨_, text, skips⟩
      refine ⟨⟨rfl, ?_⟩, text⟩
      rw [text]
      exact (size_eq_iff (emailTextBytes_length raw)).mpr skips
  | cons first others =>
    have listed : (mimeSplitParts raw)[0]? = some first := by rw [parts]; rfl
    rw [mimeNavigate_part listed]
    simp only [reduceCtorEq, false_and, iff_false]
    intro ⟨_, text⟩
    -- a part is shorter than the text by its delimiter
    have shorter : first.length + 2 ≤ (emailTextBytes raw).length := by
      have member := List.mem_of_getElem? listed
      rw [mimeSplitParts] at member
      split at member
      · cases member
      · exact partsFrom_length member
    have bound := partContent_length first
    rw [text] at bound
    omega

/-! ### Agreement -/

/-- Every part that the structure describes is there in the size it gives, and the text of a
message that is no multipart is `BODY[1]`. -/
def Agrees (strings : Strings) (raw : List UInt8) : Prop :=
  (∀ leaf ∈ leaves (structureOf strings raw), LeafAgrees raw leaf) ∧
    (isMultipart raw = false → mimePartBodyPath raw [1] = emailTextBytes raw)

/-- A message of one part is empty; in a multipart every part without parts is within reach and
has no headers. The two sizes may also differ by a multiple of 2 ^ 32 bytes. -/
structure SectionsFit (raw : List UInt8) : Prop where
  flat : isMultipart raw = false → mimeSplitParts raw = [] ∧
    position separator (emailTextBytes raw) = none ∧ Skips raw (emailTextBytes raw)
  parts : ∀ path bytes, Within raw path bytes → path ≠ [] → isMultipart bytes = false →
    path.length ≤ maxMimeDepth ∧ Skips bytes (partContent bytes)
  empty : ∀ path bytes, Within raw path bytes → isMultipart bytes = true →
    mimeSplitParts bytes = [] →
      path.length < maxMimeDepth ∧ Skips bytes (partContent (emailTextBytes bytes))

theorem sections_agree_iff (strings : Strings) (raw : List UInt8) :
    Agrees strings raw ↔ SectionsFit raw := by
  constructor
  · intro ⟨agree, text⟩
    have described {path leaf : List Nat} {bytes : List UInt8} (within : Within raw path bytes)
        (ends : Ends path bytes leaf) : LeafAgrees raw (leaf, bytes.length % 2 ^ 32) :=
      agree _ (mem_leaves_iff.mpr ⟨path, bytes, within, ends, rfl⟩)
    constructor
    · intro flat
      exact flat_agrees_iff.1 ⟨described (.root raw) (.inl ⟨flat, rfl⟩), text flat⟩
    · intro path bytes within inside flat
      exact (part_agrees_iff within inside).mp (described within (.inl ⟨flat, rfl⟩))
    · intro path bytes within multi empty
      exact (placeholder_agrees_iff within empty).mp (described within (.inr ⟨multi, empty, rfl⟩))
  · intro fit
    refine ⟨fun ⟨leaf, size⟩ member => ?_, fun flat => (flat_agrees_iff.2 (fit.flat flat)).2⟩
    obtain ⟨path, bytes, within, ends, rfl⟩ := mem_leaves_iff.mp member
    rcases ends with ⟨flat, rfl⟩ | ⟨multi, empty, rfl⟩
    · cases within with
      | root => exact (flat_agrees_iff.2 (fit.flat flat)).1
      | inner multi found within =>
        have inside := Within.inner multi found within
        exact (part_agrees_iff inside (List.cons_ne_nil _ _)).mpr
          (fit.parts _ bytes inside (List.cons_ne_nil _ _) flat)
    · exact (placeholder_agrees_iff within empty).mpr (fit.empty path bytes within multi empty)

end

/-! ### Two messages -/

def plainStrings : Strings := ⟨fun _ => true, toAsciiUppercase⟩

def bytesOf (pieces : List String) : List UInt8 := asBytes (pieces.flatMap String.toList)

def shortMessage : List UInt8 := bytesOf ["Subject: Hi\r\n", "\r\n", "Hello"]

def paragraphs : List UInt8 := bytesOf ["Subject: Hi\r\n", "\r\n", "One\r\n\r\nTwo"]

/-- The size of the short message counts its headers, and of two paragraphs `BODY[1]` has only the
second. -/
theorem sections_disagree :
    ¬ Agrees plainStrings shortMessage ∧ isMultipart paragraphs = false ∧
      mimePartBodyPath paragraphs [1] ≠ emailTextBytes paragraphs := by
  refine ⟨fun ⟨agree, _⟩ => ?_, by decide⟩
  have flat : isMultipart shortMessage = false := by decide
  have size := (agree ([], shortMessage.length % 2 ^ 32)
    (by rw [structureOf_single flat]; exact List.mem_cons_self)).2
  exact absurd size (by decide)

end Expresso.Imap
