import Expresso.Web.Reseeding

/-! The categories of a stored event. The form takes back the value from its first colon on, and
only commas and backslashes without their escapes. -/

namespace Expresso.Web
open Text hiding contains
open CalDav (terminated escapeText escapeChar unescapeText isSpecial)
open Imap (lines)

/-! ### The categories of a field -/

/-- A category as it is kept. -/
structure IsCategory (c : Str) : Prop where
  trimmed : trim c = c
  nonempty : c ≠ []
  noComma : ',' ∉ c

theorem isCategory_of_mem {raw c : Str} (member : c ∈ keptCategories raw) : IsCategory c := by
  obtain ⟨among, filled⟩ := List.mem_filter.mp (List.mem_of_mem_take member)
  obtain ⟨piece, split, rfl⟩ := List.mem_map.mp among
  exact ⟨trim_trim piece, by simpa using filled, fun comma =>
    not_mem_of_mem_split split (trim_subset piece comma)⟩

theorem keptCategories_length (raw : Str) : (keptCategories raw).length ≤ 32 :=
  List.length_take_le _ _

/-- A character with the escape that stays. -/
def halfEscaped (c : Char) : Str :=
  if c = ';' then ['\\', ';'] else if c = '\n' then ['\\', 'n'] else [c]

theorem replacePair_escapeText {v : Str} (noComma : ',' ∉ v) :
    replacePair '\\' '\\' ['\\'] (escapeText v) = v.flatMap halfEscaped := by
  induction v with
  | nil => rfl
  | cons c rest ih =>
    obtain ⟨other, later⟩ := not_or.mp (List.mem_cons.not.mp noComma)
    have step : escapeText (c :: rest) = escapeChar c ++ escapeText rest := rfl
    rw [step, List.flatMap_cons, ← ih later]
    have escaped (d : Char) (apart : d ≠ '\\') :
        replacePair '\\' '\\' ['\\'] ('\\' :: d :: escapeText rest) =
          '\\' :: d :: replacePair '\\' '\\' ['\\'] (escapeText rest) := by
      rw [replacePair, if_neg fun same => apart same.2, replacePair_cons_of_ne apart]
    by_cases backslash : c = '\\'
    · subst backslash
      exact replacePair_pair '\\' '\\' ['\\'] (escapeText rest)
    by_cases semicolon : c = ';'
    · subst semicolon
      exact escaped ';' (by decide)
    by_cases feed : c = '\n'
    · subst feed
      exact escaped 'n' (by decide)
    have plain : escapeChar c = [c] := by
      simp [escapeChar, backslash, semicolon, feed, Ne.symm other]
    have same : halfEscaped c = [c] := by simp [halfEscaped, semicolon, feed]
    rw [plain, same]
    exact replacePair_cons_of_ne backslash (escapeText rest)

theorem reread_escapeIcal {c : Str} (noComma : ',' ∉ c) :
    replacePair '\\' '\\' ['\\'] (replacePair '\\' ',' [','] (escapeIcal c)) =
      c.flatMap halfEscaped := by
  rw [escapeIcal_eq, replacePair_of_not_mem (CalDav.escapeText_noComma noComma),
    replacePair_escapeText noComma]

/-- A category comes back as it was, just where neither escape stays in it. -/
theorem halfEscaped_eq_iff (c : Str) : c.flatMap halfEscaped = c ↔ ';' ∉ c ∧ '\n' ∉ c := by
  induction c with
  | nil => simp
  | cons d rest ih =>
    rw [List.flatMap_cons]
    by_cases semicolon : d = ';'
    · subst semicolon
      have shape : halfEscaped ';' = ['\\', ';'] := by decide
      rw [shape]
      exact ⟨fun same => absurd (List.cons.inj same).1 (by decide), fun both =>
        absurd List.mem_cons_self both.1⟩
    by_cases feed : d = '\n'
    · subst feed
      have shape : halfEscaped '\n' = ['\\', 'n'] := by decide
      rw [shape]
      exact ⟨fun same => absurd (List.cons.inj same).1 (by decide), fun both =>
        absurd List.mem_cons_self both.2⟩
    have shape : halfEscaped d = [d] := by simp [halfEscaped, semicolon, feed]
    rw [shape, List.singleton_append, List.cons.injEq, eq_self_iff_true, true_and, ih,
      List.mem_cons, List.mem_cons, not_or, not_or]
    exact ⟨fun both => ⟨⟨Ne.symm semicolon, both.1⟩, Ne.symm feed, both.2⟩,
      fun both => ⟨both.1.2, both.2.2⟩⟩

/-! ### The line -/

theorem lineCategories_other {field : Field} (other : field.1 ≠ .categories) :
    lineCategories (lineOf field) = [] := by
  have name : "CATEGORIES:".toList = Head.categories.text.toList ++ ':' :: [] := by decide
  have first : stripPrefix "CATEGORIES:".toList (lineOf field) = none := by
    rw [name, stripPrefix_lineOf, if_neg other]
  have second : stripPrefix "CATEGORIES;".toList (lineOf field) = none := by
    apply if_neg
    rw [lineOf, isPrefixOf_append_cons (by decide)]
    cases field.1 <;> rw [Head.text, String.toList_ofList] <;> decide
  simp only [lineCategories, trimStart_lineOf, first, second, Option.none_or]

theorem lineCategories_lineOf (v : Str) : lineCategories (lineOf (.categories, v)) =
    ((split ',' (((splitOnce ':' v).map (·.2)).getD v)).map fun c =>
      replacePair '\\' '\\' ['\\'] (replacePair '\\' ',' [','] (trim c))).filter
        (!·.isEmpty) := by
  have name : "CATEGORIES:".toList = Head.categories.text.toList ++ ':' :: [] := by decide
  have found : stripPrefix "CATEGORIES:".toList (lineOf (.categories, v)) = some v := by
    rw [name, stripPrefix_lineOf, if_pos rfl]
    exact stripPrefix_append [] v
  simp only [lineCategories, trimStart_lineOf, found, Option.some_or]

theorem flatMap_lineCategories (l : List Field) : (l.map lineOf).flatMap lineCategories =
    (values .categories l).flatMap fun v => lineCategories (lineOf (.categories, v)) := by
  induction l with
  | nil => rfl
  | cons field rest ih =>
    obtain ⟨head, v⟩ := field
    rw [List.map_cons, List.flatMap_cons, values_cons, ih]
    by_cases same : head = .categories
    · subst same
      rw [if_pos rfl, List.flatMap_cons]
    · rw [if_neg same, lineCategories_other same, List.nil_append]

/-! ### Joined categories -/

theorem split_join_blank (first : Str) (rest : List Str)
    (noComma : ∀ c ∈ first :: rest, ',' ∉ c) :
    split ',' (join ", " (first :: rest)) = first :: rest.map (' ' :: ·) := by
  have sep : ", ".toList = [',', ' '] := by decide
  induction rest generalizing first with
  | nil =>
    have text : join ", " [first] = first := by simp [join, List.intercalate]
    rw [text, split_of_not_mem (noComma first List.mem_cons_self)]
    rfl
  | cons second others ih =>
    have text : join ", " (first :: second :: others) =
        first ++ ',' :: (' ' :: join ", " (second :: others)) := by
      unfold join
      rw [sep]
      simp [List.intercalate]
    have blank (s : Str) (piece : Str) (pieces : List Str) (cut : split ',' s = piece :: pieces) :
        split ',' (' ' :: s) = (' ' :: piece) :: pieces := by
      rw [split, if_neg (by decide), cut]
    rw [text, split_append_cons (noComma first List.mem_cons_self),
      blank _ _ _ (ih second fun c member => noComma c (List.mem_cons_of_mem first member))]
    rfl

theorem trim_blank (s : Str) : trim (' ' :: s) = trim s := by
  have start : trimStart (' ' :: s) = trimStart s :=
    List.dropWhile_cons_of_pos (by decide)
  rw [trim, start, trim]

theorem keptCategories_join {l : List Str} (are : ∀ c ∈ l, IsCategory c) (short : l.length ≤ 32) :
    keptCategories (join ", " l) = l := by
  cases l with
  | nil => decide
  | cons first rest =>
    have trimmed : (first :: rest.map (' ' :: ·)).map trim = first :: rest := by
      rw [List.map_cons, (are first List.mem_cons_self).trimmed, List.map_map]
      congr 1
      conv_rhs => rw [← List.map_id rest]
      apply List.map_congr_left
      intro c member
      exact (trim_blank c).trans (are c (List.mem_cons_of_mem first member)).trimmed
    have filled : (first :: rest).filter (!·.isEmpty) = first :: rest :=
      List.filter_eq_self.mpr fun c member => by simpa using (are c member).nonempty
    unfold keptCategories
    rw [split_join_blank first rest fun c member => (are c member).noComma, trimmed, filled,
      List.take_of_length_le short]

/-- Each character becomes a text without blanks around it. -/
def KeepsEnds (enc : Char → Str) : Prop :=
  ∀ d, isWhitespace d = false → enc d ≠ [] ∧ (∀ x ∈ (enc d).head?, isWhitespace x = false) ∧
    ∀ x ∈ (enc d).getLast?, isWhitespace x = false

theorem trim_flatMap {enc : Char → Str} (keeps : KeepsEnds enc) {c : Str} (trimmed : trim c = c)
    (nonempty : c ≠ []) : trim (c.flatMap enc) = c.flatMap enc ∧ c.flatMap enc ≠ [] := by
  obtain ⟨heads, lasts⟩ := trim_eq_self_iff.mp trimmed
  obtain ⟨d, rest, start⟩ := List.exists_cons_of_ne_nil nonempty
  obtain ⟨front, e, ending⟩ := (List.eq_nil_or_concat' c).resolve_left nonempty
  obtain ⟨filled, head, -⟩ := keeps d (heads d (by rw [start]; rfl))
  obtain ⟨filled', -, last⟩ := keeps e (lasts e (by rw [ending, List.getLast?_concat]; rfl))
  refine ⟨trim_eq_self_iff.mpr ⟨?_, ?_⟩, ?_⟩
  · intro x first
    rw [start, List.flatMap_cons, List.head?_append_of_ne_nil _ filled] at first
    exact head x first
  · intro x final
    rw [ending, List.flatMap_append, List.flatMap_singleton,
      List.getLast?_append_of_ne_nil _ filled'] at final
    exact last x final
  · rw [start, List.flatMap_cons]
    exact List.append_ne_nil_of_left_ne_nil filled _

theorem keepsEnds_singleton {d : Char} (plain : isWhitespace d = false) : [d] ≠ [] ∧
    (∀ x ∈ [d].head?, isWhitespace x = false) ∧ ∀ x ∈ [d].getLast?, isWhitespace x = false := by
  refine ⟨List.cons_ne_nil d [], ?_, ?_⟩
  · rintro x ⟨⟩
    exact plain
  · rintro x ⟨⟩
    exact plain

theorem halfEscaped_keepsEnds : KeepsEnds halfEscaped := by
  intro d plain
  by_cases semicolon : d = ';'
  · subst semicolon
    exact ⟨by decide, by rintro x ⟨⟩; decide, by rintro x ⟨⟩; decide⟩
  by_cases feed : d = '\n'
  · subst feed
    revert plain
    decide
  have shape : halfEscaped d = [d] := by simp [halfEscaped, semicolon, feed]
  rw [shape]
  exact keepsEnds_singleton plain

theorem escapeChar_keepsEnds : KeepsEnds escapeChar := by
  intro d plain
  by_cases special : isSpecial d = true
  · simp only [isSpecial, Bool.or_eq_true, decide_eq_true_eq] at special
    rcases special with ((rfl | rfl) | rfl) | rfl
    · exact ⟨by decide, by rintro x ⟨⟩; decide, by rintro x ⟨⟩; decide⟩
    · revert plain
      decide
    · exact ⟨by decide, by rintro x ⟨⟩; decide, by rintro x ⟨⟩; decide⟩
    · exact ⟨by decide, by rintro x ⟨⟩; decide, by rintro x ⟨⟩; decide⟩
  · rw [CalDav.escapeChar_of_not_special (by simpa using special)]
    exact keepsEnds_singleton plain

theorem trim_escapeIcal {c : Str} (is : IsCategory c) : trim (escapeIcal c) = escapeIcal c := by
  rw [escapeIcal_eq]
  exact (trim_flatMap escapeChar_keepsEnds is.trimmed is.nonempty).1

theorem escapeIcal_nonempty {c : Str} (is : IsCategory c) : escapeIcal c ≠ [] := by
  rw [escapeIcal_eq]
  exact (trim_flatMap escapeChar_keepsEnds is.trimmed is.nonempty).2

theorem halfEscaped_isCategory {c : Str} (is : IsCategory c) :
    IsCategory (c.flatMap halfEscaped) := by
  obtain ⟨trimmed, nonempty⟩ := trim_flatMap halfEscaped_keepsEnds is.trimmed is.nonempty
  refine ⟨trimmed, nonempty, ?_⟩
  intro comma
  obtain ⟨d, member, here⟩ := List.mem_flatMap.mp comma
  have other : d ≠ ',' := fun same => is.noComma (same ▸ member)
  unfold halfEscaped at here
  split at here
  · revert here
    decide
  · split at here
    · revert here
      decide
    · exact other (List.mem_singleton.mp here).symm

/-! ### Colons -/

def colons (s : Str) : Nat := s.count ':'

def colonsOf (l : List Str) : Nat := (l.map colons).sum

theorem colons_append (s t : Str) : colons (s ++ t) = colons s + colons t := List.count_append

theorem colonsOf_cons (s : Str) (l : List Str) : colonsOf (s :: l) = colons s + colonsOf l := by
  simp [colonsOf]

theorem colonsOf_sublist {l l' : List Str} (sublist : l.Sublist l') : colonsOf l ≤ colonsOf l' := by
  induction sublist with
  | slnil => exact le_rfl
  | cons s _ ih =>
    rw [colonsOf_cons]
    omega
  | cons_cons s _ ih =>
    rw [colonsOf_cons, colonsOf_cons]
    omega

theorem colonsOf_map_le {f : Str → Str} (bound : ∀ s, colons (f s) ≤ colons s) (l : List Str) :
    colonsOf (l.map f) ≤ colonsOf l := by
  induction l with
  | nil => exact le_rfl
  | cons s rest ih =>
    rw [List.map_cons, colonsOf_cons, colonsOf_cons]
    have here := bound s
    omega

theorem colons_escapeIcal (s : Str) : colons (escapeIcal s) = colons s := by
  rw [escapeIcal_eq]
  induction s with
  | nil => rfl
  | cons c rest ih =>
    have step : escapeText (c :: rest) = escapeChar c ++ escapeText rest := rfl
    have here : colons (escapeChar c) = colons [c] := by
      by_cases special : isSpecial c = true
      · simp only [isSpecial, Bool.or_eq_true, decide_eq_true_eq] at special
        rcases special with ((rfl | rfl) | rfl) | rfl <;> decide
      · rw [CalDav.escapeChar_of_not_special (by simpa using special)]
    rw [step, colons_append, ih, here, ← colons_append]
    rfl

theorem colons_trim (s : Str) : colons (trim s) ≤ colons s := by
  have sublist : (trim s).Sublist s :=
    (trimEnd_initial (trimStart s)).sublist.trans (List.dropWhile_suffix _).sublist
  exact sublist.count_le ':'

theorem colons_replacePair {a b : Char} {text : Str} (absent : ':' ∉ text) (s : Str) :
    colons (replacePair a b text s) ≤ colons s := by
  induction s using replacePair.induct (a := a) (b := b) with
  | case1 c d rest pair ih =>
    rw [replacePair, if_pos pair, colons_append]
    have none_ : colons text = 0 := List.count_eq_zero.mpr absent
    have whole : colons (c :: d :: rest) = colons [c, d] + colons rest := colons_append [c, d] rest
    omega
  | case2 c d rest other ih =>
    rw [replacePair, if_neg other]
    have front (t : Str) : colons (c :: t) = colons [c] + colons t := colons_append [c] t
    rw [front, front (d :: rest)]
    omega
  | case3 rest short =>
    cases rest with
    | nil => exact le_rfl
    | cons c later =>
      cases later with
      | nil => exact le_rfl
      | cons d others => exact (short c d others rfl).elim

theorem colons_join {sep : String} (absent : ':' ∉ sep.toList) (l : List Str) :
    colons (join sep l) = colonsOf l := by
  have none_ : colons sep.toList = 0 := List.count_eq_zero.mpr absent
  induction l with
  | nil => rfl
  | cons first rest ih =>
    cases rest with
    | nil => simp [join, List.intercalate, colonsOf]
    | cons second others =>
      have text : join sep (first :: second :: others) =
          first ++ (sep.toList ++ join sep (second :: others)) := by
        simp [join, List.intercalate]
      rw [text, colons_append, colons_append, ih, none_, Nat.zero_add, ← colonsOf_cons]

theorem colonsOf_split (s : Str) : colonsOf (split ',' s) = colons s := by
  induction s with
  | nil => rfl
  | cons c rest ih =>
    have front (t : Str) : colons (c :: t) = colons [c] + colons t := colons_append [c] t
    rw [split]
    by_cases comma : c = ','
    · subst comma
      rw [if_pos rfl, colonsOf_cons, ih, front]
      rfl
    · rw [if_neg comma]
      obtain ⟨piece, pieces, cut⟩ := List.exists_cons_of_ne_nil (split_ne_nil ',' rest)
      rw [cut, colonsOf_cons] at ih
      rw [cut]
      show colonsOf ((c :: piece) :: pieces) = _
      rw [colonsOf_cons, front, front rest]
      omega

theorem colons_formatCategories (raw : Str) : colons (formatCategories raw) ≤ colons raw := by
  have escaped : colonsOf ((keptCategories raw).map escapeIcal) ≤ colonsOf (keptCategories raw) :=
    colonsOf_map_le (fun s => (colons_escapeIcal s).le) _
  calc colons (formatCategories raw)
      = colonsOf ((keptCategories raw).map escapeIcal) := colons_join (by decide) _
    _ ≤ colonsOf (keptCategories raw) := escaped
    _ ≤ colonsOf ((split ',' raw).map trim) :=
        colonsOf_sublist ((List.take_sublist _ _).trans List.filter_sublist)
    _ ≤ colonsOf (split ',' raw) := colonsOf_map_le colons_trim _
    _ = colons raw := colonsOf_split raw

/-- What stands before the first colon of the value is lost, and the colon. -/
theorem colons_lineCategories {v before after : Str}
    (cut : splitOnce ':' v = some (before, after)) :
    colonsOf (lineCategories (lineOf (.categories, v))) < colons v := by
  have reread (c : Str) : colons (replacePair '\\' '\\' ['\\']
      (replacePair '\\' ',' [','] (trim c))) ≤ colons c :=
    (colons_replacePair (by decide) _).trans
      ((colons_replacePair (by decide) _).trans (colons_trim c))
  have whole := (splitOnce_some cut).1
  rw [lineCategories_lineOf, cut]
  calc colonsOf (((split ',' after).map fun c => replacePair '\\' '\\' ['\\']
        (replacePair '\\' ',' [','] (trim c))).filter (!·.isEmpty))
      ≤ colonsOf ((split ',' after).map fun c => replacePair '\\' '\\' ['\\']
        (replacePair '\\' ',' [','] (trim c))) := colonsOf_sublist List.filter_sublist
    _ ≤ colonsOf (split ',' after) := colonsOf_map_le reread _
    _ = colons after := colonsOf_split after
    _ < colons v := by
        rw [whole, colons_append]
        have front : colons (':' :: after) = 1 + colons after := colons_append [':'] after
        omega

theorem escapeIcal_injective {c d : Str} (same : escapeIcal c = escapeIcal d) : c = d := by
  rw [escapeIcal_eq, escapeIcal_eq] at same
  calc c = unescapeText (escapeText c) := (CalDav.unescapeText_escapeText c).symm
    _ = unescapeText (escapeText d) := by rw [same]
    _ = d := CalDav.unescapeText_escapeText d

section
variable {kept : List Str} (are : ∀ c ∈ kept, IsCategory c) (some_ : kept ≠ [])
include are some_

theorem split_categories : split ',' (join "," (kept.map escapeIcal)) = kept.map escapeIcal := by
  apply split_join (by simpa using some_)
  intro piece member
  obtain ⟨c, among, rfl⟩ := List.mem_map.mp member
  rw [escapeIcal_eq]
  exact CalDav.escapeText_noComma (are c among).noComma

/-- A value without a colon comes back as its categories with two of the escapes left in them. -/
theorem lineCategories_plain (plain : ':' ∉ join "," (kept.map escapeIcal)) :
    lineCategories (lineOf (.categories, join "," (kept.map escapeIcal))) =
      kept.map (·.flatMap halfEscaped) := by
  have whole : ((splitOnce ':' (join "," (kept.map escapeIcal))).map (·.2)).getD
      (join "," (kept.map escapeIcal)) = join "," (kept.map escapeIcal) := by
    rw [splitOnce_of_not_mem plain]
    rfl
  have back : (kept.map escapeIcal).map (fun c => replacePair '\\' '\\' ['\\']
      (replacePair '\\' ',' [','] (trim c))) = kept.map (·.flatMap halfEscaped) := by
    rw [List.map_map]
    apply List.map_congr_left
    intro c member
    show replacePair '\\' '\\' ['\\'] (replacePair '\\' ',' [','] (trim (escapeIcal c))) = _
    rw [trim_escapeIcal (are c member), reread_escapeIcal (are c member).noComma]
  have filled : (kept.map (·.flatMap halfEscaped)).filter (!·.isEmpty) =
      kept.map (·.flatMap halfEscaped) := by
    apply List.filter_eq_self.mpr
    intro c member
    obtain ⟨d, among, rfl⟩ := List.mem_map.mp member
    simpa using (halfEscaped_isCategory (are d among)).nonempty
  rw [lineCategories_lineOf, whole, split_categories are some_, back, filled]

theorem reformat_iff (short : kept.length ≤ 32) :
    formatCategories (join ", " (lineCategories
        (lineOf (.categories, join "," (kept.map escapeIcal))))) =
      join "," (kept.map escapeIcal) ↔
      ∀ c ∈ kept, ':' ∉ c ∧ ';' ∉ c ∧ '\n' ∉ c := by
  have total : colons (join "," (kept.map escapeIcal)) = colonsOf (kept.map escapeIcal) :=
    colons_join (by decide) _
  by_cases colon : ':' ∈ join "," (kept.map escapeIcal)
  · constructor
    · intro same
      cases cut : splitOnce ':' (join "," (kept.map escapeIcal)) with
      | none => exact absurd colon (splitOnce_none cut)
      | some halves =>
        have fewer := colons_lineCategories cut
        have counted := colons_formatCategories (join ", " (lineCategories
          (lineOf (.categories, join "," (kept.map escapeIcal)))))
        have listed := @colons_join ", " (by decide) (lineCategories
          (lineOf (.categories, join "," (kept.map escapeIcal))))
        rw [same] at counted
        omega
    · intro plain
      have within : ':' ∈ List.intercalate [','] (kept.map escapeIcal) := colon
      rcases CalDav.Itip.mem_intercalate within with same | ⟨piece, among, inside⟩
      · exact absurd same (by decide)
      · obtain ⟨c, member, rfl⟩ := List.mem_map.mp among
        have none_ : colons c = 0 := List.count_eq_zero.mpr (plain c member).1
        rw [← colons_escapeIcal] at none_
        exact absurd inside (List.count_eq_zero.mp none_)
  · have noColon : ∀ c ∈ kept, ':' ∉ c := by
      intro c member
      have part : colonsOf [escapeIcal c] ≤ colonsOf (kept.map escapeIcal) :=
        colonsOf_sublist (List.singleton_sublist.mpr (List.mem_map_of_mem member))
      have none_ : colons (join "," (kept.map escapeIcal)) = 0 := List.count_eq_zero.mpr colon
      have here : colonsOf [escapeIcal c] = colons c := by
        rw [colonsOf_cons, colons_escapeIcal]
        rfl
      apply List.count_eq_zero.mp
      show colons c = 0
      omega
    have categories : ∀ c ∈ kept.map (·.flatMap halfEscaped), IsCategory c := by
      intro c member
      obtain ⟨d, among, rfl⟩ := List.mem_map.mp member
      exact halfEscaped_isCategory (are d among)
    rw [lineCategories_plain are some_ colon, formatCategories,
      keptCategories_join categories (by rwa [List.length_map])]
    constructor
    · intro same c member
      have pieces := congrArg (split ',') same
      rw [split_categories are some_, split_categories categories (by simpa using some_),
        List.map_map, List.map_inj_left] at pieces
      have back := escapeIcal_injective (pieces c member)
      exact ⟨noColon c member, (halfEscaped_eq_iff c).mp back⟩
    · intro plain
      have back : kept.map (·.flatMap halfEscaped) = kept := by
        conv_rhs => rw [← List.map_id kept]
        exact List.map_congr_left fun c member => (halfEscaped_eq_iff c).mpr (plain c member).2
      rw [back]

end

/-- The categories come back, just where none has a colon, a semicolon or a line feed. -/
theorem categories_round_trip_iff {l : List Field} (oneLines : OneLines l) {raw : Str}
    (written : values .categories l =
      if (formatCategories raw).isEmpty then [] else [formatCategories raw]) :
    formatCategories (categoriesFromIcal (terminated (l.map lineOf))) = formatCategories raw ↔
      ∀ c ∈ keptCategories raw, ':' ∉ c ∧ ';' ∉ c ∧ '\n' ∉ c := by
  have are : ∀ c ∈ keptCategories raw, IsCategory c := fun _ => isCategory_of_mem
  have read : categoriesFromIcal (terminated (l.map lineOf)) =
      join ", " ((values .categories l).flatMap fun v =>
        lineCategories (lineOf (.categories, v))) := by
    unfold categoriesFromIcal
    rw [lines_lineOf oneLines, flatMap_lineCategories]
  by_cases none_ : keptCategories raw = []
  · have empty : formatCategories raw = [] := by
      unfold formatCategories
      rw [none_]
      rfl
    rw [read, written, empty, none_]
    exact ⟨fun _ => List.forall_mem_nil _, fun _ => by decide⟩
  · have filled : ¬ (formatCategories raw).isEmpty = true := by
      intro empty
      rw [List.isEmpty_iff, formatCategories] at empty
      have pieces := split_categories are none_
      rw [empty] at pieces
      cases kept : keptCategories raw with
      | nil => exact none_ kept
      | cons first rest =>
        rw [kept, List.map_cons] at pieces
        exact escapeIcal_nonempty (are first (kept ▸ List.mem_cons_self))
          (List.cons.inj pieces).1.symm
    rw [read, written, if_neg filled, List.flatMap_singleton]
    exact reformat_iff are none_ (keptCategories_length raw)

end Expresso.Web
