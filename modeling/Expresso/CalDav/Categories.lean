import Expresso.CalDav.Vtodo
import Expresso.Text.Trim

/-! The categories of an event: one value, cut at its commas before the escapes are read. -/

namespace Expresso.CalDav
open Text

/-- A list of names as one CATEGORIES value. -/
def categoriesValue (names : List Str) : Str := List.intercalate [','] (names.map escapeText)

theorem mem_unescapeText {d : Char} {v : Str} (member : d ∈ unescapeText v) :
    d = '\n' ∨ d ∈ v := by
  induction v using unescapeText.induct with
  | case1 => cases member
  | case2 rest ih | case3 rest ih =>
    rw [unescapeText] at member
    rcases List.mem_cons.mp member with feed | later
    · exact .inl feed
    · exact (ih later).imp_right fun inside => by simp [inside]
  | case4 rest ih | case5 rest ih | case6 rest ih =>
    rw [unescapeText] at member
    rcases List.mem_cons.mp member with same | later
    · exact .inr (by simp [same])
    · exact (ih later).imp_right fun inside => by simp [inside]
  | case7 other rest noN noUpper noComma noSemicolon noBackslash ih =>
    rw [unescapeText] at member <;> try assumption
    rcases List.mem_cons.mp member with same | later
    · exact .inr (by simp [same])
    · rcases List.mem_cons.mp later with same | further
      · exact .inr (by simp [same])
      · exact (ih further).imp_right fun inside => by simp [inside]
  | case8 c rest _ _ _ _ _ _ ih =>
    rw [unescapeText] at member <;> try assumption
    rcases List.mem_cons.mp member with same | later
    · exact .inr (by simp [same])
    · exact (ih later).imp_right fun inside => by simp [inside]

/-- Whatever the value, no category that is read from it holds a comma. -/
theorem parseCategories_noComma (v : Str) : ∀ c ∈ parseCategories v, ',' ∉ c := by
  intro c member comma
  obtain ⟨piece, split, rfl⟩ := List.mem_map.mp (List.mem_filter.mp member).1
  rcases mem_unescapeText (trim_subset _ comma) with feed | inside
  · exact absurd feed (by decide)
  · exact not_mem_of_mem_split split inside

theorem parseCategories_intercalate {pieces : List Str} (nonempty : pieces ≠ [])
    (noComma : ∀ p ∈ pieces, ',' ∉ p) :
    parseCategories (List.intercalate [','] pieces) =
      (pieces.map fun p => trim (unescapeText p)).filter fun c => !c.isEmpty := by
  rw [parseCategories, Itip.split_intercalate nonempty noComma]

/-- The names come back, just where none of them holds a comma. -/
theorem parse_categoriesValue_iff {names : List Str} (filled : ∀ c ∈ names, c ≠ [])
    (trimmed : ∀ c ∈ names, trim c = c) :
    parseCategories (categoriesValue names) = names ↔ ∀ c ∈ names, ',' ∉ c := by
  constructor
  · intro same c member
    exact parseCategories_noComma _ c (same ▸ member)
  · intro noComma
    by_cases none_ : names = []
    · subst none_
      decide
    have pieces : ∀ p ∈ names.map escapeText, ',' ∉ p := by
      intro p member
      obtain ⟨c, among, rfl⟩ := List.mem_map.mp member
      exact escapeText_noComma (noComma c among)
    have read : (names.map escapeText).map (fun p => trim (unescapeText p)) = names := by
      rw [List.map_map]
      conv_rhs => rw [← List.map_id names]
      apply List.map_congr_left
      intro c member
      show trim (unescapeText (escapeText c)) = c
      rw [unescapeText_escapeText, trimmed c member]
    have kept : names.filter (fun c => !c.isEmpty) = names :=
      List.filter_eq_self.mpr fun c member => by simpa using filled c member
    rw [categoriesValue, parseCategories_intercalate (by simpa using none_) pieces, read, kept]

theorem parse_categoriesValue_iff_team :
    parseCategories (categoriesValue ["Team; A\\B".toList, "Work".toList]) =
        ["Team; A\\B".toList, "Work".toList] ↔
      ∀ c ∈ ["Team; A\\B".toList, "Work".toList], ',' ∉ c :=
  parse_categoriesValue_iff (by decide) (by decide)

/-- An escaped comma cuts its name in two, and its backslash stays. -/
theorem comma_splits_category :
    (∀ c ∈ ["Sales, Lisbon".toList], c ≠ [] ∧ trim c = c) ∧
      parseCategories (categoriesValue ["Sales, Lisbon".toList]) ≠ ["Sales, Lisbon".toList] := by
  decide

end Expresso.CalDav
