import Expresso.Web.Values

/-! The reminders and the links of a stored event: the form takes back what was written. -/

namespace Expresso.Web
open Text hiding contains
open Time
open CalDav (terminated)
open Imap (lines)
open Query (sortUnique mem_sortUnique sortUnique_increasing sortUnique_of_increasing Increasing)

/-! ### Lines -/

theorem trimStart_lineOf (field : Field) : trimStart (lineOf field) = lineOf field := by
  obtain ⟨-, -, filled, noBlank⟩ := text_facts field.1
  obtain ⟨c, rest, text⟩ := List.exists_cons_of_ne_nil filled
  apply trimStart_of_head
  intro d head
  unfold lineOf at head
  rw [text] at head
  cases head
  exact noBlank c (text ▸ List.mem_cons_self)

theorem trimEnd_append {front v : Str} (last : ∀ c ∈ front.getLast?, isWhitespace c = false) :
    trimEnd (front ++ v) = front ++ trimEnd v := by
  have kept := trimEnd_of_last last
  unfold trimEnd at kept ⊢
  rw [List.reverse_append, List.dropWhile_append]
  split
  · next empty =>
    rw [List.isEmpty_iff] at empty
    rw [kept, empty]
    exact (List.append_nil front).symm
  · rw [List.reverse_append, List.reverse_reverse]

theorem trim_lineOf (field : Field) : trim (lineOf field) = lineOf (field.1, trimEnd field.2) := by
  have text : lineOf field = (field.1.text.toList ++ [':']) ++ field.2 := by simp [lineOf]
  have colon : ∀ c ∈ (field.1.text.toList ++ [':']).getLast?, isWhitespace c = false := by
    intro c last
    rw [List.getLast?_concat] at last
    cases last
    decide
  rw [trim, trimStart_lineOf, text, trimEnd_append colon]
  simp [lineOf]

theorem text_injective {head head' : Head} (same : head.text.toList = head'.text.toList) :
    head = head' := by
  have found (head : Head) : ([.begins, .version, .prodid, .method, .uid, .dtstamp, .dtstart,
      .dtend, .status, .sequence, .summary, .location, .description, .categories, .attach,
      .organizer, .attendee, .room, .action, .trigger, .ends] : List Head).find?
        (fun other => other.text.toList = head.text.toList) = some head := by
    cases head <;> decide
  have first := found head
  rw [same, found head'] at first
  exact (Option.some.inj first).symm

/-- The start of a line, up to a colon and on. -/
theorem prefix_lineOf_iff (head : Head) (w : Str) (field : Field) :
    head.text.toList ++ ':' :: w <+: lineOf field ↔ field.1 = head ∧ w <+: field.2 := by
  constructor
  · intro ⟨rest, whole⟩
    have first := splitOnce_append (text_facts head).2.1 (w ++ rest)
    have second := splitOnce_append (text_facts field.1).2.1 field.2
    have same : head.text.toList ++ ':' :: (w ++ rest) = lineOf field := by
      rw [← whole, List.append_assoc]
      rfl
    rw [same] at first
    obtain ⟨texts, values⟩ := Prod.ext_iff.mp (Option.some.inj (first.symm.trans second))
    exact ⟨(text_injective texts).symm, rest, values⟩
  · intro ⟨same, rest, whole⟩
    refine ⟨rest, ?_⟩
    rw [List.append_assoc, List.cons_append, whole, ← same]
    rfl

theorem stripPrefix_lineOf (head : Head) (w : Str) (field : Field) :
    stripPrefix (head.text.toList ++ ':' :: w) (lineOf field) =
      if field.1 = head then stripPrefix w field.2 else none := by
  by_cases starts : head.text.toList ++ ':' :: w <+: lineOf field
  · obtain ⟨same, rest, whole⟩ := (prefix_lineOf_iff head w field).mp starts
    have text : lineOf field = (head.text.toList ++ ':' :: w) ++ rest := by
      rw [List.append_assoc, List.cons_append, whole, ← same]
      rfl
    rw [text, stripPrefix_append, if_pos same, ← whole, stripPrefix_append]
  · have none_ : stripPrefix (head.text.toList ++ ':' :: w) (lineOf field) = none :=
      if_neg (by rwa [List.isPrefixOf_iff_prefix])
    rw [none_]
    split
    · next same =>
      symm
      apply if_neg
      rw [List.isPrefixOf_iff_prefix]
      exact fun inside => starts ((prefix_lineOf_iff head w field).mpr ⟨same, inside⟩)
    · rfl

theorem filterMap_lineOf {α : Type} {read : Str → Option α} {head : Head}
    (other : ∀ field : Field, field.1 ≠ head → read (lineOf field) = none) (l : List Field) :
    (l.map lineOf).filterMap read = (values head l).filterMap fun v => read (lineOf (head, v)) := by
  induction l with
  | nil => rfl
  | cons field rest ih =>
    obtain ⟨head', v⟩ := field
    rw [List.map_cons, List.filterMap_cons, values_cons, ih]
    by_cases same : head' = head
    · subst same
      rw [if_pos rfl, List.filterMap_cons]
    · rw [if_neg same, other (head', v) same]

theorem isPrefixOf_append_cons {text : Str} {c : Char} (absent : c ∉ text) (front s : Str) :
    text.isPrefixOf (front ++ c :: s) = text.isPrefixOf front := by
  induction text generalizing front with
  | nil =>
    rw [List.isPrefixOf_nil_left, List.isPrefixOf_nil_left]
  | cons t rest ih =>
    obtain ⟨other, later⟩ := not_or.mp (List.mem_cons.not.mp absent)
    cases front with
    | nil =>
      rw [List.nil_append, List.isPrefixOf_cons_cons, List.isPrefixOf_cons_nil,
        beq_eq_false_iff_ne.mpr (Ne.symm other), Bool.false_and]
    | cons d others =>
      rw [List.cons_append, List.isPrefixOf_cons_cons, List.isPrefixOf_cons_cons, ih later]

/-! ### Reminders -/

theorem parseUnsigned_display {n max : Nat} (bound : n ≤ max) :
    parseUnsigned max (display n) = some n := by
  have value := digits_toDigits n
  have decimal : ∀ c ∈ Nat.toDigits 10 n, c.isDigit :=
    fun c => Nat.isDigit_of_mem_toDigits (by decide) (by decide)
  have written : display (n : Int) = Nat.toDigits 10 n := rfl
  simp only [written, parseUnsigned]
  split
  · next rest opens =>
    exact absurd (decimal '+' (opens ▸ List.mem_cons_self)) (by decide)
  · rw [value, Option.bind_some, if_pos bound]

theorem parseUnsigned_le {s : Str} {n max : Nat} (read : parseUnsigned max s = some n) :
    n ≤ max := by
  unfold parseUnsigned at read
  obtain ⟨value, -, bound⟩ := Option.bind_eq_some_iff.mp read
  split at bound
  · next small =>
    cases bound
    exact small
  · cases bound

theorem reminderMinutes_le {reminders : Str} : ∀ m ∈ reminderMinutes reminders, m ≤ u32Max := by
  intro m member
  obtain ⟨s, -, read⟩ := List.mem_filterMap.mp (mem_sortUnique.mp (List.mem_of_mem_take member))
  exact parseUnsigned_le read

theorem reminderMinutes_increasing (reminders : Str) : Increasing (reminderMinutes reminders) :=
  (sortUnique_increasing _).sublist (List.take_sublist _ _)

theorem display_noBlank (m : Nat) : ∀ c ∈ display m, isWhitespace c = false := by
  intro c member
  have digit := CalDav.display_isDigit (Int.natCast_nonneg m) c member
  apply Bool.eq_false_iff.mpr
  intro blank
  simp only [Char.isDigit, Bool.and_eq_true, decide_eq_true_eq, UInt32.le_iff_toNat_le,
    ge_iff_le] at digit
  have low : 48 ≤ c.val.toNat := digit.1
  have high : c.val.toNat ≤ 57 := digit.2
  simp only [isWhitespace, Char.toNat, Bool.or_eq_true, Bool.and_eq_true,
    decide_eq_true_eq] at blank
  omega

theorem upper_display (m : Nat) : toAsciiUppercase (display m) = display m := by
  conv_rhs => rw [← List.map_id (display m)]
  apply List.map_congr_left
  intro c member
  have digit := CalDav.display_isDigit (Int.natCast_nonneg m) c member
  simp only [Char.isDigit, Bool.and_eq_true, decide_eq_true_eq, UInt32.le_iff_toNat_le,
    ge_iff_le] at digit
  have high : c.val.toNat ≤ 57 := digit.2
  apply dif_neg
  intro lower
  have low : 97 ≤ c.val.toNat := lower.1
  omega

theorem parseNegDuration_display {m : Nat} (bound : m ≤ u32Max) :
    parseNegDurationMinutes ('T' :: (display m ++ ['M'])) = some m := by
  have noBlank : ∀ c ∈ 'T' :: (display m ++ ['M']), isWhitespace c = false := by
    intro c member
    rcases List.mem_cons.mp member with rfl | later
    · decide
    · rcases List.mem_append.mp later with digit | last
      · exact display_noBlank m c digit
      · rw [List.mem_singleton.mp last]
        decide
  have upper : toAsciiUppercase ('T' :: (display m ++ ['M'])) = 'T' :: (display m ++ ['M']) := by
    have digits := upper_display m
    unfold toAsciiUppercase at digits ⊢
    rw [List.map_cons, List.map_append, digits]
    rfl
  have time : stripPrefix ['T'] ('T' :: (display m ++ ['M'])) = some (display m ++ ['M']) := rfl
  have hours : stripSuffix ['H'] (display m ++ ['M']) = none := by
    simp [stripSuffix]
  have minutes : stripSuffix ['M'] (display m ++ ['M']) = some (display m) := by
    simp [stripSuffix]
  simp only [parseNegDurationMinutes, trim_of_inside noBlank, upper, time, hours, minutes,
    Option.bind_some, parseUnsigned_display bound]

theorem triggerMinutes_lineOf (field : Field) : triggerMinutes (lineOf field) =
    if field.1 = .trigger then ((stripPrefix "-P".toList (trimEnd field.2)).or
      (stripPrefix "-p".toList (trimEnd field.2))).bind parseNegDurationMinutes else none := by
  have upper : "TRIGGER:-P".toList = Head.trigger.text.toList ++ ':' :: "-P".toList := by decide
  have lower : "TRIGGER:-p".toList = Head.trigger.text.toList ++ ':' :: "-p".toList := by decide
  unfold triggerMinutes
  rw [trim_lineOf, upper, lower, stripPrefix_lineOf, stripPrefix_lineOf]
  split <;> rfl

theorem triggerMinutes_display {m : Nat} (bound : m ≤ u32Max) :
    triggerMinutes (lineOf (.trigger, "-PT".toList ++ display m ++ ['M'])) = some m := by
  have ended : trimEnd ("-PT".toList ++ display m ++ ['M']) =
      "-P".toList ++ 'T' :: (display m ++ ['M']) := by
    rw [trimEnd_of_last]
    · have start : "-PT".toList = "-P".toList ++ ['T'] := by decide
      rw [start, List.append_assoc, List.append_assoc]
      rfl
    · intro c last
      rw [List.getLast?_concat] at last
      cases last
      decide
  rw [triggerMinutes_lineOf, if_pos rfl]
  simp only [ended, stripPrefix_append, Option.some_or, Option.bind_some]
  exact parseNegDuration_display bound

theorem split_join {pieces : List Str} (nonempty : pieces ≠ [])
    (absent : ∀ piece ∈ pieces, ',' ∉ piece) : split ',' (join "," pieces) = pieces :=
  CalDav.Itip.split_intercalate nonempty absent

/-- The minutes that are read from the alarms are those that were written. -/
theorem valarmMinutes_round_trip {l : List Field} (oneLines : OneLines l) {reminders : Str}
    (triggers : values .trigger l = (reminderMinutes reminders).map fun m : Nat =>
      "-PT".toList ++ display m ++ ['M']) :
    reminderMinutes (valarmMinutes (terminated (l.map lineOf))) = reminderMinutes reminders := by
  have increasing := reminderMinutes_increasing reminders
  have bound := @reminderMinutes_le reminders
  have short : (reminderMinutes reminders).length ≤ 10 := List.length_take_le _ _
  have other : ∀ field : Field, field.1 ≠ .trigger → triggerMinutes (lineOf field) = none := by
    intro field apart
    rw [triggerMinutes_lineOf, if_neg apart]
  have read : (lines (terminated (l.map lineOf))).filterMap triggerMinutes =
      reminderMinutes reminders := by
    rw [lines_lineOf oneLines, filterMap_lineOf other, triggers,
      List.filterMap_map]
    exact (List.filterMap_congr fun m member =>
      triggerMinutes_display (bound m member)).trans List.filterMap_some
  unfold valarmMinutes
  rw [read, sortUnique_of_increasing increasing]
  generalize reminderMinutes reminders = minutes at increasing bound short
  have reread : ((split ',' (join "," (minutes.map fun m : Nat => display m))).filterMap fun s =>
      parseUnsigned u32Max (trim s)) = minutes := by
    by_cases empty : minutes = []
    · rw [empty]
      decide
    · rw [split_join (by simpa using empty), List.filterMap_map]
      · refine (List.filterMap_congr fun m member => ?_).trans List.filterMap_some
        show parseUnsigned u32Max (trim (display m)) = some m
        rw [trim_of_inside (display_noBlank m), parseUnsigned_display (bound m member)]
      · intro piece member comma
        obtain ⟨m, -, rfl⟩ := List.mem_map.mp member
        exact absurd (CalDav.display_isDigit (Int.natCast_nonneg m) ',' comma) (by decide)
  unfold reminderMinutes
  rw [reread, sortUnique_of_increasing increasing, List.take_of_length_le short]

/-! ### Links -/

theorem attachedUri_lineOf (field : Field) : attachedUri (lineOf field) =
    if field.1 = .attach then (some (trim field.2)).filter (!·.isEmpty) else none := by
  have name : "ATTACH:".toList = Head.attach.text.toList ++ ':' :: [] := by decide
  unfold attachedUri
  rw [trimStart_lineOf, name, stripPrefix_lineOf]
  split <;> rfl

theorem IsUri.nonempty {uri : Str} (is : IsUri uri) : uri ≠ [] := by
  rintro rfl
  have known := is.known
  revert known
  decide

/-- The links that are read are those that were written. -/
theorem attachments_round_trip {l : List Field} (oneLines : OneLines l) {attachments : Str}
    (links : values .attach l = parseAttachmentUris attachments) :
    parseAttachmentUris (attachmentsFromIcal (terminated (l.map lineOf))) =
      parseAttachmentUris attachments := by
  have are : ∀ uri ∈ parseAttachmentUris attachments, IsUri uri := fun _ => isUri_of_mem
  have short : (parseAttachmentUris attachments).length ≤ 20 := List.length_take_le _ _
  have apart : (parseAttachmentUris attachments).IsChain (· ≠ ·) :=
    (List.isChain_destutter _ _).take 20
  have other : ∀ field : Field, field.1 ≠ .attach → attachedUri (lineOf field) = none := by
    intro field elsewhere
    rw [attachedUri_lineOf, if_neg elsewhere]
  have read : (lines (terminated (l.map lineOf))).filterMap attachedUri =
      parseAttachmentUris attachments := by
    rw [lines_lineOf oneLines, filterMap_lineOf other, links]
    refine (List.filterMap_congr fun uri member => ?_).trans List.filterMap_some
    rw [attachedUri_lineOf, if_pos rfl, (are uri member).trimmed]
    apply Option.filter_some_pos
    simpa using (are uri member).nonempty
  unfold attachmentsFromIcal
  rw [read]
  generalize parseAttachmentUris attachments = uris at are short apart
  have pieces : ((((join "\n" uris).splitOnP separatesUris).map trim).filter knownScheme) =
      uris := by
    by_cases empty : uris = []
    · rw [empty]
      decide
    · have split : (join "\n" uris).splitOnP separatesUris = uris :=
        splitOnP_join (by decide) empty fun uri member => (are uri member).inside
      have trimmed : uris.map trim = uris := by
        conv_rhs => rw [← List.map_id uris]
        exact List.map_congr_left fun uri member => (are uri member).trimmed
      rw [split, trimmed, List.filter_eq_self.mpr fun uri member => (are uri member).known]
  unfold parseAttachmentUris
  rw [pieces, List.destutter_of_isChain _ _ apart, List.take_of_length_le short]

end Expresso.Web
