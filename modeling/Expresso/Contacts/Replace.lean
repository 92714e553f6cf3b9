import Expresso.Contacts.Columns

/-! Which contact an upload replaces. -/

namespace Expresso.Contacts
open Text
open CalDav (Crates)

section
variable {crates : Crates} {fresh : Uuid}

theorem find_own {t : Tables} {c : Contact} (coherent : Coherent t) (member : c ∈ t.contacts) :
    t.contacts.find? (·.under c.addressbookId c.uid) = some c := by
  have under : c.under c.addressbookId c.uid = true := under_iff.mpr rfl
  obtain ⟨old, found⟩ := Option.isSome_iff_exists.mp (List.find?_isSome.mpr ⟨c, member, under⟩)
  have same := List.inj_on_of_nodup_map coherent.keys (List.mem_of_find?_eq_some found) member
    (under_iff.mp (List.find?_some found))
  rw [found, same]

/-- Whether an upload finds a contact of the address book: the row under the UID is the one that
is replaced. -/
theorem replace_own_iff {t : Tables} {c : Contact} {raw : Str} {p : ParsedVCard}
    (coherent : Coherent t) (keyed : Keyed t) (member : c ∈ t.contacts) (read : parse raw = .ok p) :
    (Elsewhere c.id t (t.after crates (.replaceByUid c.tenantId c.addressbookId fresh raw)) ∧
      ∃ row ∈ (t.after crates (.replaceByUid c.tenantId c.addressbookId fresh raw)).contacts,
        row.id = c.id ∧ row.vcardRaw = raw) ↔ c.uid = p.uid ∧ '\x00' ∉ raw := by
  have one {row : Contact} (listed : row ∈ t.contacts) (same : row.id = c.id) : row = c :=
    List.inj_on_of_nodup_map coherent.ids listed member same
  constructor
  · intro ⟨_, row, stored, same, text⟩
    have own : row.Keyed := keyed.after coherent _ row stored
    refine ⟨?_, text ▸ own.1⟩
    cases done : ContactRepo.replaceByUid crates c.tenantId c.addressbookId fresh raw t with
    | error reason =>
      have result : t.after crates (.replaceByUid c.tenantId c.addressbookId fresh raw) = t := by
        show ((ContactRepo.replaceByUid _ _ _ _ _ _).map _).toOption.getD t = t
        rw [done]
        rfl
      rw [result] at stored
      rw [← one stored same]
      exact own.uid_eq text read
    | ok written =>
      obtain ⟨t', saved⟩ := written
      have result : t.after crates (.replaceByUid c.tenantId c.addressbookId fresh raw) = t' :=
        result_ok done
      rw [result] at stored
      have elsewhere := (saved_replaceByUid coherent done).elsewhere
      by_cases here : c.id = saved.id
      · obtain ⟨q, read', shape, place⟩ := ContactRepo.replaceByUid_ok.mp done
        cases read.symm.trans read'
        cases found : t.contacts.find? (·.under c.addressbookId p.uid) with
        | none =>
          rw [found] at place
          exact absurd here ((insert_ok place).1.2.2.1 c member)
        | some old =>
          rw [found] at shape
          have replaced : old.id = c.id := by
            rw [here, shape]
            rfl
          rw [← one (List.mem_of_find?_eq_some found) replaced]
          exact congrArg Prod.snd (under_iff.mp (List.find?_some found))
      · have kept := (elsewhere.contacts row (same ▸ here)).mp stored
        rw [← one kept same]
        exact own.uid_eq text read
  · intro ⟨uid, noZero⟩
    have found := find_own coherent member
    rw [uid] at found
    have accepted : Accepts t c.tenantId c.addressbookId fresh raw
        (t.contacts.find? (·.under c.addressbookId p.uid)) := by
      rw [found]
      exact ⟨noZero, rfl⟩
    obtain ⟨t', row, done⟩ := (accepts_iff coherent read).mp accepted
    have result : t.after crates (.replaceByUid c.tenantId c.addressbookId fresh raw) = t' :=
      result_ok done
    have saved := saved_replaceByUid coherent done
    obtain ⟨q, read', shape, _⟩ := ContactRepo.replaceByUid_ok.mp done
    cases read.symm.trans read'
    rw [found] at shape
    have same : row.id = c.id := by
      rw [shape]
      rfl
    rw [result]
    refine ⟨same ▸ saved.elsewhere, row, saved.stored, same, ?_⟩
    rw [shape]
    rfl

/-- A deletion by the id takes the one contact, with its child rows. -/
theorem delete_own {t : Tables} {c : Contact} (coherent : Coherent t) (member : c ∈ t.contacts) :
    Elsewhere c.id t (t.after crates (.delete c.tenantId c.id)) ∧
      ∀ row ∈ (t.after crates (.delete c.tenantId c.id)).contacts, row.id ≠ c.id := by
  show Elsewhere c.id t (t.remove fun x => x.tenantId = c.tenantId && x.id = c.id) ∧ _
  have stays (j : Uuid) (other : j ≠ c.id) : (!t.contacts.any fun x =>
      (x.tenantId = c.tenantId && x.id = c.id) && x.id = j) = true := by
    rw [Bool.not_eq_true', List.any_eq_false]
    intro x _ both
    simp only [Bool.and_eq_true, decide_eq_true_eq] at both
    exact other (both.2.symm.trans both.1.2)
  refine ⟨⟨?_, ?_, ?_⟩, ?_⟩
  · intro x other
    have kept : (!(x.tenantId = c.tenantId && x.id = c.id)) = true := by simp [other]
    exact ⟨List.mem_of_mem_filter, fun listed => List.mem_filter.mpr ⟨listed, kept⟩⟩
  · intro j other
    apply filter_kept EmailRow.contactId
    exact fun r _ own => own ▸ stays j other
  · intro j other
    apply filter_kept AddressRow.contactId
    exact fun r _ own => own ▸ stays j other
  · intro row stored same
    obtain ⟨listed, kept⟩ := List.mem_filter.mp stored
    rw [List.inj_on_of_nodup_map coherent.ids listed member same] at kept
    simp at kept

end

end Expresso.Contacts
