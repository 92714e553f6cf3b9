import Mathlib

/-! Pieces that are appended one after the other, each at the offset where the one before it ends:
in the order of their offsets they give the same whole. -/

namespace Expresso.Text

variable {ι α : Type} {offset : ι → Nat} {body : ι → List α} {start : Nat} {l log : List ι} {i : ι}

def joined (body : ι → List α) (l : List ι) : List α := l.flatMap body

/-- Every piece begins where the pieces before it end. -/
def Chained (offset : ι → Nat) (body : ι → List α) : Nat → List ι → Prop
  | _, [] => True
  | start, i :: rest => offset i = start ∧ Chained offset body (start + (body i).length) rest

theorem joined_snoc : joined body (l ++ [i]) = joined body l ++ body i := by
  unfold joined
  rw [List.flatMap_append, List.flatMap_singleton]

theorem chained_snoc : Chained offset body start (l ++ [i]) ↔
    Chained offset body start l ∧ offset i = start + (joined body l).length := by
  induction l generalizing start with
  | nil => exact ⟨fun chained => ⟨trivial, chained.1⟩, fun chained => ⟨chained.2, trivial⟩⟩
  | cons j rest ih =>
    show _ ∧ Chained offset body _ (rest ++ [i]) ↔ (_ ∧ _) ∧ _
    rw [ih, and_assoc]
    have split : (joined body (j :: rest)).length = (body j).length + (joined body rest).length :=
      List.length_append
    rw [split, Nat.add_assoc]

theorem Chained.le (chained : Chained offset body start l) (member : i ∈ l) :
    start ≤ offset i := by
  induction l generalizing start with
  | nil => cases member
  | cons j rest ih =>
    rcases List.mem_cons.mp member with rfl | later
    · exact chained.1 ▸ Nat.le_refl _
    · exact Nat.le_trans (Nat.le_add_right _ _) (ih chained.2 later)

/-- No two pieces with a content begin at the same place. -/
theorem Chained.ordered (chained : Chained offset body start l) :
    (l.filter fun i => !(body i).isEmpty).Pairwise (offset · < offset ·) := by
  induction l generalizing start with
  | nil => exact .nil
  | cons j rest ih =>
    rw [List.filter_cons]
    split_ifs with full
    · apply List.Pairwise.cons _ (ih chained.2)
      intro i member
      have later := chained.2.le (List.mem_filter.mp member).1
      have long : 0 < (body j).length := by
        rw [List.length_pos_iff]
        simpa using full
      rw [chained.1]
      omega
    · exact ih chained.2

theorem joined_filter : joined body (l.filter fun i => !(body i).isEmpty) = joined body l := by
  induction l with
  | nil => rfl
  | cons j rest ih =>
    rw [List.filter_cons]
    split_ifs with full
    · exact congrArg (body j ++ ·) ih
    · have empty : body j = [] := by simpa using full
      rw [ih]
      show _ = body j ++ joined body rest
      rw [empty]
      rfl

/-- The pieces that are not empty, sorted by their offsets. -/
theorem joined_sorted (chained : Chained offset body start log) (distinct : log.Nodup)
    (once : l.Nodup) (same : ∀ i, body i ≠ [] → (i ∈ l ↔ i ∈ log))
    (sorted : l.Pairwise (offset · ≤ offset ·)) : joined body l = joined body log := by
  have members : ∀ i, i ∈ l.filter (fun i => !(body i).isEmpty) ↔
      i ∈ log.filter fun i => !(body i).isEmpty := by
    intro i
    rw [List.mem_filter, List.mem_filter]
    apply and_congr_left
    intro full
    exact same i (by simpa using full)
  have permuted : (l.filter fun i => !(body i).isEmpty).Perm
      (log.filter fun i => !(body i).isEmpty) :=
    (List.perm_ext_iff_of_nodup (once.filter _) (distinct.filter _)).mpr members
  have apart := chained.ordered
  have equal : (l.filter fun i => !(body i).isEmpty) =
      log.filter fun i => !(body i).isEmpty := by
    apply permuted.eq_of_pairwise _ (sorted.sublist List.filter_sublist) (apart.imp Nat.le_of_lt)
    intro a b first second le ge
    have offsets : ((log.filter fun i => !(body i).isEmpty).map offset).Nodup :=
      List.pairwise_map.mpr (apart.imp Nat.ne_of_lt)
    exact List.inj_on_of_nodup_map offsets ((members a).mp first) second (Nat.le_antisymm le ge)
  rw [← joined_filter, equal, joined_filter]

end Expresso.Text
