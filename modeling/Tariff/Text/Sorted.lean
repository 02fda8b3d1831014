/-!
# Sorted texts

Names are shown in the order of their code points. `sorted` brings a list of names into that
order. `sortUnique` shows a set of names, given by any list of them: it takes each name once,
and forgets everything about the list but which names are in it.
-/

namespace Tariff.Text

/-- The texts of a list in order. -/
def sorted (texts : List String) : List String := texts.mergeSort fun s t => decide (s ≤ t)

/-- Sorting keeps which texts are in the list. -/
@[simp] theorem mem_sorted {s : String} {texts : List String} : s ∈ sorted texts ↔ s ∈ texts :=
  List.mem_mergeSort

/-- Sorting puts every text before all that are not less. -/
theorem pairwise_sorted (texts : List String) : (sorted texts).Pairwise (· ≤ ·) := by
  have hpairwise : (sorted texts).Pairwise fun s t => decide (s ≤ t) = true :=
    List.pairwise_mergeSort
      (fun s t u hst htu => by
        simp only [decide_eq_true_eq] at *
        exact String.le_trans hst htu)
      (fun s t => by simpa using String.le_total s t) texts
  exact hpairwise.imp fun h => by simpa using h

/-- Sorting texts that are all different puts every text before all that are greater. -/
theorem pairwise_lt_sorted {texts : List String} (h : texts.Nodup) :
    (sorted texts).Pairwise (· < ·) := by
  have hnodup : (sorted texts).Nodup := (List.mergeSort_perm texts _).nodup_iff.2 h
  refine ((pairwise_sorted texts).and hnodup).imp fun ⟨hle, hne⟩ => ?_
  exact String.not_le.1 fun hge => hne (String.le_antisymm hle hge)

/-- Puts a text into a sorted list, unless it is there. -/
def insertSorted (s : String) : List String → List String
  | [] => [s]
  | t :: rest =>
    if s < t then s :: t :: rest else if s = t then t :: rest else t :: insertSorted s rest

/-- The texts of a list in order, each once. -/
def sortUnique (texts : List String) : List String := texts.foldr insertSorted []

@[simp] theorem mem_insertSorted {s t : String} {texts : List String} :
    s ∈ insertSorted t texts ↔ s = t ∨ s ∈ texts := by
  induction texts with
  | nil => simp [insertSorted]
  | cons head rest ih =>
    unfold insertSorted
    split
    · simp
    · split
      · next h => simp [h]
      · simp only [List.mem_cons, ih]
        constructor
        · rintro (rfl | rfl | h) <;> simp_all
        · rintro (rfl | rfl | h) <;> simp_all

/-- Sorting keeps which texts are in the list. -/
@[simp] theorem mem_sortUnique {s : String} {texts : List String} :
    s ∈ sortUnique texts ↔ s ∈ texts := by
  induction texts with
  | nil => simp [sortUnique]
  | cons head rest ih =>
    change s ∈ insertSorted head (sortUnique rest) ↔ _
    rw [mem_insertSorted, ih, List.mem_cons]

/-- A sorted list stays sorted, without repetitions. -/
theorem pairwise_insertSorted {s : String} {texts : List String} (h : texts.Pairwise (· < ·)) :
    (insertSorted s texts).Pairwise (· < ·) := by
  induction texts with
  | nil => exact List.pairwise_singleton _ s
  | cons t rest ih =>
    obtain ⟨hhead, hrest⟩ := List.pairwise_cons.1 h
    unfold insertSorted
    split
    · next hless =>
      refine List.pairwise_cons.2 ⟨fun u hu => ?_, h⟩
      rcases List.mem_cons.1 hu with rfl | hu
      · exact hless
      · exact String.lt_trans hless (hhead u hu)
    · next hnotLess =>
      split
      · exact h
      · next hne =>
        refine List.pairwise_cons.2 ⟨fun u hu => ?_, ih hrest⟩
        rcases mem_insertSorted.1 hu with rfl | hu
        · exact Decidable.byContradiction fun hnot =>
            hne (String.le_antisymm (String.not_lt.1 hnot) (String.not_lt.1 hnotLess))
        · exact hhead u hu

/-- Sorting puts every text before all that are greater, and none twice. -/
theorem pairwise_sortUnique (texts : List String) : (sortUnique texts).Pairwise (· < ·) := by
  induction texts with
  | nil => exact List.Pairwise.nil
  | cons head rest ih => exact pairwise_insertSorted ih

end Tariff.Text
