import Mathlib.Data.Char
import Mathlib.Data.List.Lex
import Mathlib.Data.List.Sort
import PaneCompletion.Text.Order

/-!
# Sorting by a key

`Text.le` is the lexicographic order of code points, and `sortOn` is insertion sort by it, so what
is sorted is in ascending order of keys and loses nothing.
-/

namespace PaneCompletion

theorem Text.toNat_lt_iff {c d : Char} : c.toNat < d.toNat ↔ c < d :=
  UInt32.lt_iff_toNat_lt.symm

theorem Text.le_iff {a b : Text} : le a b = true ↔ a ≤ b := by
  induction a generalizing b with
  | nil =>
    cases b with
    | nil => simp [le]
    | cons d b => simp [le, le_iff_lt_or_eq]
  | cons c a ih =>
    cases b with
    | nil => simp [le, le_iff_lt_or_eq]
    | cons d b =>
      rw [le, le_iff_lt_or_eq, List.cons_lt_cons_iff]
      by_cases hcd : c = d
      · subst hcd
        simp [ih, le_iff_lt_or_eq]
      · simp [hcd, toNat_lt_iff]

variable {α : Type} (key : α → Text)

theorem insertOn_eq_orderedInsert (a : α) (as : List α) :
    insertOn key a as = as.orderedInsert (fun a b => key a ≤ key b) a := by
  induction as with
  | nil => rfl
  | cons b rest ih => simp only [insertOn, List.orderedInsert_cons, Text.le_iff, ih]

theorem sortOn_eq_insertionSort (as : List α) :
    sortOn key as = as.insertionSort (fun a b => key a ≤ key b) := by
  induction as with
  | nil => rfl
  | cons a rest ih => rw [sortOn, List.insertionSort_cons, ih, insertOn_eq_orderedInsert]

theorem sortOn_perm (as : List α) : (sortOn key as).Perm as := by
  rw [sortOn_eq_insertionSort]
  exact List.perm_insertionSort _ as

theorem pairwise_sortOn (as : List α) :
    (sortOn key as).Pairwise fun a b => key a ≤ key b := by
  have htotal : Std.Total fun a b : α => key a ≤ key b := ⟨fun a b => le_total (key a) (key b)⟩
  have htrans : IsTrans α fun a b => key a ≤ key b := ⟨fun _ _ _ => le_trans⟩
  rw [sortOn_eq_insertionSort]
  exact List.pairwise_insertionSort _ as

/-- Where no two entries have one key, the order in which they come does not matter. -/
theorem sortOn_eq_of_perm {as bs : List α} (h : as.Perm bs)
    (hkey : ∀ a ∈ as, ∀ b ∈ as, key a = key b → a = b) : sortOn key as = sortOn key bs := by
  have hperm : (sortOn key as).Perm (sortOn key bs) :=
    (sortOn_perm key as).trans (h.trans (sortOn_perm key bs).symm)
  refine hperm.eq_of_pairwise (fun a b ha hb hle hge => ?_) (pairwise_sortOn key as)
    (pairwise_sortOn key bs)
  exact hkey a ((sortOn_perm key as).mem_iff.mp ha) b
    (h.mem_iff.mpr ((sortOn_perm key bs).mem_iff.mp hb)) (le_antisymm hle hge)

end PaneCompletion
