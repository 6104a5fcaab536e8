import PaneCompletion.Proofs.Text.Order

/-!
# Stable sorting

`sortOn` leaves entries of one key in the order in which they came (`filter_sortOn`), and a sorted
list is told by the entries that it has of each key (`eq_of_filter_eq`). So a part of a list may be
sorted on its own before the whole is (`sortOn_part`). A single entry has its place behind the
entries of no greater key that came before it (`exists_sortOn_middle`).

1. entries of one key;
2. the place of an entry.
-/

namespace PaneCompletion

variable {α : Type} (key : α → Text)

/-! ## Entries of one key -/

theorem filter_insertOn (k : Text) (a : α) (as : List α) :
    (insertOn key a as).filter (key · = k) = (a :: as).filter (key · = k) := by
  induction as with
  | nil => rfl
  | cons b rest ih =>
    rw [insertOn]
    split
    · rfl
    · next hle =>
      -- the two change places, so one of them is left out
      have hne : ¬(key a = k ∧ key b = k) := by
        rintro ⟨rfl, hb⟩
        exact hle (Text.le_iff.mpr hb.ge)
      rw [List.filter_cons, ih]
      simp only [List.filter_cons]
      split_ifs with hb ha
      · exact absurd ⟨of_decide_eq_true ha, of_decide_eq_true hb⟩ hne
      · rfl
      · rfl
      · rfl

/-- Sorting leaves the entries of a key in the order in which they came. -/
theorem filter_sortOn (k : Text) (as : List α) :
    (sortOn key as).filter (key · = k) = as.filter (key · = k) := by
  induction as with
  | nil => rfl
  | cons a rest ih => rw [sortOn, filter_insertOn, List.filter_cons, List.filter_cons, ih]

variable {key}

/-- Sorted lists are the same if they have the same entries of each key in the same order. -/
theorem eq_of_filter_eq {as bs : List α} (has : as.Pairwise fun a b => key a ≤ key b)
    (hbs : bs.Pairwise fun a b => key a ≤ key b)
    (h : ∀ k, as.filter (key · = k) = bs.filter (key · = k)) : as = bs := by
  induction as generalizing bs with
  | nil =>
    cases bs with
    | nil => rfl
    | cons b rest => simpa using h (key b)
  | cons a as ih =>
    cases bs with
    | nil => simpa using h (key a)
    | cons b bs =>
      have hmem : ∀ x : α, x ∈ a :: as ↔ x ∈ b :: bs := by
        intro x
        have hx := congrArg (x ∈ ·) (h (key x))
        simpa [List.mem_filter] using hx
      have hle : key a ≤ key b := by
        rcases List.mem_cons.mp ((hmem b).mpr List.mem_cons_self) with rfl | hb
        · exact le_rfl
        · exact List.rel_of_pairwise_cons has hb
      have hge : key b ≤ key a := by
        rcases List.mem_cons.mp ((hmem a).mp List.mem_cons_self) with rfl | ha
        · exact le_rfl
        · exact List.rel_of_pairwise_cons hbs ha
      have hkey : key b = key a := le_antisymm hge hle
      have hfirst := h (key a)
      simp only [List.filter_cons, hkey, decide_true, if_true] at hfirst
      obtain ⟨rfl, -⟩ := List.cons.inj hfirst
      have hrest : ∀ k, as.filter (key · = k) = bs.filter (key · = k) := by
        intro k
        have hk := h k
        rw [List.filter_cons, List.filter_cons] at hk
        split at hk
        · exact (List.cons.inj hk).2
        · exact hk
      rw [ih has.of_cons hbs.of_cons hrest]

/-- A part of a list may be sorted before the whole is. -/
theorem sortOn_part (a b c : List α) :
    sortOn key (a ++ sortOn key b ++ c) = sortOn key (a ++ b ++ c) := by
  refine eq_of_filter_eq (pairwise_sortOn _ _) (pairwise_sortOn _ _) fun k => ?_
  simp only [filter_sortOn, List.filter_append]

/-! ## The place of an entry -/

theorem mem_insertOn {a b : α} {as : List α} : b ∈ insertOn key a as ↔ b = a ∨ b ∈ as := by
  rw [insertOn_eq_orderedInsert, List.mem_orderedInsert]

theorem exists_insertOn (key : α → Text) (a : α) (as : List α) :
    ∃ front rest, insertOn key a as = front ++ a :: rest ∧ as = front ++ rest := by
  induction as with
  | nil => exact ⟨[], [], rfl, rfl⟩
  | cons b more ih =>
    rw [insertOn]
    split
    · exact ⟨[], b :: more, rfl, rfl⟩
    · obtain ⟨front, rest, hinsert, rfl⟩ := ih
      exact ⟨b :: front, rest, by rw [hinsert]; rfl, rfl⟩

/-- An entry goes in front of all that have no smaller keys. -/
theorem insertOn_append_of_le {a : α} {front rest : List α} (h : ∀ b ∈ rest, key a ≤ key b) :
    insertOn key a (front ++ rest) = insertOn key a front ++ rest := by
  induction front with
  | nil =>
    cases rest with
    | nil => rfl
    | cons b rest => exact if_pos (Text.le_iff.mpr (h b List.mem_cons_self))
  | cons b front ih =>
    rw [List.cons_append, insertOn, insertOn]
    split
    · rfl
    · rw [ih, List.cons_append]

/-- An entry goes behind all that have smaller keys. -/
theorem insertOn_append_of_lt {a : α} {front rest : List α} (h : ∀ b ∈ front, key b < key a) :
    insertOn key a (front ++ rest) = front ++ insertOn key a rest := by
  induction front with
  | nil => rfl
  | cons b front ih =>
    obtain ⟨hb, hfront⟩ := List.forall_mem_cons.mp h
    rw [List.cons_append, insertOn, if_neg (fun hle => hb.not_ge (Text.le_iff.mp hle)), ih hfront]
    rfl

/-- Sorting puts an entry at one place among the others, behind those of no greater key that came
before it. -/
theorem exists_sortOn_middle (key : α → Text) (before : List α) (a : α) (after : List α) :
    ∃ front rest, sortOn key (before ++ a :: after) = front ++ a :: rest ∧
      sortOn key (before ++ after) = front ++ rest ∧
      ∀ b ∈ before, key b ≤ key a → b ∈ front := by
  induction before with
  | nil =>
    obtain ⟨front, rest, hwith, hwithout⟩ := exists_insertOn key a (sortOn key after)
    exact ⟨front, rest, hwith, hwithout, by simp⟩
  | cons b before ih =>
    obtain ⟨front, rest, hwith, hwithout, hfront⟩ := ih
    have hsorted := pairwise_sortOn key (before ++ a :: after)
    rw [hwith] at hsorted
    obtain ⟨-, hbehind, hacross⟩ := List.pairwise_append.mp hsorted
    rw [List.pairwise_cons] at hbehind
    simp only [List.cons_append, sortOn, hwith, hwithout]
    rcases le_or_gt (key b) (key a) with hle | hlt
    · have hrest : ∀ c ∈ rest, key b ≤ key c := fun c hc => hle.trans (hbehind.1 c hc)
      refine ⟨insertOn key b front, rest, insertOn_append_of_le ?_, insertOn_append_of_le hrest, ?_⟩
      · exact List.forall_mem_cons.mpr ⟨hle, hrest⟩
      · intro c hc hca
        rw [mem_insertOn]
        exact (List.mem_cons.mp hc).imp_right fun hc => hfront c hc hca
    · have hless : ∀ c ∈ front, key c < key b := fun c hc =>
        (hacross c hc a List.mem_cons_self).trans_lt hlt
      refine ⟨front, insertOn key b rest, ?_, insertOn_append_of_lt hless, ?_⟩
      · rw [insertOn_append_of_lt hless, insertOn, if_neg (fun h => hlt.not_ge (Text.le_iff.mp h))]
      · intro c hc hca
        rcases List.mem_cons.mp hc with rfl | hc
        · exact absurd hca hlt.not_ge
        · exact hfront c hc hca

end PaneCompletion
