import Mathlib.Data.List.Induction
import PaneCompletion.Text.Basic

/-!
# Cutting and joining

How `pieces` and `joined` undo each other, and where in a joined text each piece begins.

1. pieces;
2. pieces joined again;
3. where pieces begin.
-/

namespace PaneCompletion.Text

/-! ## Pieces -/

theorem pieces_cons_separator (s : Char) (text : Text) :
    pieces s (s :: text) = [] :: pieces s text := by
  rw [pieces, if_pos rfl]

theorem pieces_cons {s c : Char} (hc : c ≠ s) (text : Text) :
    pieces s (c :: text) = onFirst c (pieces s text) := by
  rw [pieces, if_neg hc]

theorem pieces_ne_nil (s : Char) (text : Text) : pieces s text ≠ [] := by
  cases text with
  | nil => simp [pieces]
  | cons c rest =>
    by_cases hc : c = s
    · rw [hc, pieces_cons_separator]
      simp
    · rw [pieces_cons hc]
      cases pieces s rest <;> simp [onFirst]

/-- A text that does not begin with the separator begins its first piece. -/
theorem exists_pieces_cons {s c : Char} (hc : c ≠ s) (text : Text) :
    ∃ first more, pieces s (c :: text) = (c :: first) :: more := by
  obtain ⟨first, more, hpieces⟩ := List.exists_cons_of_ne_nil (pieces_ne_nil s text)
  exact ⟨first, more, by rw [pieces_cons hc, hpieces, onFirst]⟩

/-- A text is cut at each separator on its own. -/
theorem pieces_append (s : Char) (a b : Text) :
    pieces s (a ++ s :: b) = pieces s a ++ pieces s b := by
  induction a with
  | nil => rw [List.nil_append, pieces_cons_separator]; rfl
  | cons c rest ih =>
    by_cases hc : c = s
    · rw [hc, List.cons_append, pieces_cons_separator, pieces_cons_separator, ih]
      rfl
    · rw [List.cons_append, pieces_cons hc, pieces_cons hc, ih]
      cases hpieces : pieces s rest with
      | nil => exact absurd hpieces (pieces_ne_nil s rest)
      | cons piece more => rfl

theorem pieces_eq_singleton {s : Char} {text : Text} (hs : s ∉ text) : pieces s text = [text] := by
  induction text with
  | nil => rfl
  | cons c rest ih =>
    obtain ⟨hc, hrest⟩ : s ≠ c ∧ s ∉ rest := by simpa using hs
    rw [pieces_cons hc.symm, ih hrest]
    rfl

theorem not_mem_of_mem_pieces {s : Char} {text piece : Text} (h : piece ∈ pieces s text) :
    s ∉ piece := by
  induction text generalizing piece with
  | nil => simp_all [pieces]
  | cons c rest ih =>
    by_cases hc : c = s
    · rw [hc, pieces_cons_separator, List.mem_cons] at h
      rcases h with rfl | h
      · simp
      · exact ih h
    · rw [pieces_cons hc] at h
      cases hpieces : pieces s rest with
      | nil => exact absurd hpieces (pieces_ne_nil s rest)
      | cons first more =>
        rw [hpieces, onFirst, List.mem_cons] at h
        rcases h with rfl | h
        · have hfirst : s ∉ first := ih (by simp [hpieces])
          simpa [hfirst] using Ne.symm hc
        · exact ih (by simp [hpieces, h])

/-! ## Pieces joined again -/

theorem joined_cons (s piece : Text) {more : List Text} (hmore : more ≠ []) :
    joined s (piece :: more) = piece ++ s ++ joined s more := by
  cases more with
  | nil => exact absurd rfl hmore
  | cons next rest => rfl

theorem joined_ne_nil {s : Text} {texts : List Text} (hne : texts ≠ [])
    (htexts : ∀ t ∈ texts, t ≠ []) : joined s texts ≠ [] := by
  obtain ⟨first, more, rfl⟩ := List.exists_cons_of_ne_nil hne
  have hfirst := htexts first (by simp)
  cases more with
  | nil => simpa [joined] using hfirst
  | cons next rest => simp [joined, hfirst]

theorem pieces_joined {s : Char} {texts : List Text} (hne : texts ≠ [])
    (htexts : ∀ t ∈ texts, s ∉ t) : pieces s (joined [s] texts) = texts := by
  induction texts with
  | nil => exact absurd rfl hne
  | cons first more ih =>
    have hfirst := htexts first (by simp)
    cases more with
    | nil => exact pieces_eq_singleton hfirst
    | cons next rest =>
      rw [joined_cons _ _ (by simp), List.append_assoc, List.singleton_append, pieces_append,
        pieces_eq_singleton hfirst, ih (by simp) (fun t ht => htexts t (by simp [ht]))]
      rfl

theorem joined_pieces (s : Char) (text : Text) : joined [s] (pieces s text) = text := by
  induction text with
  | nil => rfl
  | cons c rest ih =>
    by_cases hc : c = s
    · rw [hc, pieces_cons_separator, joined_cons _ _ (pieces_ne_nil s rest), ih]
      rfl
    · rw [pieces_cons hc]
      cases hpieces : pieces s rest with
      | nil => exact absurd hpieces (pieces_ne_nil s rest)
      | cons first more =>
        rw [hpieces] at ih
        cases more with
        | nil => exact congrArg (c :: ·) ih
        | cons next others => exact congrArg (c :: ·) ih

/-! ## Where pieces begin -/

/-- The offsets at which texts begin that single characters set apart. -/
def beginnings : List Text → List Nat
  | [] => []
  | first :: more => 0 :: (beginnings more).map (first.length + 1 + ·)

/-- The last of several texts stands at the end of what they join to, where the offsets say. -/
theorem exists_joined_eq_append {texts : List Text} (hne : texts ≠ []) (s : Char) :
    ∃ front, joined [s] texts = front ++ texts.getLast hne ∧
      (beginnings texts).getLast? = some front.length := by
  induction texts with
  | nil => exact absurd rfl hne
  | cons first more ih =>
    cases more with
    | nil => exact ⟨[], rfl, rfl⟩
    | cons next rest =>
      obtain ⟨front, hjoined, hlast⟩ := ih (by simp)
      refine ⟨first ++ [s] ++ front, ?_, ?_⟩
      · rw [joined_cons _ _ (by simp), hjoined, ← List.append_assoc]
        rfl
      · have hmap : ((beginnings (next :: rest)).map (first.length + 1 + ·)).getLast? =
            some (first.length + 1 + front.length) := by
          rw [List.getLast?_map, hlast]
          rfl
        rw [beginnings, List.getLast?_cons, hmap]
        simp
        omega

end PaneCompletion.Text
