import Mathlib.Data.List.TakeWhile
import PaneCompletion.Proofs.Text.Offset

/-!
# Parts of a text

The tests on parts of a text are the relations of lists, and what the searches and cuts of a text
find can be said without offsets: a text is cut at the first of a character, behind the last of one,
and in front of the longest end whose characters are all of a class.

1. tests;
2. cutting at a character;
3. cutting off an end.
-/

namespace PaneCompletion.Text

/-! ## Tests -/

theorem startsWith_iff {text beginning : Text} :
    startsWith text beginning = true ↔ beginning <+: text :=
  List.isPrefixOf_iff_prefix

theorem occursIn_iff {part text : Text} : occursIn part text = true ↔ part <:+: text := by
  induction text with
  | nil => simp [occursIn]
  | cons c rest ih => rw [occursIn, Bool.or_eq_true, startsWith_iff, ih, List.infix_cons_iff]

/-! ## Cutting at a character -/

theorem drop_behind (front : Text) (c : Char) (rest : Text) :
    (front ++ c :: rest).drop (front.length + 1) = rest := by
  rw [List.drop_length_add_append, List.drop_one, List.tail_cons]

/-- A text is empty or ends in a character. -/
def EmptyOrEndsIn (c : Char) (text : Text) : Prop := text = [] ∨ text.getLast? = some c

/-- A text reaches as far as a part of it does that ends in the character, with none of it
behind. -/
theorem reach_append_of_ends {c : Char} {front rest : Text} (hfront : EmptyOrEndsIn c front)
    (hrest : c ∉ rest) : reach c (front ++ rest) = front.length := by
  rw [reach_append_of_not_mem hrest]
  rcases hfront with rfl | hlast
  · rfl
  · obtain ⟨more, rfl⟩ := List.getLast?_eq_some_iff.mp hlast
    rw [reach_append List.not_mem_nil, List.length_append, List.length_singleton]

variable {p : Char → Bool}

theorem takeEnd_append {front rest : Text} (hfront : ∀ c ∈ front.getLast?, p c = false)
    (hrest : ∀ c ∈ rest, p c = true) : takeEnd p (front ++ rest) = rest := by
  have hall : ∀ c ∈ rest.reverse, p c = true := fun c hc => hrest c (List.mem_reverse.mp hc)
  have hnone : front.reverse.takeWhile p = [] := by
    cases hreverse : front.reverse with
    | nil => rfl
    | cons c more =>
      have hlast : front.getLast? = some c := by rw [← List.head?_reverse, hreverse]; rfl
      exact List.takeWhile_cons_of_neg (by simp [hfront c hlast])
  rw [takeEnd, List.reverse_append, List.takeWhile_append_of_pos hall, hnone, List.append_nil,
    List.reverse_reverse]

theorem dropEnd_append_takeEnd (p : Char → Bool) (text : Text) :
    dropEnd p text ++ takeEnd p text = text := by
  rw [dropEnd, takeEnd, ← List.reverse_append, List.takeWhile_append_dropWhile,
    List.reverse_reverse]

theorem dropEnd_append {front rest : Text} (hfront : ∀ c ∈ front.getLast?, p c = false)
    (hrest : ∀ c ∈ rest, p c = true) : dropEnd p (front ++ rest) = front := by
  have hwhole := dropEnd_append_takeEnd p (front ++ rest)
  rwa [takeEnd_append hfront hrest, List.append_left_inj] at hwhole

theorem exists_end_cut (p : Char → Bool) (text : Text) :
    ∃ front rest, text = front ++ rest ∧ (∀ c ∈ front.getLast?, p c = false) ∧
      ∀ c ∈ rest, p c = true := by
  refine ⟨dropEnd p text, takeEnd p text, (dropEnd_append_takeEnd p text).symm, ?_, ?_⟩
  · intro c hc
    have hhead := List.head?_dropWhile_not p text.reverse
    rw [dropEnd, List.getLast?_reverse] at hc
    rwa [Option.mem_def.mp hc] at hhead
  · intro c hc
    exact List.mem_takeWhile_imp (List.mem_reverse.mp hc)

end PaneCompletion.Text
