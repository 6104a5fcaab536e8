import PaneCompletion.Text.Basic

/-!
# Offsets of characters

A search from the end cuts a text at the character it finds, and every offset that is found lies in
the text. What comes behind does not matter to it as long as the character is not there again.
-/

namespace PaneCompletion.Text

theorem startsWith_singleton_iff {c : Char} {text : Text} :
    startsWith text [c] = true ↔ text.head? = some c := by
  cases text with
  | nil => simp [startsWith]
  | cons d rest => simpa [startsWith, List.isPrefixOf] using eq_comm

theorem exists_cons_of_startsWith {c : Char} {text : Text} (h : startsWith text [c] = true) :
    ∃ rest, text = c :: rest := by
  cases text with
  | nil => cases h
  | cons d rest => exact ⟨rest, by rw [Option.some.inj (startsWith_singleton_iff.mp h)]⟩

theorem startsWith_of_not_mem {c : Char} {text : Text} (h : c ∉ text) :
    startsWith text [c] = false :=
  Bool.eq_false_iff.mpr fun hstart => h (List.mem_of_mem_head? (startsWith_singleton_iff.mp hstart))

@[simp] theorem offset_natCast (n : Nat) (text : Text) : offset n text = n := by
  rw [offset, if_neg (by omega), Int.toNat_natCast]

theorem lastIndex?_eq_none_iff {c : Char} {text : Text} :
    lastIndex? c text = none ↔ c ∉ text := by
  induction text with
  | nil => simp [lastIndex?]
  | cons d rest ih =>
    rw [lastIndex?]
    cases hrest : lastIndex? c rest with
    | none =>
      have hnot : c ∉ rest := ih.mp hrest
      by_cases hd : d = c
      · simp [hd]
      · simp [hd, hnot, Ne.symm hd]
    | some i =>
      have hmem : c ∈ rest := Classical.not_not.mp fun hnot => by simp [ih.mpr hnot] at hrest
      simp [hmem]

/-- The last occurrence of a character has none of it behind. -/
theorem exists_of_lastIndex? {c : Char} {text : Text} {i : Nat} (h : lastIndex? c text = some i) :
    ∃ front rest, text = front ++ c :: rest ∧ front.length = i ∧ c ∉ rest := by
  induction text generalizing i with
  | nil => simp [lastIndex?] at h
  | cons d rest ih =>
    rw [lastIndex?] at h
    cases hrest : lastIndex? c rest with
    | some j =>
      obtain ⟨front, tail, rfl, rfl, htail⟩ := ih hrest
      simp only [hrest, Option.some.injEq] at h
      exact ⟨d :: front, tail, rfl, h, htail⟩
    | none =>
      simp only [hrest] at h
      split at h
      · next hd =>
        exact ⟨[], rest, by rw [hd]; rfl, by simpa using h, lastIndex?_eq_none_iff.mp hrest⟩
      · simp at h

theorem lastIndex?_append {c : Char} {rest : Text} (h : c ∉ rest) (front : Text) :
    lastIndex? c (front ++ c :: rest) = some front.length := by
  induction front with
  | nil =>
    rw [List.nil_append, lastIndex?, lastIndex?_eq_none_iff.mpr h]
    simp
  | cons d more ih => rw [List.cons_append, lastIndex?, ih, List.length_cons]

/-- What has none of a character behind it does not move its last occurrence. -/
theorem lastIndex?_append_of_not_mem {c : Char} {rest : Text} (h : c ∉ rest) (front : Text) :
    lastIndex? c (front ++ rest) = lastIndex? c front := by
  induction front with
  | nil => rw [List.nil_append, lastIndex?_eq_none_iff.mpr h, lastIndex?]
  | cons d more ih => rw [List.cons_append, lastIndex?, lastIndex?, ih]

theorem lastIndexFrom?_append (c : Char) (a b : Text) :
    lastIndexFrom? c a.length (a ++ b) = (lastIndex? c b).map (· + a.length) := by
  rw [lastIndexFrom?, List.drop_left]

theorem lastIndex?_lt {c : Char} {text : Text} {i : Nat} (h : lastIndex? c text = some i) :
    i < text.length := by
  obtain ⟨front, rest, rfl, rfl, -⟩ := exists_of_lastIndex? h
  simp

theorem reach_le (c : Char) (text : Text) : reach c text ≤ text.length := by
  rw [reach]
  split
  · next i h => exact lastIndex?_lt h
  · exact Nat.zero_le _

theorem reach_eq_zero_iff {c : Char} {text : Text} : reach c text = 0 ↔ c ∉ text := by
  rw [← lastIndex?_eq_none_iff, reach]
  cases lastIndex? c text <;> simp

theorem reach_append {c : Char} {rest : Text} (h : c ∉ rest) (front : Text) :
    reach c (front ++ c :: rest) = front.length + 1 := by
  rw [reach, lastIndex?_append h]

/-- Behind a character a text reaches on as far as what follows does. -/
theorem reach_behind (front : Text) (c : Char) (rest : Text) :
    reach c (front ++ c :: rest) = front.length + 1 + reach c rest := by
  cases hlast : lastIndex? c rest with
  | none =>
    have hnone : c ∉ rest := lastIndex?_eq_none_iff.mp hlast
    rw [reach_append hnone, reach_eq_zero_iff.mpr hnone]
  | some i =>
    obtain ⟨more, tail, rfl, -, htail⟩ := exists_of_lastIndex? hlast
    have hwhole : front ++ c :: (more ++ c :: tail) = (front ++ c :: more) ++ c :: tail := by simp
    rw [hwhole, reach_append htail, reach_append htail]
    simp only [List.length_append, List.length_cons]
    omega

theorem take_reach_behind (front : Text) (c : Char) (rest : Text) :
    (front ++ c :: rest).take (reach c (front ++ c :: rest)) =
      front ++ c :: rest.take (reach c rest) := by
  rw [reach_behind, Nat.add_assoc, Nat.add_comm 1, List.take_length_add_append,
    List.take_succ_cons]

theorem drop_reach_behind (front : Text) (c : Char) (rest : Text) :
    (front ++ c :: rest).drop (reach c (front ++ c :: rest)) = rest.drop (reach c rest) := by
  rw [reach_behind, Nat.add_assoc, Nat.add_comm 1, List.drop_length_add_append,
    List.drop_succ_cons]

theorem reach_append_of_not_mem {c : Char} {rest : Text} (h : c ∉ rest) (front : Text) :
    reach c (front ++ rest) = reach c front := by
  rw [reach, reach, lastIndex?_append_of_not_mem h]

/-- A text has none of a character behind the last. -/
theorem not_mem_drop_reach (c : Char) (text : Text) : c ∉ text.drop (reach c text) := by
  cases hlast : lastIndex? c text with
  | none =>
    rw [reach, hlast]
    exact lastIndex?_eq_none_iff.mp hlast
  | some i =>
    obtain ⟨front, rest, rfl, -, hrest⟩ := exists_of_lastIndex? hlast
    rw [reach_append hrest, List.append_cons, List.drop_left' (by simp)]
    exact hrest

/-- A text as far as a character in it, behind another text. -/
theorem take_through (a front : Text) (c : Char) (rest : Text) :
    (a ++ (front ++ c :: rest)).take (front.length + a.length + 1) = a ++ (front ++ [c]) := by
  rw [List.append_cons front, ← List.append_assoc, List.take_left']
  simp
  omega

/-- A text with more of its beginning in front of its end is another one. -/
theorem take_append_drop_iff {text : Text} {start more : Nat} (h : start + more ≤ text.length) :
    text.take (start + more) ++ text.drop start = text ↔ more = 0 := by
  constructor
  · intro heq
    have hlength := congrArg List.length heq
    rw [List.length_append, List.length_take, List.length_drop] at hlength
    omega
  · rintro rfl
    exact List.take_append_drop start text

end PaneCompletion.Text
