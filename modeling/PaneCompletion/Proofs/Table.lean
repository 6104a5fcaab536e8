import Mathlib.Tactic.SplitIfs
import PaneCompletion.Table

/-!
# Tables

What a table has after a key has been written, and after some pairs have been written in order. The
last value that the pairs have for a key counts (`get?_foldl_put`), and where all their keys are old
the table keeps its keys (`keys_foldl_put`).
-/

namespace PaneCompletion.Table

variable {α : Type}

@[simp] theorem keys_nil : keys ([] : Table α) = [] := rfl

@[simp] theorem keys_cons (pair : Text × α) (table : Table α) :
    keys (pair :: table) = pair.1 :: keys table := rfl

@[simp] theorem keys_append (a b : Table α) : keys (a ++ b) = a.keys ++ b.keys := List.map_append

/-! ## Looking up -/

theorem get?_append (key : Text) (a b : Table α) :
    get? key (a ++ b) = (a.get? key).or (b.get? key) := by
  induction a with
  | nil => rfl
  | cons pair rest ih =>
    obtain ⟨first, value⟩ := pair
    rw [List.cons_append, get?, get?, ih]
    split_ifs <;> rfl

theorem mem_keys_of_get? {key : Text} {value : α} {table : Table α}
    (h : table.get? key = some value) : key ∈ table.keys := by
  induction table with
  | nil => simp [get?] at h
  | cons pair rest ih =>
    rw [get?] at h
    split_ifs at h with hfirst
    · exact hfirst ▸ List.mem_cons_self
    · exact List.mem_cons_of_mem _ (ih h)

/-- A table is what another one with its keys makes of the values it has for them. -/
theorem map_get? {table other : Table α} (hkeys : table.keys = other.keys)
    (hnodup : table.keys.Nodup) :
    other.map (fun pair => (pair.1, (table.get? pair.1).getD pair.2)) = table := by
  induction table generalizing other with
  | nil => cases other <;> simp_all
  | cons pair rest ih =>
    cases other with
    | nil => simp at hkeys
    | cons first more =>
      obtain ⟨key, value⟩ := pair
      obtain ⟨name, default⟩ := first
      obtain ⟨hname, hmore⟩ : key = name ∧ keys rest = keys more := by simpa using hkeys
      subst hname
      rw [keys_cons, List.nodup_cons] at hnodup
      have hrest : more.map (fun pair => (pair.1, (get? pair.1 ((key, value) :: rest)).getD pair.2))
          = more.map (fun pair => (pair.1, (get? pair.1 rest).getD pair.2)) := by
        refine List.map_congr_left fun pair hpair => ?_
        have hmem : pair.1 ∈ keys rest := hmore ▸ List.mem_map_of_mem hpair
        have hne : key ≠ pair.1 := fun heq => hnodup.1 (heq ▸ hmem)
        rw [get?, if_neg hne]
      rw [List.map_cons, hrest, ih hmore hnodup.2, get?, if_pos rfl, Option.getD_some]

/-! ## Writing -/

theorem get?_put (key other : Text) (value : α) (table : Table α) :
    (table.put key value).get? other = if key = other then some value else table.get? other := by
  induction table with
  | nil => rfl
  | cons pair rest ih =>
    obtain ⟨first, old⟩ := pair
    rw [put]
    split
    · next hfirst =>
      rw [get?, get?, hfirst]
      split <;> rfl
    · next hfirst =>
      rw [get?, get?, ih]
      split
      · next hother => rw [if_neg fun hkey => hfirst (hother.trans hkey.symm)]
      · rfl

/-- A key that is written again keeps its place. -/
theorem keys_put_of_mem {key : Text} {table : Table α} (h : key ∈ table.keys) (value : α) :
    (table.put key value).keys = table.keys := by
  induction table with
  | nil => simp at h
  | cons pair rest ih =>
    rw [put]
    split_ifs with hfirst
    · rw [keys_cons, keys_cons, hfirst]
    · rw [keys_cons, keys_cons, ih ((List.mem_cons.mp h).resolve_left (Ne.symm hfirst))]

theorem put_of_not_mem {key : Text} {table : Table α} (h : key ∉ table.keys) (value : α) :
    table.put key value = table ++ [(key, value)] := by
  induction table with
  | nil => rfl
  | cons pair rest ih =>
    rw [keys_cons, List.mem_cons, not_or] at h
    rw [put, if_neg (Ne.symm h.1), ih h.2, List.cons_append]

theorem eq_or_mem_of_mem_put {key : Text} {value : α} {table : Table α} {pair : Text × α}
    (h : pair ∈ table.put key value) : pair = (key, value) ∨ pair ∈ table := by
  induction table with
  | nil => exact .inl (List.mem_singleton.mp h)
  | cons first rest ih =>
    rw [put] at h
    split_ifs at h
    · exact (List.mem_cons.mp h).imp_right (List.mem_cons_of_mem _)
    · rcases List.mem_cons.mp h with rfl | h
      · exact .inr List.mem_cons_self
      · exact (ih h).imp_right (List.mem_cons_of_mem _)

/-! ## Writing pairs in order -/

/-- The last pair with a key counts. -/
theorem get?_foldl_put (key : Text) (pairs table : Table α) :
    (pairs.foldl (fun table pair => table.put pair.1 pair.2) table).get? key =
      (get? key pairs.reverse).or (table.get? key) := by
  induction pairs generalizing table with
  | nil => rfl
  | cons pair rest ih =>
    obtain ⟨first, value⟩ := pair
    rw [List.foldl_cons, ih, get?_put, List.reverse_cons, get?_append, Option.or_assoc, get?]
    split_ifs <;> rfl

theorem keys_foldl_put {pairs table : Table α} (h : ∀ pair ∈ pairs, pair.1 ∈ table.keys) :
    (pairs.foldl (fun table pair => table.put pair.1 pair.2) table).keys = table.keys := by
  induction pairs generalizing table with
  | nil => rfl
  | cons pair rest ih =>
    obtain ⟨hpair, hrest⟩ := List.forall_mem_cons.mp h
    have hkeys := keys_put_of_mem hpair pair.2
    rw [List.foldl_cons, ih (hkeys ▸ hrest), hkeys]

theorem mem_foldl_put {pairs table : Table α} {pair : Text × α}
    (h : pair ∈ pairs.foldl (fun table pair => table.put pair.1 pair.2) table) :
    pair ∈ pairs ∨ pair ∈ table := by
  induction pairs generalizing table with
  | nil => exact .inr h
  | cons first rest ih =>
    rcases ih h with hrest | hput
    · exact .inl (List.mem_cons_of_mem _ hrest)
    · rcases eq_or_mem_of_mem_put hput with rfl | htable
      · exact .inl List.mem_cons_self
      · exact .inr htable

/-- A table is its pairs written in order. -/
theorem ofPairs_of_nodup {pairs : Table α} (h : pairs.keys.Nodup) : ofPairs pairs = pairs := by
  have hbehind : ∀ pairs table : Table α, (keys (table ++ pairs)).Nodup →
      pairs.foldl (fun table pair => table.put pair.1 pair.2) table = table ++ pairs := by
    intro pairs
    induction pairs with
    | nil => simp
    | cons pair rest ih =>
      intro table hkeys
      have hnew : pair.1 ∉ table.keys := by
        intro hmem
        rw [keys_append, keys_cons] at hkeys
        exact (List.nodup_append.mp hkeys).2.2 _ hmem _ List.mem_cons_self rfl
      rw [List.foldl_cons, put_of_not_mem hnew, ih, List.append_assoc, List.singleton_append]
      rwa [List.append_assoc, List.singleton_append]
  exact hbehind pairs [] h

end PaneCompletion.Table
