import PaneCompletion.Proofs.Path.Location

/-!
# Where locations part

Two locations share a beginning and part behind it. `beyond` is what one has left there, so the way
from one to the other climbs out of what the first has left and goes down what the second has
left. No way is shorter: a component brings a location closer to another by one name at most
(`distance_enter_le`), and one that does not count leaves it where it is.

1. parting;
2. the distance between locations;
3. the way from one location to another.
-/

namespace PaneCompletion.Path

/-! ## Parting -/

/-- What names have left behind the beginning that they share with others. -/
def beyond : List Text → List Text → List Text
  | a :: s, b :: t => if a = b then beyond s t else a :: s
  | s, _ => s

@[simp] theorem beyond_nil_left (t : List Text) : beyond [] t = [] := by
  cases t <;> rfl

@[simp] theorem beyond_nil_right (s : List Text) : beyond s [] = s := by
  cases s <;> rfl

theorem beyond_cons_self (a : Text) (s t : List Text) : beyond (a :: s) (a :: t) = beyond s t :=
  if_pos rfl

theorem beyond_cons_of_ne {a b : Text} (h : a ≠ b) (s t : List Text) :
    beyond (a :: s) (b :: t) = a :: s :=
  if_neg h

@[simp] theorem beyond_self (s : List Text) : beyond s s = [] := by
  induction s with
  | nil => rfl
  | cons a s ih => rw [beyond_cons_self, ih]

/-- The beginning that names share with others. -/
def shared : List Text → List Text → List Text
  | a :: s, b :: t => if a = b then a :: shared s t else []
  | _, _ => []

theorem shared_cons_self (a : Text) (s t : List Text) :
    shared (a :: s) (a :: t) = a :: shared s t :=
  if_pos rfl

theorem shared_cons_of_ne {a b : Text} (h : a ≠ b) (s t : List Text) :
    shared (a :: s) (b :: t) = [] :=
  if_neg h

theorem shared_append_beyond (s t : List Text) : shared s t ++ beyond s t = s := by
  induction s generalizing t with
  | nil => simp [shared]
  | cons a s ih =>
    cases t with
    | nil => simp [shared]
    | cons b t =>
      by_cases h : a = b
      · subst h
        rw [shared_cons_self, beyond_cons_self, List.cons_append, ih]
      · rw [shared_cons_of_ne h, beyond_cons_of_ne h, List.nil_append]

theorem shared_comm (s t : List Text) : shared s t = shared t s := by
  induction s generalizing t with
  | nil => cases t <;> rfl
  | cons a s ih =>
    cases t with
    | nil => rfl
    | cons b t =>
      by_cases h : a = b
      · subst h
        rw [shared_cons_self, shared_cons_self, ih]
      · rw [shared_cons_of_ne h, shared_cons_of_ne (Ne.symm h)]

theorem shared_append_beyond_comm (s t : List Text) : shared s t ++ beyond t s = t := by
  rw [shared_comm, shared_append_beyond]

/-- Names that go on differently from their first name on. -/
def Parted (s t : List Text) : Prop := ∀ a ∈ s.head?, a ∉ t.head?

theorem parted_beyond (s t : List Text) : Parted (beyond s t) (beyond t s) := by
  induction s generalizing t with
  | nil => simp [Parted]
  | cons a s ih =>
    cases t with
    | nil => simp [Parted]
    | cons b t =>
      by_cases h : a = b
      · subst h
        rw [beyond_cons_self, beyond_cons_self]
        exact ih t
      · rw [beyond_cons_of_ne h, beyond_cons_of_ne (Ne.symm h)]
        simpa [Parted] using Ne.symm h

theorem Parted.beyond_eq {s t : List Text} (h : Parted s t) : beyond s t = s := by
  cases s with
  | nil => exact beyond_nil_left t
  | cons a s =>
    cases t with
    | nil => exact beyond_nil_right _
    | cons b t =>
      refine beyond_cons_of_ne ?_ s t
      rintro rfl
      exact h a rfl rfl

theorem Parted.symm {s t : List Text} (h : Parted s t) : Parted t s :=
  fun a ha hb => h a hb ha

theorem Parted.of_isPrefix {s t part : List Text} (h : Parted s t) (hpart : part <+: t) :
    Parted s part := by
  cases part with
  | nil => simp [Parted]
  | cons a more =>
    obtain ⟨rest, rfl⟩ := hpart
    exact h

theorem beyond_append (common s t : List Text) :
    beyond (common ++ s) (common ++ t) = beyond s t := by
  induction common with
  | nil => rfl
  | cons a common ih => rw [List.cons_append, List.cons_append, beyond_cons_self, ih]

/-- Nothing is left of names that the others begin with. -/
theorem beyond_eq_nil_iff {s t : List Text} : beyond s t = [] ↔ s <+: t := by
  constructor
  · intro h
    have hs := shared_append_beyond s t
    have ht := shared_append_beyond_comm s t
    rw [h, List.append_nil] at hs
    rw [hs] at ht
    exact ⟨beyond t s, ht⟩
  · rintro ⟨rest, rfl⟩
    have hbeyond := beyond_append s [] rest
    rwa [List.append_nil, beyond_nil_left] at hbeyond

theorem Names.beyond {s : List Text} (h : Names s) (t : List Text) : Names (beyond s t) :=
  (shared_append_beyond s t ▸ h).of_append.2

/-! ## The distance between locations -/

/-- How many names there are to climb out of and to go down between two locations. -/
def distance (s t : List Text) : Nat := (beyond s t).length + (beyond t s).length

@[simp] theorem distance_self (s : List Text) : distance s s = 0 := by
  simp [distance]

theorem distance_cons_self (a : Text) (s t : List Text) :
    distance (a :: s) (a :: t) = distance s t := by
  rw [distance, distance, beyond_cons_self, beyond_cons_self]

theorem distance_cons_of_ne {a b : Text} (h : a ≠ b) (s t : List Text) :
    distance (a :: s) (b :: t) = s.length + t.length + 2 := by
  rw [distance, beyond_cons_of_ne h, beyond_cons_of_ne h.symm, List.length_cons, List.length_cons]
  omega

/-- One name more or less changes the distance by one. -/
theorem distance_append_singleton (s t : List Text) (name : Text) :
    distance (s ++ [name]) t = distance s t + 1 ∨ distance s t = distance (s ++ [name]) t + 1 := by
  induction s generalizing t with
  | nil =>
    cases t with
    | nil => exact .inl rfl
    | cons b t =>
      rw [List.nil_append]
      by_cases h : name = b
      · right
        rw [h, distance_cons_self]
        simp [distance]
      · left
        rw [distance_cons_of_ne h]
        simp [distance]
  | cons a s ih =>
    rw [List.cons_append]
    cases t with
    | nil =>
      left
      simp [distance]
    | cons b t =>
      by_cases h : a = b
      · subst h
        rw [distance_cons_self, distance_cons_self]
        exact ih t
      · left
        rw [distance_cons_of_ne h, distance_cons_of_ne h, List.length_append, List.length_singleton]
        omega

/-- Whether a component counts: one that goes up or down. -/
def counts (component : Text) : Bool := component ≠ [] ∧ component ≠ ['.']

/-- A component brings a location closer to another by one at most, and by none if it does not
count. -/
theorem distance_enter_le {stack : List Text} (hstack : Names stack) {component : Text}
    (hslash : '/' ∉ component) (target : List Text) :
    distance stack.reverse target ≤
      distance (enter .posix true stack component).reverse target +
        if counts component then 1 else 0 := by
  rcases enter_cases hstack hslash with ⟨-, h⟩ | ⟨hparent, h⟩ | ⟨hname, h⟩
  · rw [h]
    omega
  · rw [h, hparent, if_pos (by decide)]
    cases stack with
    | nil => exact Nat.le_succ _
    | cons top below =>
      have hone := distance_append_singleton below.reverse target top
      rw [List.reverse_cons, List.tail_cons]
      omega
  · have hcounts : counts component = true := by simp [counts, hname.ne_nil, hname.ne_here]
    have hone := distance_append_singleton stack.reverse target component
    rw [h, if_pos hcounts, List.reverse_cons]
    omega

/-- Components bring a location closer to another by as many as count. -/
theorem distance_foldl_le {components : List Text} (hslash : ∀ c ∈ components, '/' ∉ c)
    {stack : List Text} (hstack : Names stack) (target : List Text) :
    distance stack.reverse target ≤
      distance (components.foldl (enter .posix true) stack).reverse target +
        components.countP counts := by
  induction components generalizing stack with
  | nil => exact Nat.le_refl _
  | cons c more ih =>
    have hc := hslash c List.mem_cons_self
    have hfirst := distance_enter_le hstack hc target
    have hmore := ih (fun d hd => hslash d (List.mem_cons_of_mem _ hd)) (names_enter hstack hc)
    rw [List.foldl_cons, List.countP_cons]
    omega

end PaneCompletion.Path
