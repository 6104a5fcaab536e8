import PaneCompletion.Path.Relative
import PaneCompletion.Proofs.Path.Parting
import PaneCompletion.Proofs.Text.LowerPieces

/-!
# The shared beginning of two texts

Two texts are compared along the offsets at which components end in both, as long as the offsets are
the same and the texts are up to there. On Windows that is letter case aside, so the components that
are passed are not the same ones, but alike (`Alike`). What is left of the texts behind is what
their components have left (`leftover`), whatever alike beginning stands in front of them
(`drop_sharedEnd`). Elsewhere alike components are the same, and what is left is `beyond`.

1. offsets at which components end;
2. components that are alike;
3. the walk along two texts.
-/

namespace PaneCompletion.Path

/-! ## Offsets at which components end -/

/-- The offsets behind names that a slash each stands in front of, from an offset on. -/
def endsAfter (start : Nat) : List Text → List Nat
  | [] => []
  | name :: more => (start + 1 + name.length) :: endsAfter (start + 1 + name.length) more

theorem endsFrom_cons {c : Char} (hc : c ≠ '/') (start : Nat) (d : Char) (text : Text) :
    endsFrom start (c :: d :: text) = endsFrom (start + 1) (d :: text) :=
  if_neg hc

theorem endsFrom_name {name : Text} (hne : name ≠ []) (hslash : '/' ∉ name) (start : Nat) :
    endsFrom start name = [start + name.length] := by
  induction name generalizing start with
  | nil => exact absurd rfl hne
  | cons c rest ih =>
    obtain ⟨hc, hrest⟩ : '/' ≠ c ∧ '/' ∉ rest := by simpa using hslash
    cases rest with
    | nil => rw [endsFrom, if_neg hc.symm, List.length_singleton]
    | cons d more =>
      rw [endsFrom_cons hc.symm, ih (by simp) hrest]
      simp
      omega

theorem endsFrom_name_slash {name : Text} (hslash : '/' ∉ name) (start : Nat) (d : Char)
    (text : Text) :
    endsFrom start (name ++ '/' :: d :: text) =
      (start + name.length) :: endsFrom (start + name.length + 1) (d :: text) := by
  induction name generalizing start with
  | nil => exact if_pos rfl
  | cons c rest ih =>
    obtain ⟨hc, hrest⟩ : '/' ≠ c ∧ '/' ∉ rest := by simpa using hslash
    have hnext : endsFrom start (c :: (rest ++ '/' :: d :: text)) =
        endsFrom (start + 1) (rest ++ '/' :: d :: text) := by
      cases rest with
      | nil => exact endsFrom_cons hc.symm ..
      | cons e more => exact endsFrom_cons hc.symm ..
    rw [List.cons_append, hnext, ih hrest, List.length_cons]
    simp only [Nat.add_assoc, Nat.add_comm 1]

theorem endsFrom_stem {first : Text} (hslash : '/' ∉ first) {more : List Text} (h : Parts more)
    (hsome : first ≠ [] ∨ more ≠ []) (start : Nat) :
    endsFrom start (first ++ stem more) =
      (start + first.length) :: endsAfter (start + first.length) more := by
  induction more generalizing first start with
  | nil =>
    have hne : first ≠ [] := hsome.resolve_right (not_not_intro rfl)
    rw [stem_nil, List.append_nil, endsFrom_name hne hslash]
    rfl
  | cons next rest ih =>
    obtain ⟨⟨hne, hnext⟩, hrest⟩ := h.of_cons
    have hends := ih hnext hrest (.inl hne) (start + first.length + 1)
    obtain ⟨d, text, rfl⟩ := List.exists_cons_of_ne_nil hne
    rw [List.cons_append] at hends
    rw [stem_cons, List.cons_append, endsFrom_name_slash hslash, hends]
    rfl

theorem componentEnds_stem {components : List Text} (h : Parts components) :
    componentEnds (stem components) = endsAfter 0 components := by
  cases components with
  | nil => rfl
  | cons first more =>
    obtain ⟨⟨hne, hslash⟩, hmore⟩ := h.of_cons
    rw [stem_cons, componentEnds, endsFrom_stem hslash hmore (.inl hne), endsAfter]

/-- A beginning ends a component of its own, unless it is a single slash with nothing behind it. -/
theorem componentEnds_append_stem (c : Char) {first : Text} (hslash : '/' ∉ first)
    {components : List Text} (h : Parts components) (hsome : first ≠ [] ∨ components ≠ []) :
    componentEnds (c :: first ++ stem components) =
      (c :: first).length :: endsAfter (c :: first).length components := by
  rw [List.cons_append, componentEnds, endsFrom_stem hslash h hsome, List.length_cons,
    Nat.add_comm 1]

/-! ## Components that are alike -/

/-- Components that are as long as one another and the same file name. -/
def Alike (os : Platform) (a b : Text) : Prop := a.length = b.length ∧ os.same a b = true

instance (os : Platform) (a b : Text) : Decidable (Alike os a b) :=
  inferInstanceAs (Decidable (_ ∧ _))

theorem same_iff {os : Platform} {a b : Text} : os.same a b = true ↔ os.fold a = os.fold b :=
  beq_iff_eq

theorem Alike.symm {os : Platform} {a b : Text} (h : Alike os a b) : Alike os b a :=
  ⟨h.1.symm, same_iff.mpr (same_iff.mp h.2).symm⟩

theorem alike_posix_iff {a b : Text} : Alike .posix a b ↔ a = b := by
  rw [Alike, same_iff]
  exact and_iff_right_of_imp (congrArg List.length)

/-- What components have left behind the beginning that they share with others, if only alike. -/
def leftover (os : Platform) : List Text → List Text → List Text
  | a :: s, b :: t => if Alike os a b then leftover os s t else a :: s
  | s, _ => s

@[simp] theorem leftover_nil_left (os : Platform) (t : List Text) : leftover os [] t = [] := by
  cases t <;> rfl

@[simp] theorem leftover_nil_right (os : Platform) (s : List Text) : leftover os s [] = s := by
  cases s <;> rfl

theorem leftover_cons_of_alike {os : Platform} {a b : Text} (h : Alike os a b) (s t : List Text) :
    leftover os (a :: s) (b :: t) = leftover os s t :=
  if_pos h

theorem leftover_cons_of_not_alike {os : Platform} {a b : Text} (h : ¬Alike os a b)
    (s t : List Text) : leftover os (a :: s) (b :: t) = a :: s :=
  if_neg h

theorem leftover_posix (s t : List Text) : leftover .posix s t = beyond s t := by
  induction s generalizing t with
  | nil => simp
  | cons a s ih =>
    cases t with
    | nil => rfl
    | cons b t => simp only [leftover, beyond, ih, alike_posix_iff]

/-- Components are what they share with others and what they have left. -/
theorem exists_alike_append (os : Platform) (s t : List Text) :
    ∃ front other, s = front ++ leftover os s t ∧ t = other ++ leftover os t s ∧
      List.Forall₂ (Alike os) front other := by
  induction s generalizing t with
  | nil => exact ⟨[], [], by simp, by simp, .nil⟩
  | cons a s ih =>
    cases t with
    | nil => exact ⟨[], [], by simp, by simp, .nil⟩
    | cons b t =>
      by_cases h : Alike os a b
      · obtain ⟨front, other, hs, ht, hall⟩ := ih t
        rw [leftover_cons_of_alike h, leftover_cons_of_alike h.symm]
        exact ⟨a :: front, b :: other, congrArg (a :: ·) hs, congrArg (b :: ·) ht, .cons h hall⟩
      · rw [leftover_cons_of_not_alike h, leftover_cons_of_not_alike (mt Alike.symm h)]
        exact ⟨[], [], rfl, rfl, .nil⟩

/-! ## The walk along two texts -/

theorem fold_append_slash (os : Platform) (a b : Text) :
    os.fold (a ++ '/' :: b) = os.fold a ++ '/' :: os.fold b := by
  cases os with
  | posix => rfl
  | windows => exact Text.lower_append_slash a b

/-- Behind the same beginning texts are the same exactly if what follows the slash is. -/
theorem same_append_slash_iff {os : Platform} {front other : Text} (h : os.same front other = true)
    (a b : Text) :
    os.same (front ++ '/' :: a) (other ++ '/' :: b) = true ↔ os.same a b = true := by
  rw [same_iff, same_iff, fold_append_slash, fold_append_slash, same_iff.mp h,
    List.append_cancel_left_eq, List.cons_inj_right]

theorem append_stem_cons (front a : Text) (s : List Text) :
    front ++ stem (a :: s) = front ++ '/' :: a ++ stem s := by
  rw [stem_cons, List.append_assoc, List.cons_append]

theorem length_append_slash (front a : Text) :
    (front ++ '/' :: a).length = front.length + 1 + a.length := by
  rw [List.length_append, List.length_cons]
  omega

/-- The walk along the component ends of two texts comes to where they part; behind it stands what
their components have left. -/
theorem drop_sharedEnd {os : Platform} {front other : Text} (h : Alike os front other)
    (s t : List Text) :
    let stop := sharedEnd os (front ++ stem s) (other ++ stem t) front.length
      ((endsAfter front.length s).zip (endsAfter other.length t))
    (front ++ stem s).drop stop = stem (leftover os s t) ∧
      (other ++ stem t).drop stop = stem (leftover os t s) := by
  induction s generalizing front other t with
  | nil =>
    rw [leftover_nil_left, leftover_nil_right]
    exact ⟨List.drop_left, List.drop_left' h.1.symm⟩
  | cons a s ih =>
    cases t with
    | nil =>
      rw [leftover_nil_left, leftover_nil_right]
      exact ⟨List.drop_left, List.drop_left' h.1.symm⟩
    | cons b t =>
      have hleft := length_append_slash front a
      have hright := length_append_slash other b
      have hpassed : (front.length + 1 + a.length = other.length + 1 + b.length ∧
          os.same ((front ++ stem (a :: s)).take (front.length + 1 + a.length))
            ((other ++ stem (b :: t)).take (other.length + 1 + b.length)) = true) ↔
          Alike os a b := by
        rw [append_stem_cons, append_stem_cons, List.take_left' hleft, List.take_left' hright,
          same_append_slash_iff h.2, Alike, h.1]
        exact and_congr_left' (by omega)
      rw [endsAfter, endsAfter, List.zip_cons_cons, sharedEnd]
      by_cases hab : Alike os a b
      · have hfront : Alike os (front ++ '/' :: a) (other ++ '/' :: b) :=
          ⟨by rw [hleft, hright, h.1, hab.1], (same_append_slash_iff h.2 a b).mpr hab.2⟩
        have hwalk := ih hfront t
        rw [hleft, hright, ← append_stem_cons, ← append_stem_cons] at hwalk
        rw [if_pos (hpassed.mpr hab), leftover_cons_of_alike hab, leftover_cons_of_alike hab.symm]
        exact hwalk
      · rw [if_neg (mt hpassed.mp hab), leftover_cons_of_not_alike hab,
          leftover_cons_of_not_alike (mt Alike.symm hab)]
        exact ⟨List.drop_left, List.drop_left' h.1.symm⟩

theorem sharedEnd_cons_of_alike {os : Platform} {front other : Text} (h : Alike os front other)
    (a b : Text) (start : Nat) (ends ends' : List Nat) :
    sharedEnd os (front ++ a) (other ++ b) start
        ((front.length :: ends).zip (other.length :: ends')) =
      sharedEnd os (front ++ a) (other ++ b) front.length (ends.zip ends') := by
  rw [List.zip_cons_cons, sharedEnd, List.take_left, List.take_left]
  exact if_pos h

/-- The walk passes alike beginnings that have no slash behind their first character. -/
theorem drop_sharedEnd_of_alike (os : Platform) (c d : Char) {first other : Text}
    (hfirst : '/' ∉ first) (hother : '/' ∉ other) {s t : List Text} (hs : Parts s) (ht : Parts t)
    (hsome : first ≠ [] ∨ s ≠ []) (hsome' : other ≠ [] ∨ t ≠ [])
    (h : Alike os (c :: first) (d :: other)) :
    let stop := sharedEnd os (c :: first ++ stem s) (d :: other ++ stem t) 0
      ((componentEnds (c :: first ++ stem s)).zip (componentEnds (d :: other ++ stem t)))
    (c :: first ++ stem s).drop stop = stem (leftover os s t) ∧
      (d :: other ++ stem t).drop stop = stem (leftover os t s) := by
  simp only [componentEnds_append_stem c hfirst hs hsome,
    componentEnds_append_stem d hother ht hsome', sharedEnd_cons_of_alike h]
  exact drop_sharedEnd h s t

/-- The walk stops at once at beginnings that are not as long as one another. -/
theorem sharedEnd_eq_zero (os : Platform) (c d : Char) {first other : Text} (hfirst : '/' ∉ first)
    (hother : '/' ∉ other) {s t : List Text} (hs : Parts s) (ht : Parts t)
    (hsome : first ≠ [] ∨ s ≠ []) (hsome' : other ≠ [] ∨ t ≠ [])
    (h : first.length ≠ other.length) :
    sharedEnd os (c :: first ++ stem s) (d :: other ++ stem t) 0
      ((componentEnds (c :: first ++ stem s)).zip (componentEnds (d :: other ++ stem t))) = 0 := by
  rw [componentEnds_append_stem c hfirst hs hsome, componentEnds_append_stem d hother ht hsome',
    List.zip_cons_cons, sharedEnd, if_neg]
  rintro ⟨hlength, -⟩
  exact h (Nat.succ.inj hlength)

/-- Where letter case counts, the components that are passed are the same ones. -/
theorem drop_sharedEnd_stem {s t : List Text} (hs : Parts s) (ht : Parts t) :
    let stop := sharedEnd .posix (stem s) (stem t) 0
      ((componentEnds (stem s)).zip (componentEnds (stem t)))
    (stem s).drop stop = stem (beyond s t) ∧ (stem t).drop stop = stem (beyond t s) := by
  have hwalk := drop_sharedEnd (alike_posix_iff.mpr (Eq.refl [])) s t
  rw [leftover_posix, leftover_posix] at hwalk
  simp only [componentEnds_stem hs, componentEnds_stem ht]
  exact hwalk

end PaneCompletion.Path
