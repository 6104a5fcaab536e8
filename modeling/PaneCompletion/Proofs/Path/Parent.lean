import Mathlib.Logic.Function.Iterate
import PaneCompletion.Path.Component
import PaneCompletion.Proofs.Path.Location
import PaneCompletion.Proofs.Text.Parts

/-!
# Parents of absolute paths

An absolute path is slashes alone, or it ends in a name with slashes behind it (`EndsInName`). In
the second case it is cut at the slash in front of the name: what stands before that slash is the
parent, or the root where nothing does, and the name with its slashes is the last component. The two
are found by searches of their own, which strip slashes in different ways, but both cut at this
slash (`EndsInName.parent_eq`, `EndsInName.lastComponent_eq`), so nothing is lost between them and
nothing is in both.

A parent is shorter than its path unless the path is the root, so the parents of a path end at the
root (`exists_iterate_parent`).

1. the last name of a path;
2. slashes alone;
3. from a path to its parent;
4. up to the root.
-/

namespace PaneCompletion.Path

variable {path front name slashes : Text}

/-! ## The last name of a path -/

/-- A path ends in a name: a front, a slash, the name, and slashes behind it or none. -/
structure EndsInName (path front name slashes : Text) : Prop where
  path_eq : path = front ++ '/' :: name ++ slashes
  ne_nil : name ≠ []
  no_slash : '/' ∉ name
  only_slashes : ∀ c ∈ slashes, c = '/'

theorem slashes_or_endsInName (h : isAbsolute .posix path = true) :
    (∀ c ∈ path, c = '/') ∨ ∃ front name slashes, EndsInName path front name slashes := by
  obtain ⟨stripped, slashes, rfl, hlast, hslashes⟩ := Text.exists_end_cut (· = '/') path
  have honly : ∀ c ∈ slashes, c = '/' := fun c hc => of_decide_eq_true (hslashes c hc)
  by_cases hstripped : stripped = []
  · rw [hstripped]
    exact .inl honly
  · obtain ⟨rest, rfl⟩ := exists_cons_of_isAbsolute (isAbsolute_of_append h hstripped)
    cases hcut : Text.lastIndex? '/' ('/' :: rest) with
    | none => exact absurd List.mem_cons_self (Text.lastIndex?_eq_none_iff.mp hcut)
    | some slash =>
      obtain ⟨front, name, hwhole, -, hname⟩ := Text.exists_of_lastIndex? hcut
      refine .inr ⟨front, name, slashes, by rw [hwhole], ?_, hname, honly⟩
      rintro rfl
      simp [hwhole] at hlast

namespace EndsInName

theorem getLast?_stripped (h : EndsInName path front name slashes) :
    ∀ c ∈ (front ++ '/' :: name).getLast?, decide (c = '/') = false := by
  intro c hc
  rw [List.append_cons, List.getLast?_append, List.getLast?_eq_some_getLast h.ne_nil,
    Option.some_or] at hc
  have hmem : c ∈ name := Option.some.inj hc ▸ List.getLast_mem h.ne_nil
  exact decide_eq_false fun heq => h.no_slash (heq ▸ hmem)

theorem dropEnd_eq (h : EndsInName path front name slashes) :
    Text.dropEnd (· = '/') path = front ++ '/' :: name := by
  rw [h.path_eq]
  exact Text.dropEnd_append h.getLast?_stripped fun c hc => decide_eq_true (h.only_slashes c hc)

theorem parent_eq (h : EndsInName path front name slashes) :
    parent path = if front = [] then ['/'] else front := by
  simp only [parent, h.dropEnd_eq, Text.lastIndex?_append h.no_slash]
  cases front <;> simp

theorem lastComponent_eq (h : EndsInName path front name slashes) :
    lastComponent path = name ++ slashes := by
  have hdrop : path.drop (front.length + 1) = name ++ slashes := by
    rw [h.path_eq, List.append_assoc, List.cons_append, Text.drop_behind]
  cases hends : Text.endsIn '/' path with
  | true =>
    rw [lastComponent, if_pos hends]
    simp [h.dropEnd_eq, Text.reach_append h.no_slash, hdrop]
  | false =>
    -- no slash stands behind the name, so the last one of the path is that in front of it
    have hslashes : slashes = [] := by
      by_contra hne
      have hlast : path.getLast? = some '/' := by
        rw [h.path_eq, List.getLast?_append, List.getLast?_eq_some_getLast hne,
          h.only_slashes _ (List.getLast_mem hne), Option.some_or]
      simp [Text.endsIn, hlast] at hends
    have hreach : Text.reach '/' path = front.length + 1 := by
      rw [h.path_eq, hslashes, List.append_nil, Text.reach_append h.no_slash]
    rw [lastComponent, hends, if_neg Bool.false_ne_true, hreach, hdrop]

end EndsInName

/-! ## Slashes alone -/

theorem dropEnd_of_slashes (h : ∀ c ∈ path, c = '/') : Text.dropEnd (· = '/') path = [] := by
  have hnone : ∀ c ∈ ([] : Text).getLast?, decide (c = '/') = false := fun _ hc => nomatch hc
  exact Text.dropEnd_append hnone fun c hc => decide_eq_true (h c hc)

theorem parent_of_slashes (hne : path ≠ []) (h : ∀ c ∈ path, c = '/') : parent path = ['/'] := by
  have htake : path.take 1 = ['/'] := by
    obtain ⟨c, rest, rfl⟩ := List.exists_cons_of_ne_nil hne
    rw [h c List.mem_cons_self, List.take_succ_cons, List.take_zero]
  simp [parent, dropEnd_of_slashes h, htake]

/-- Slashes have no name to cut off: they are their own last component. -/
theorem lastComponent_of_slashes (hne : path ≠ []) (h : ∀ c ∈ path, c = '/') :
    lastComponent path = path := by
  have hends : Text.endsIn '/' path = true := by
    rw [Text.endsIn, List.getLast?_eq_some_getLast hne, h _ (List.getLast_mem hne)]
    rfl
  simp [lastComponent, dropEnd_of_slashes h, hends]

/-! ## From a path to its parent -/

/-- All that a step up from an absolute path can be. -/
theorem parent_cases (h : isAbsolute .posix path = true) :
    ((∀ c ∈ path, c = '/') ∧ parent path = ['/'] ∧ lastComponent path = path) ∨
      ∃ front name slashes, EndsInName path front name slashes ∧
        parent path = (if front = [] then ['/'] else front) ∧
        lastComponent path = name ++ slashes := by
  obtain hslashes | ⟨front, name, slashes, hends⟩ := slashes_or_endsInName h
  · have hne : path ≠ [] := by
      rintro rfl
      cases h
    exact .inl ⟨hslashes, parent_of_slashes hne hslashes, lastComponent_of_slashes hne hslashes⟩
  · exact .inr ⟨front, name, slashes, hends, hends.parent_eq, hends.lastComponent_eq⟩

/-- The last component, seen from the parent, leads where the path leads. -/
theorem location_parent_append (h : isAbsolute .posix path = true) :
    location (parent path ++ '/' :: lastComponent path) = location path := by
  obtain ⟨-, hparent, hlast⟩ | ⟨front, name, slashes, hends, hparent, hlast⟩ := parent_cases h
  · rw [hparent, hlast, List.singleton_append, location_cons_slash, location_cons_slash]
  · rw [hparent, hlast, hends.path_eq, List.append_assoc, List.cons_append]
    split
    · next hfront => rw [hfront, List.singleton_append, location_cons_slash, List.nil_append]
    · rfl

theorem isAbsolute_parent (h : isAbsolute .posix path = true) :
    isAbsolute .posix (parent path) = true := by
  obtain ⟨-, hparent, -⟩ | ⟨front, name, slashes, hends, hparent, -⟩ := parent_cases h
  · rw [hparent]
    rfl
  · rw [hparent]
    split
    · rfl
    · next hfront =>
      rw [hends.path_eq, List.append_assoc] at h
      exact isAbsolute_of_append h hfront

theorem length_parent_lt (h : isAbsolute .posix path = true) (hroot : path ≠ ['/']) :
    (parent path).length < path.length := by
  obtain ⟨hslashes, hparent, -⟩ | ⟨front, name, slashes, hends, hparent, -⟩ := parent_cases h
  · obtain ⟨rest, rfl⟩ := exists_cons_of_isAbsolute h
    have hrest : rest ≠ [] := fun hnil => hroot (by rw [hnil])
    rw [hparent]
    simpa using List.length_pos_iff.mpr hrest
  · have hname := List.length_pos_iff.mpr hends.ne_nil
    rw [hparent, hends.path_eq]
    simp only [List.length_append, List.length_cons]
    split
    · rw [List.length_singleton]
      omega
    · omega

/-- A last component is a name with the slashes behind it. It has no name only where the path is
slashes alone. -/
def IsLastOf (path component : Text) : Prop :=
  ∃ name slashes, component = name ++ slashes ∧ '/' ∉ name ∧ (∀ c ∈ slashes, c = '/') ∧
    (name = [] → ∀ c ∈ path, c = '/')

theorem isLastOf_lastComponent (h : isAbsolute .posix path = true) :
    IsLastOf path (lastComponent path) := by
  obtain ⟨hslashes, -, hlast⟩ | ⟨front, name, slashes, hends, -, hlast⟩ := parent_cases h
  · exact ⟨[], path, hlast, List.not_mem_nil, hslashes, fun _ => hslashes⟩
  · exact ⟨name, slashes, hlast, hends.no_slash, hends.only_slashes,
      fun hnil => absurd hnil hends.ne_nil⟩

/-! ## Up to the root -/

/-- From an absolute path the root is reached in fewer steps than the path has characters. -/
theorem exists_iterate_parent (h : isAbsolute .posix path = true) :
    ∃ n < path.length, parent^[n] path = ['/'] := by
  induction hlength : path.length using Nat.strong_induction_on generalizing path with
  | _ length ih =>
    by_cases hroot : path = ['/']
    · exact ⟨0, by simp [← hlength, hroot], hroot⟩
    · have hlt := length_parent_lt h hroot
      obtain ⟨n, hn, hreached⟩ := ih _ (hlength ▸ hlt) (isAbsolute_parent h) rfl
      exact ⟨n + 1, by omega, hreached⟩

/-- An absolute path is its parent with the last component behind it. The parent is absolute and
shorter unless the path is the root, so parents of parents end at the root. -/
theorem parent_lastComponent_upward (h : isAbsolute .posix path = true) :
    (equal .posix (parent path ++ '/' :: lastComponent path) path = true ∧
      IsLastOf path (lastComponent path)) ∧
    isAbsolute .posix (parent path) = true ∧
    (path ≠ ['/'] → (parent path).length < path.length) ∧
    ∃ n < path.length, parent^[n] path = ['/'] := by
  have hparent := isAbsolute_parent h
  have hequal := equal_of_location (isAbsolute_append hparent ('/' :: lastComponent path)) h
    (location_parent_append h)
  exact ⟨⟨hequal, isLastOf_lastComponent h⟩, hparent, length_parent_lt h, exists_iterate_parent h⟩

theorem parent_lastComponent_upward_slashes :
    let deep := "//a//.././b//".toList
    let top := "/..//".toList
    (isAbsolute .posix deep = true ∧ parent deep = "//a//../.".toList ∧
      lastComponent deep = "b//".toList ∧ ∃ n < deep.length, parent^[n] deep = ['/']) ∧
    isAbsolute .posix top = true ∧ parent top = ['/'] ∧ lastComponent top = "..//".toList ∧
      equal .posix "//..//".toList top = true ∧ (parent top).length < top.length := by
  intro deep top
  have hdeep : isAbsolute .posix deep = true := by decide
  have htop : isAbsolute .posix top = true := by decide
  have hparent : parent top = ['/'] := by decide
  have hlast : lastComponent top = "..//".toList := by decide
  obtain ⟨-, -, -, hroot⟩ := parent_lastComponent_upward hdeep
  obtain ⟨⟨hequal, -⟩, -, hshorter, -⟩ := parent_lastComponent_upward htop
  rw [hparent, hlast] at hequal
  exact ⟨⟨hdeep, by decide, by decide, hroot⟩, htop, hparent, hlast, hequal, hshorter (by decide)⟩

end PaneCompletion.Path
