import PaneCompletion.Matches
import PaneCompletion.Proofs.Text.Order

/-!
# Filling matches

A run of operations on matches that is not refused went through each of them (`Filling.bind_ok`),
so what it leaves can be read off step by step. From the other side, `Filling.Allowed` says of a run
that nothing in it is refused on matches without an echo; the echo has to come last for that.

1. sorting;
2. operations;
3. runs that are not refused;
4. runs that cannot be refused.
-/

namespace PaneCompletion

namespace Matches

/-! ## Sorting -/

theorem withoutRepeats_sublist (seen : List Text) (candidates : List Candidate) :
    (withoutRepeats seen candidates).Sublist candidates := by
  induction candidates generalizing seen with
  | nil => exact .refl _
  | cons first rest ih =>
    rw [withoutRepeats]
    split
    · exact (ih seen).cons first
    · exact (ih (first.text :: seen)).cons_cons first

theorem mem_of_mem_arranged {ignoreCase : Bool} {candidate : Candidate}
    {candidates : List Candidate} (h : candidate ∈ arranged ignoreCase candidates) :
    candidate ∈ candidates :=
  (sortOn_perm _ _).mem_iff.mp ((withoutRepeats_sublist _ _).subset h)

/-! ## Operations -/

theorem mem_candidates_of_finishGroup {m : Matches} {candidate : Candidate}
    (h : candidate ∈ m.finishGroup.candidates) : candidate ∈ m.candidates := by
  rw [finishGroup] at h
  split at h
  · exact h
  · simp only [candidates, List.flatten_append, List.flatten_singleton, List.append_nil,
      List.mem_append] at h
    exact List.mem_append.mpr (h.imp_right mem_of_mem_arranged)

theorem echo_finishGroup (m : Matches) : m.finishGroup.echo = m.echo := by
  rw [finishGroup]
  split <;> rfl

end Matches

/-! ## Runs that are not refused -/

namespace Filling

deriving instance DecidableEq for EStateM.Result

/-- A run in two parts that is not refused went through both. -/
theorem bind_ok {α β : Type} {first : Filling α} {second : α → Filling β} {m m' : Matches} {b : β}
    (h : (first >>= second) m = .ok b m') :
    ∃ a between, first m = .ok a between ∧ second a between = .ok b m' := by
  change EStateM.bind first second m = _ at h
  rw [EStateM.bind] at h
  split at h
  · next a between heq => exact ⟨a, between, heq, h⟩
  · simp at h

theorem bind_eq_of_ok {α β : Type} {first : Filling α} {second : α → Filling β} {m m' : Matches}
    {a : α} (h : first m = .ok a m') : (first >>= second) m = second a m' := by
  show EStateM.bind first second m = _
  rw [EStateM.bind, h]

theorem perform_ok {operation : Matches → Except Refusal Matches} {m m' : Matches} {u : Unit}
    (h : perform operation m = .ok u m') : operation m = .ok m' := by
  rw [perform] at h
  split at h
  · next m₁ heq =>
    cases h
    exact heq
  · simp at h

/-! ## Runs that cannot be refused -/

/-- On matches without an echo a run is not refused, and what it leaves has a property. -/
def Allowed {α : Type} (filling : Filling α) (left : Matches → Prop) : Prop :=
  ∀ m : Matches, m.echo = none → ∃ a m', filling m = .ok a m' ∧ left m'

section Allowed

variable {α β : Type} {left : Matches → Prop}

theorem Allowed.mono {filling : Filling α} {right : Matches → Prop} (h : Allowed filling left)
    (himp : ∀ m, left m → right m) : Allowed filling right := by
  intro m hm
  obtain ⟨a, m', hrun, hleft⟩ := h m hm
  exact ⟨a, m', hrun, himp m' hleft⟩

theorem Allowed.of_run {filling : Filling α} (h : Allowed filling left) {m m' : Matches} {a : α}
    (hm : m.echo = none) (hrun : filling m = .ok a m') : left m' := by
  obtain ⟨_, _, hallowed, hleft⟩ := h m hm
  cases hrun.symm.trans hallowed
  exact hleft

/-- Only the second part of a run may set the echo. -/
theorem Allowed.bind {first : Filling α} {second : α → Filling β}
    (hfirst : Allowed first (·.echo = none)) (hsecond : ∀ a, Allowed (second a) left) :
    Allowed (first >>= second) left := by
  intro m hm
  obtain ⟨a, between, hrun, hbetween⟩ := hfirst m hm
  obtain ⟨b, m', hrest, hleft⟩ := hsecond a between hbetween
  exact ⟨b, m', (bind_eq_of_ok hrun).trans hrest, hleft⟩

theorem allowed_pure (a : α) : Allowed (pure a) (·.echo = none) :=
  fun m hm => ⟨a, m, rfl, hm⟩

theorem allowed_addAll (candidates : List Candidate) :
    Allowed (addAll candidates) (·.echo = none) := by
  induction candidates with
  | nil => exact allowed_pure ()
  | cons candidate rest ih =>
    have hadd : Allowed (perform (·.add candidate)) (·.echo = none) := by
      intro m hm
      refine ⟨(), { m with pending := m.pending ++ [candidate] }, ?_, hm⟩
      simp [perform, Matches.add, hm]
    exact hadd.bind fun _ => ih

theorem allowed_finishGroup : Allowed finishGroup (·.echo = none) :=
  fun m hm => ⟨(), m.finishGroup, rfl, (Matches.echo_finishGroup m).trans hm⟩

theorem allowed_setEcho (echo : Candidate) : Allowed (setEcho echo) (·.echo = some echo) := by
  intro m hm
  refine ⟨(), { m.finishGroup with echo := some echo }, ?_, rfl⟩
  simp [setEcho, perform, Matches.setEcho, hm]

theorem allowed_offer (candidates : List Candidate) (echo : Candidate) :
    Allowed (offer candidates echo) (·.echo = some echo) :=
  (allowed_addAll candidates).bind fun _ => allowed_finishGroup.bind fun _ => allowed_setEcho echo

end Allowed

end Filling

end PaneCompletion
