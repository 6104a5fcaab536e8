import PaneCompletion.Proofs.Matches.Session

/-!
# What a run adds

A run that is not refused leaves what was there before and what it adds, and nothing else; which
groups it closes and whether it sets the echo changes nothing about that (`Filling.Adds`). So what a
run in parts adds is what its parts add, one after the other (`Filling.Adds.bind`).

On fresh matches a single group is the candidates arranged (`Matches.candidates_finishGroup_fresh`),
and so are all groups once they are merged (`Matches.candidates_mergeGroups`). Candidates with keys
of their own are arranged alike in whatever order they come (`Matches.arranged_of_perm`).

1. growing matches;
2. runs;
3. groups and their order;
4. offers on fresh matches.
-/

namespace PaneCompletion

/-! ## Growing matches -/

/-- There is what was there before and what was added, under the same case rule. -/
structure Matches.Grown (m : Matches) (added : List Candidate) (m' : Matches) : Prop where
  mem_texts_iff : ∀ text, text ∈ m'.candidates.map (·.text) ↔
    text ∈ m.candidates.map (·.text) ∨ text ∈ added.map (·.text)
  mem_or_mem : ∀ candidate ∈ m'.candidates, candidate ∈ m.candidates ∨ candidate ∈ added
  ignoreCase_eq : m'.ignoreCase = m.ignoreCase

namespace Matches

variable {m m' : Matches}

theorem Grown.trans {between : Matches} {first second : List Candidate}
    (hfirst : m.Grown first between) (hsecond : between.Grown second m') :
    m.Grown (first ++ second) m' where
  mem_texts_iff text := by
    rw [hsecond.mem_texts_iff, hfirst.mem_texts_iff, List.map_append, List.mem_append, or_assoc]
  mem_or_mem candidate hmem := by
    rw [List.mem_append, ← or_assoc]
    exact (hsecond.mem_or_mem candidate hmem).imp_left (hfirst.mem_or_mem candidate)
  ignoreCase_eq := hsecond.ignoreCase_eq.trans hfirst.ignoreCase_eq

theorem grown_refl (m : Matches) : m.Grown [] m := ⟨by simp, by simp, rfl⟩

theorem grown_pending (m : Matches) (candidate : Candidate) :
    m.Grown [candidate] { m with pending := m.pending ++ [candidate] } where
  mem_texts_iff text := by simp [candidates, or_assoc, eq_comm]
  mem_or_mem other hmem := by simpa [candidates, or_assoc] using hmem
  ignoreCase_eq := rfl

theorem grown_finishGroup (m : Matches) : m.Grown [] m.finishGroup where
  mem_texts_iff text := by simp [mem_texts_finishGroup]
  mem_or_mem _ hmem := .inl (mem_candidates_of_finishGroup hmem)
  ignoreCase_eq := ignoreCase_finishGroup

end Matches

/-! ## Runs -/

namespace Filling

/-- What a run adds wherever it is not refused. -/
def Adds (filling : Filling Unit) (added : List Candidate) : Prop :=
  ∀ m u m', filling m = .ok u m' → m.Grown added m'

theorem adds_nothing : Adds (pure ()) [] := by
  rintro m u m' ⟨⟩
  exact m.grown_refl

theorem Adds.bind {first second : Filling Unit} {a b : List Candidate} (hfirst : Adds first a)
    (hsecond : Adds second b) : Adds (first >>= fun _ => second) (a ++ b) := by
  intro m u m' h
  obtain ⟨_, between, hbetween, hrest⟩ := bind_ok h
  exact (hfirst _ _ _ hbetween).trans (hsecond _ _ _ hrest)

theorem Adds.bind_nothing {first second : Filling Unit} {a : List Candidate} (hfirst : Adds first a)
    (hsecond : Adds second []) : Adds (first >>= fun _ => second) a := by
  have hboth := hfirst.bind hsecond
  rwa [List.append_nil] at hboth

theorem adds_addAll (candidates : List Candidate) : Adds (addAll candidates) candidates := by
  induction candidates with
  | nil => exact adds_nothing
  | cons candidate rest ih =>
    have hadd : Adds (perform (·.add candidate)) [candidate] := by
      intro m u m' h
      have hadded := perform_ok h
      rw [Matches.add] at hadded
      split at hadded
      · cases hadded
      · cases hadded
        exact m.grown_pending candidate
    exact hadd.bind ih

theorem adds_finishGroup : Adds finishGroup [] := by
  rintro m u m' ⟨⟩
  exact m.grown_finishGroup

theorem adds_setEcho (echo : Candidate) : Adds (setEcho echo) [] := by
  intro m u m' h
  have hset := perform_ok h
  rw [Matches.setEcho] at hset
  split at hset
  · cases hset
  · cases hset
    have hsame : m.finishGroup.Grown [] { m.finishGroup with echo := some echo } :=
      ⟨by simp [Matches.candidates], by simp [Matches.candidates], rfl⟩
    exact m.grown_finishGroup.trans hsame

theorem adds_offer (candidates : List Candidate) (echo : Candidate) :
    Adds (offer candidates echo) candidates :=
  (adds_addAll candidates).bind_nothing (adds_finishGroup.bind_nothing (adds_setEcho echo))

section Offer

variable {candidates : List Candidate} {echo : Candidate} {m m' : Matches} {u : Unit}
  (h : offer candidates echo m = .ok u m')
include h

/-- What there is after an offer was there before or is offered. -/
theorem mem_candidates_offer {candidate : Candidate} (hmem : candidate ∈ m'.candidates) :
    candidate ∈ m.candidates ∨ candidate ∈ candidates :=
  (adds_offer candidates echo m u m' h).mem_or_mem candidate hmem

/-- Every text that is offered is there after the offer, and no other is new. -/
theorem mem_texts_offer {text : Text} :
    text ∈ m'.candidates.map (·.text) ↔
      text ∈ m.candidates.map (·.text) ∨ text ∈ candidates.map (·.text) :=
  (adds_offer candidates echo m u m' h).mem_texts_iff text

end Offer

/-- Without an echo, candidates are added to the open group. -/
theorem addAll_run (candidates : List Candidate) {m : Matches} (hm : m.echo = none) :
    addAll candidates m = .ok () { m with pending := m.pending ++ candidates } := by
  induction candidates generalizing m with
  | nil =>
    rw [List.append_nil]
    rfl
  | cons candidate rest ih =>
    have hadd : perform (·.add candidate) m =
        .ok () { m with pending := m.pending ++ [candidate] } := by
      simp [perform, Matches.add, hm]
    have hrest := ih (m := { m with pending := m.pending ++ [candidate] }) hm
    rw [List.append_assoc, List.singleton_append] at hrest
    exact (bind_eq_of_ok hadd).trans hrest

theorem setEcho_run (echo : Candidate) {m : Matches} (hm : m.echo = none) :
    setEcho echo m = .ok () { m.finishGroup with echo := some echo } := by
  simp [setEcho, perform, Matches.setEcho, hm]

end Filling

/-! ## Groups and their order -/

theorem Candidate.eq_of_paths {a b : Candidate} (ha : a.kind = .path) (hb : b.kind = .path)
    (h : a.text = b.text) : a = b := by
  cases a
  cases b
  cases ha
  cases hb
  cases h
  rfl

namespace Matches

variable {ignoreCase : Bool}

theorem finishGroup_of_closed {m : Matches} (h : m.pending = []) : m.finishGroup = m := by
  rw [finishGroup, if_pos (List.isEmpty_iff.mpr h)]

theorem with_echo_none {m : Matches} (h : m.echo = none) : { m with echo := none } = m := by
  cases m
  cases h
  rfl

theorem candidates_finishGroup_fresh (ignoreCase : Bool) (candidates : List Candidate) :
    ({ ignoreCase, pending := candidates } : Matches).finishGroup.candidates =
      arranged ignoreCase candidates := by
  cases candidates with
  | nil => rfl
  | cons first rest => simp [finishGroup, Matches.candidates]

theorem candidates_mergeGroups (m : Matches) :
    m.mergeGroups.candidates = arranged m.ignoreCase m.candidates := by
  rw [mergeGroups, candidates, List.append_nil]
  split
  · next hnone => rw [List.isEmpty_iff.mp hnone]; rfl
  · exact List.flatten_singleton

theorem pairwise_arranged (ignoreCase : Bool) (candidates : List Candidate) :
    (arranged ignoreCase candidates).Pairwise
      fun a b => sortKey ignoreCase a ≤ sortKey ignoreCase b :=
  (pairwise_sortOn _ candidates).sublist (withoutRepeats_sublist _ _)

theorem nodup_arranged (ignoreCase : Bool) (candidates : List Candidate) :
    ((arranged ignoreCase candidates).map (·.text)).Nodup :=
  nodup_withoutRepeats _ _

/-- Of paths, each text is there once. -/
theorem mem_arranged_of_paths {candidates : List Candidate}
    (hpath : ∀ candidate ∈ candidates, candidate.kind = .path) {candidate : Candidate} :
    candidate ∈ arranged ignoreCase candidates ↔
      candidate.kind = .path ∧ candidate.text ∈ candidates.map (·.text) := by
  constructor
  · intro hmem
    have hcandidate := mem_of_mem_arranged hmem
    exact ⟨hpath candidate hcandidate, List.mem_map_of_mem hcandidate⟩
  · rintro ⟨hkind, htext⟩
    obtain ⟨other, hother, hsame⟩ := List.mem_map.mp (mem_map_arranged.mpr htext)
    have hwhole : other = candidate :=
      Candidate.eq_of_paths (hpath other (mem_of_mem_arranged hother)) hkind hsame
    exact hwhole ▸ hother

/-- Paths that are sorted with regard to case are arranged alike in whatever order they come. -/
theorem arranged_of_perm {some other : List Candidate} (h : some.Perm other)
    (hpath : ∀ candidate ∈ some, candidate.kind = .path) :
    arranged false some = arranged false other := by
  have hkey : ∀ a ∈ some, ∀ b ∈ some, sortKey false a = sortKey false b → a = b := by
    intro a ha b hb heq
    exact Candidate.eq_of_paths (hpath a ha) (hpath b hb) (by simpa [sortKey] using heq)
  rw [arranged, arranged, sortOn_eq_of_perm _ h hkey]

theorem finishGroup_fresh_of_perm {some other : List Candidate} (h : some.Perm other)
    (hpath : ∀ candidate ∈ some, candidate.kind = .path) :
    ({ pending := some } : Matches).finishGroup = ({ pending := other } : Matches).finishGroup := by
  rw [finishGroup, finishGroup, arranged_of_perm h hpath]
  dsimp only
  rw [h.isEmpty_eq]
  split
  · next hnone =>
    obtain rfl : other = [] := List.isEmpty_iff.mp hnone
    rw [h.eq_nil]
  · rfl

end Matches

/-! ## Offers on fresh matches -/

namespace Filling

end Filling

end PaneCompletion
