import PaneCompletion.Proofs.Matches.Adding
import PaneCompletion.Proofs.Text.Stable

/-!
# Merging groups

Candidates that have been collected in groups and then merged are what they would be as one group,
in whatever way groups were closed and merged in between (`merged_eq_finished`). The kind and the
case rule are in the key and the text is not, so candidates of one text may have different keys, and
of different texts the same one. What carries the proof is that a part of the candidates may be
arranged before all of them are (`arranged_part`): sorting a part keeps the order of equal keys, and
what is dropped from a part stands behind a candidate of its text that would have come before it
anyway (`arranged_middle`).

1. candidates that are not needed;
2. arranging a part;
3. collecting.
-/

namespace PaneCompletion.Matches

variable {ignoreCase : Bool}

/-! ## Candidates that are not needed -/

/-- A candidate is not needed where one of its text has come before. -/
theorem withoutRepeats_middle {seen : List Text} {front rest : List Candidate}
    {candidate : Candidate} (h : candidate.text ∈ seen ∨ candidate.text ∈ front.map (·.text)) :
    withoutRepeats seen (front ++ candidate :: rest) = withoutRepeats seen (front ++ rest) := by
  induction front generalizing seen with
  | nil =>
    have hseen : seen.contains candidate.text = true := by simpa using h
    rw [List.nil_append, withoutRepeats, if_pos hseen, List.nil_append]
  | cons first more ih =>
    rw [List.map_cons, List.mem_cons] at h
    rw [List.cons_append, List.cons_append, withoutRepeats, withoutRepeats]
    split
    · next hseen =>
      refine ih ?_
      rcases h with h | h | h
      · exact .inl h
      · exact .inl (h ▸ List.contains_iff_mem.mp hseen)
      · exact .inr h
    · rw [ih]
      rw [List.mem_cons]
      tauto

/-- A candidate is not needed where one of its text and no greater key comes before it. -/
theorem arranged_middle {before after : List Candidate} {first second : Candidate}
    (hmem : first ∈ before) (htext : first.text = second.text)
    (hkey : sortKey ignoreCase first ≤ sortKey ignoreCase second) :
    arranged ignoreCase (before ++ second :: after) = arranged ignoreCase (before ++ after) := by
  obtain ⟨front, rest, hwith, hwithout, hfront⟩ :=
    exists_sortOn_middle (sortKey ignoreCase) before second after
  have hrepeat : second.text ∈ front.map (·.text) :=
    htext ▸ List.mem_map_of_mem (hfront first hmem hkey)
  rw [arranged, arranged, hwith, hwithout, withoutRepeats_middle (.inr hrepeat)]

/-! ## Arranging a part -/

/-- Among some candidates there is one of a text whose key is not greater than those of a part. -/
def Leads (ignoreCase : Bool) (before part : List Candidate) (text : Text) : Prop :=
  ∃ first ∈ before, first.text = text ∧
    ∀ second ∈ part, sortKey ignoreCase first ≤ sortKey ignoreCase second

theorem Leads.mono {before part before' part' : List Candidate} {text : Text}
    (h : Leads ignoreCase before part text) (hbefore : before ⊆ before') (hpart : part' ⊆ part) :
    Leads ignoreCase before' part' text := by
  obtain ⟨first, hfirst, htext, hkey⟩ := h
  exact ⟨first, hbefore hfirst, htext, fun second hsecond => hkey second (hpart hsecond)⟩

/-- The repeats in a sorted part, and what repeats a text seen before it, may be dropped before all
is arranged. -/
theorem arranged_withoutRepeats {seen : List Text} {before part : List Candidate}
    (hsorted : part.Pairwise fun a b => sortKey ignoreCase a ≤ sortKey ignoreCase b)
    (hseen : ∀ text ∈ seen, Leads ignoreCase before part text) (after : List Candidate) :
    arranged ignoreCase (before ++ withoutRepeats seen part ++ after) =
      arranged ignoreCase (before ++ part ++ after) := by
  induction part generalizing seen before with
  | nil => rfl
  | cons candidate rest ih =>
    obtain ⟨hle, hrest⟩ := List.pairwise_cons.mp hsorted
    rw [withoutRepeats]
    split
    · next hmem =>
      obtain ⟨first, hfirst, htext, hkey⟩ := hseen candidate.text (List.contains_iff_mem.mp hmem)
      rw [ih hrest fun text htext => (hseen text htext).mono (by simp) (by simp),
        List.append_assoc, List.append_assoc, List.cons_append,
        arranged_middle hfirst htext (hkey candidate List.mem_cons_self)]
    · rw [List.append_cons before candidate rest, List.append_cons before candidate]
      refine ih hrest (List.forall_mem_cons.mpr ⟨⟨candidate, by simp, rfl, hle⟩, ?_⟩)
      exact fun text htext => (hseen text htext).mono (by simp) (by simp)

/-- A part of the candidates may be arranged before all of them are. -/
theorem arranged_part (ignoreCase : Bool) (a b c : List Candidate) :
    arranged ignoreCase (a ++ arranged ignoreCase b ++ c) = arranged ignoreCase (a ++ b ++ c) := by
  calc arranged ignoreCase (a ++ arranged ignoreCase b ++ c)
      = arranged ignoreCase (a ++ sortOn (sortKey ignoreCase) b ++ c) :=
        arranged_withoutRepeats (pairwise_sortOn _ _) (by simp) c
    _ = arranged ignoreCase (a ++ b ++ c) := by rw [arranged, arranged, sortOn_part]

/-- What is arranged alike is arranged alike with more behind it. -/
theorem arranged_append_congr {some other : List Candidate}
    (h : arranged ignoreCase some = arranged ignoreCase other) (more : List Candidate) :
    arranged ignoreCase (some ++ more) = arranged ignoreCase (other ++ more) := by
  have hsome := arranged_part ignoreCase [] some more
  have hother := arranged_part ignoreCase [] other more
  simp only [List.nil_append] at hsome hother
  rw [← hsome, h, hother]

theorem arranged_eq_nil_iff {candidates : List Candidate} :
    arranged ignoreCase candidates = [] ↔ candidates = [] := by
  constructor
  · intro hnil
    by_contra hne
    exact (closed_arranged ignoreCase hne).ne_nil hnil
  · rintro rfl
    rfl

/-! ## Collecting -/

/-- The candidate that an operation is to add. -/
def Operation.added? : Operation → Option Candidate
  | .add candidate => some candidate
  | _ => none

/-- Whether an operation goes on collecting: it neither sets the echo nor forgets anything. -/
def Operation.collects : Operation → Bool
  | .setEcho _ | .reset => false
  | .add _ | .finishGroup | .mergeGroups | .next => true

/-- There is no echo, and what there is comes to the same, once arranged, as what was added. -/
structure Gathered (m : Matches) (added : List Candidate) : Prop where
  echo_eq : m.echo = none
  arranged_eq : arranged m.ignoreCase m.candidates = arranged m.ignoreCase added

variable {m : Matches} {added : List Candidate}

theorem arranged_candidates_finishGroup (m : Matches) :
    arranged m.ignoreCase m.finishGroup.candidates = arranged m.ignoreCase m.candidates := by
  rw [finishGroup]
  split
  · rfl
  · have hpart := arranged_part m.ignoreCase m.groups.flatten m.pending []
    simpa [candidates] using hpart

/-- An operation that goes on collecting gathers what it adds. -/
theorem Gathered.after (h : m.Gathered added) {operation : Operation}
    (hcollects : operation.collects = true) :
    (m.after operation).Gathered (added ++ operation.added?.toList) := by
  have heffect := effect_after m operation
  generalize m.after operation = m' at heffect
  cases heffect with
  | refused hrefused =>
    -- without an echo nothing is refused but the next of no entries
    cases operation with
    | add candidate => simp [Refuses, h.echo_eq] at hrefused
    | next => simpa [Operation.added?] using h
    | setEcho candidate => cases hcollects
    | finishGroup | mergeGroups | reset => exact hrefused.elim
  | @add candidate hecho =>
    refine ⟨hecho, ?_⟩
    have hmore := arranged_append_congr h.arranged_eq [candidate]
    simpa [candidates, Operation.added?] using hmore
  | finishGroup =>
    refine ⟨(echo_finishGroup m).trans h.echo_eq, ?_⟩
    rw [ignoreCase_finishGroup, arranged_candidates_finishGroup, h.arranged_eq]
    simp [Operation.added?]
  | mergeGroups =>
    refine ⟨h.echo_eq, ?_⟩
    have hall := arranged_part m.ignoreCase [] m.candidates []
    show arranged m.ignoreCase m.mergeGroups.candidates = arranged m.ignoreCase _
    rw [candidates_mergeGroups]
    simpa [Operation.added?, h.arranged_eq] using hall
  | next hentries => exact ⟨h.echo_eq, by simpa [Operation.added?, candidates] using h.arranged_eq⟩
  | setEcho hecho => cases hcollects
  | reset => cases hcollects

theorem Gathered.afterAll (h : m.Gathered added) {operations : List Operation}
    (hcollects : ∀ operation ∈ operations, operation.collects = true) :
    (m.afterAll operations).Gathered (added ++ operations.filterMap Operation.added?) := by
  induction operations generalizing m added with
  | nil =>
    rw [List.filterMap_nil, List.append_nil]
    exact h
  | cons operation rest ih =>
    obtain ⟨hfirst, hrest⟩ := List.forall_mem_cons.mp hcollects
    have hadded : (operation :: rest).filterMap Operation.added? =
        operation.added?.toList ++ rest.filterMap Operation.added? := by
      cases hoperation : operation.added? <;> simp [hoperation]
    rw [hadded, ← List.append_assoc]
    exact ih (h.after hfirst) hrest

/-- Merging comes to one group of what was added. -/
theorem Gathered.mergeGroups_eq (h : m.Gathered added) :
    m.mergeGroups = ({ ignoreCase := m.ignoreCase, pending := added } : Matches).finishGroup := by
  have hempty : m.candidates.isEmpty = added.isEmpty := by
    rw [Bool.eq_iff_iff, List.isEmpty_iff, List.isEmpty_iff, ← arranged_eq_nil_iff, h.arranged_eq,
      arranged_eq_nil_iff]
  rw [mergeGroups, finishGroup, hempty, h.arranged_eq, h.echo_eq]
  dsimp only
  split
  · next hnone => rw [List.isEmpty_iff.mp hnone]
  · rfl

theorem afterAll_additions (hecho : m.echo = none) (candidates : List Candidate) :
    m.afterAll (candidates.map .add) = { m with pending := m.pending ++ candidates } := by
  induction candidates generalizing m with
  | nil => simp [afterAll]
  | cons candidate rest ih =>
    have hadd : m.after (.add candidate) = { m with pending := m.pending ++ [candidate] } := by
      simp [after, perform, add, hecho, Except.map]
    have hrest := ih (m := { m with pending := m.pending ++ [candidate] }) hecho
    rw [List.append_assoc, List.singleton_append] at hrest
    rw [← hrest, ← hadd]
    rfl

/-- Candidates that are added to fresh matches and merged in the end come to what adding all of them
and closing one group comes to, however groups were closed, merged and cycled through in between. -/
theorem merged_eq_finished (ignoreCase : Bool) {operations : List Operation}
    (hcollects : ∀ operation ∈ operations, operation.collects = true) :
    ({ ignoreCase } : Matches).afterAll (operations ++ [.mergeGroups]) =
      ({ ignoreCase } : Matches).afterAll
        ((operations.filterMap Operation.added?).map .add ++ [.finishGroup]) := by
  have hfresh : ({ ignoreCase } : Matches).Gathered [] := ⟨rfl, rfl⟩
  have hgathered := hfresh.afterAll hcollects
  have hcase := ignoreCase_afterAll (m := { ignoreCase }) operations
  calc ({ ignoreCase } : Matches).afterAll (operations ++ [.mergeGroups])
      = (({ ignoreCase } : Matches).afterAll operations).mergeGroups := by
        rw [afterAll_append]
        rfl
    _ = ({ ignoreCase, pending := operations.filterMap Operation.added? } :
          Matches).finishGroup := by
        rw [hgathered.mergeGroups_eq, hcase]
        rfl
    _ = ({ ignoreCase } : Matches).afterAll
          ((operations.filterMap Operation.added?).map .add ++ [.finishGroup]) := by
        rw [afterAll_append, afterAll_additions rfl]
        rfl

theorem merged_eq_finished_kinds :
    let operations : List Operation :=
      [.next, .add ⟨['B'], .path⟩, .add ⟨['b'], .path⟩, .finishGroup, .add ⟨['a'], .plain⟩,
        .mergeGroups, .next, .add ⟨['B'], .plain⟩, .add ⟨['a'], .path⟩]
    (∀ operation ∈ operations, operation.collects = true) ∧
      (({ ignoreCase := true } : Matches).afterAll (operations ++ [.mergeGroups])).groups =
        [[⟨['B'], .plain⟩, ⟨['a'], .plain⟩, ⟨['b'], .path⟩]] := by
  intro operations
  have hcollects : ∀ operation ∈ operations, operation.collects = true := by decide
  exact ⟨hcollects, by rw [merged_eq_finished true hcollects]; rfl⟩

end PaneCompletion.Matches
