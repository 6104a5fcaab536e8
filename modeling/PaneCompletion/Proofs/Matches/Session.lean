import PaneCompletion.Proofs.Matches.Filling

/-!
# Sessions of operations

A session is a sequence of operations on fresh matches, and what each operation keeps, allowed or
refused, holds after all of them. A closed group is not empty, in order of its keys and without
repeated texts (`Closed`); nothing is open once the echo is set (`Sound`). The texts among the
candidates are those that were added and not reset since (`Added`): sorting by a key that depends on
the kind and dropping repeats by text lose none of them.

`Operation.run` is an operation statement by statement, on a state that keeps what was assigned when
a refusal comes. It does what the operation is performed as (`run_eq`): it refuses where `Refuses`
says, and always before it has assigned anything. What an operation does otherwise is an `Effect`,
and what every effect keeps is kept by a session.

1. refusals;
2. closed groups;
3. what operations keep;
4. what is on offer;
5. sessions.
-/

namespace PaneCompletion.Matches

variable {m : Matches}

/-! ## Refusals -/

/-- When an operation is refused. -/
def Refuses (m : Matches) : Operation → Prop
  | .add _ | .setEcho _ => m.echo.isSome
  | .next => m.entries = []
  | .finishGroup | .mergeGroups | .reset => False

/-- An operation statement by statement. What was assigned before a refusal stays assigned. -/
def Operation.run : Operation → Filling (Option Text)
  | .add candidate => do
    if (← get).echo.isSome then
      throw (.afterEcho candidate.text)
    modify fun m => { m with pending := m.pending ++ [candidate] }
    return none
  | .finishGroup => do
    Filling.finishGroup
    return none
  | .setEcho candidate => do
    if (← get).echo.isSome then
      throw .echoTwice
    Filling.finishGroup
    modify fun m => { m with echo := some candidate }
    return none
  | .mergeGroups => do
    let merged := (← get).candidates
    modify fun m => { m with pending := [] }
    modify fun m =>
      { m with groups := if merged.isEmpty then [] else [arranged m.ignoreCase merged] }
    modify fun m => { m with cursor := 0 }
    return none
  | .next => do
    let m ← get
    if h : m.entries = [] then
      throw .noEntries
    else
      let entry := m.entries.get ⟨m.cursor % m.count, Nat.mod_lt _ (List.length_pos_iff.mpr h)⟩
      modify fun m => { m with cursor := (m.cursor + 1) % m.count }
      return some entry.text
  | .reset => do
    modify fun m => { m with groups := [] }
    modify fun m => { m with echo := none }
    modify fun m => { m with pending := [] }
    modify fun m => { m with cursor := 0 }
    return none

theorem next_of_nil (h : m.entries = []) : m.next = .error .noEntries := by
  simp [next, h]

theorem next_of_ne_nil (h : m.entries ≠ []) :
    m.next = .ok
      ((m.entries.get ⟨m.cursor % m.count, Nat.mod_lt _ (List.length_pos_iff.mpr h)⟩).text,
        { m with cursor := (m.cursor + 1) % m.count }) := by
  have hlt : m.cursor % m.count < m.entries.length := Nat.mod_lt _ (List.length_pos_iff.mpr h)
  simp [next, List.getElem?_eq_getElem hlt]

/-- Statement by statement an operation comes to what it is performed as. -/
theorem run_eq (m : Matches) (operation : Operation) :
    operation.run m =
      match m.perform operation with
      | .ok (text, m') => .ok text m'
      | .error refusal => .error refusal m := by
  cases operation with
  | add candidate | setEcho candidate =>
    obtain ⟨ignoreCase, groups, pending, echo, cursor⟩ := m
    cases echo <;> rfl
  | finishGroup | mergeGroups | reset => rfl
  | next =>
    show (if h : m.entries = [] then _ else _ : Filling (Option Text)) m = _
    by_cases hentries : m.entries = []
    · rw [dif_pos hentries, perform, next_of_nil hentries]
      rfl
    · rw [dif_neg hentries, perform, next_of_ne_nil hentries]
      rfl

/-- All that an operation can make of matches. -/
inductive Effect (m : Matches) : Operation → Matches → Prop
  | refused {operation : Operation} (h : m.Refuses operation) : Effect m operation m
  | add {candidate : Candidate} (h : m.echo = none) :
    Effect m (.add candidate) { m with pending := m.pending ++ [candidate] }
  | finishGroup : Effect m .finishGroup m.finishGroup
  | setEcho {candidate : Candidate} (h : m.echo = none) :
    Effect m (.setEcho candidate) { m.finishGroup with echo := some candidate }
  | mergeGroups : Effect m .mergeGroups m.mergeGroups
  | next (h : m.entries ≠ []) : Effect m .next { m with cursor := (m.cursor + 1) % m.count }
  | reset : Effect m .reset m.reset

theorem perform_of_refuses {operation : Operation} (h : m.Refuses operation) :
    ∃ refusal, m.perform operation = .error refusal := by
  cases operation with
  | add candidate =>
    obtain ⟨echo, hecho⟩ := Option.isSome_iff_exists.mp h
    exact ⟨.afterEcho candidate.text, by simp [perform, add, hecho, Except.map]⟩
  | setEcho candidate =>
    obtain ⟨echo, hecho⟩ := Option.isSome_iff_exists.mp h
    exact ⟨.echoTwice, by simp [perform, setEcho, hecho, Except.map]⟩
  | next => exact ⟨.noEntries, by rw [perform, next_of_nil h]; rfl⟩
  | finishGroup | mergeGroups | reset => exact h.elim

theorem perform_of_not_refuses {operation : Operation} (h : ¬m.Refuses operation) :
    ∃ text m', m.perform operation = .ok (text, m') ∧ Effect m operation m' := by
  cases operation with
  | add candidate =>
    have hecho : m.echo = none := by simpa [Refuses] using h
    exact ⟨none, _, by simp [perform, add, hecho, Except.map], .add hecho⟩
  | finishGroup => exact ⟨none, _, rfl, .finishGroup⟩
  | setEcho candidate =>
    have hecho : m.echo = none := by simpa [Refuses] using h
    exact ⟨none, _, by simp [perform, setEcho, hecho, Except.map], .setEcho hecho⟩
  | mergeGroups => exact ⟨none, _, rfl, .mergeGroups⟩
  | next =>
    have hnext := congrArg (Except.map fun found => (some found.1, found.2)) (next_of_ne_nil h)
    exact ⟨_, _, hnext, .next h⟩
  | reset => exact ⟨none, _, rfl, .reset⟩

theorem run_of_refuses {operation : Operation} (h : m.Refuses operation) :
    ∃ refusal, operation.run m = .error refusal m ∧ m.after operation = m := by
  obtain ⟨refusal, hperform⟩ := perform_of_refuses h
  exact ⟨refusal, by rw [run_eq, hperform], by rw [after, hperform]⟩

theorem run_of_not_refuses {operation : Operation} (h : ¬m.Refuses operation) :
    ∃ text, operation.run m = .ok text (m.after operation) ∧
      Effect m operation (m.after operation) := by
  obtain ⟨text, m', hperform, heffect⟩ := perform_of_not_refuses h
  have hafter : m.after operation = m' := by rw [after, hperform]
  rw [hafter]
  exact ⟨text, by rw [run_eq, hperform], heffect⟩

theorem effect_after (m : Matches) (operation : Operation) :
    Effect m operation (m.after operation) := by
  by_cases hrefused : m.Refuses operation
  · obtain ⟨-, -, hafter⟩ := run_of_refuses hrefused
    rw [hafter]
    exact .refused hrefused
  · obtain ⟨-, -, heffect⟩ := run_of_not_refuses hrefused
    exact heffect

/-! ## Closed groups -/

theorem mem_map_withoutRepeats {seen : List Text} {text : Text} {candidates : List Candidate} :
    text ∈ (withoutRepeats seen candidates).map (·.text) ↔
      text ∉ seen ∧ text ∈ candidates.map (·.text) := by
  induction candidates generalizing seen with
  | nil => simp [withoutRepeats]
  | cons first rest ih =>
    rw [withoutRepeats]
    split
    · next hseen =>
      rw [List.contains_iff_mem] at hseen
      rw [ih, List.map_cons, List.mem_cons]
      constructor
      · rintro ⟨hnew, hmem⟩
        exact ⟨hnew, .inr hmem⟩
      · rintro ⟨hnew, rfl | hmem⟩
        · exact absurd hseen hnew
        · exact ⟨hnew, hmem⟩
    · next hseen =>
      rw [List.contains_iff_mem] at hseen
      simp only [List.map_cons, List.mem_cons, ih]
      by_cases htext : text = first.text
      · subst htext
        simp [hseen]
      · simp [htext]

theorem nodup_withoutRepeats (seen : List Text) (candidates : List Candidate) :
    ((withoutRepeats seen candidates).map (·.text)).Nodup := by
  induction candidates generalizing seen with
  | nil => exact .nil
  | cons first rest ih =>
    rw [withoutRepeats]
    split
    · exact ih seen
    · refine List.nodup_cons.mpr ⟨?_, ih (first.text :: seen)⟩
      intro hmem
      exact (mem_map_withoutRepeats.mp hmem).1 List.mem_cons_self

theorem mem_map_arranged {ignoreCase : Bool} {text : Text} {candidates : List Candidate} :
    text ∈ (arranged ignoreCase candidates).map (·.text) ↔ text ∈ candidates.map (·.text) := by
  have hsorted := (sortOn_perm (sortKey ignoreCase) candidates).map (·.text)
  rw [arranged, mem_map_withoutRepeats, hsorted.mem_iff]
  simp

/-- What a group is once it is closed. -/
structure Closed (ignoreCase : Bool) (group : List Candidate) : Prop where
  ne_nil : group ≠ []
  ascending : group.Pairwise fun a b => sortKey ignoreCase a ≤ sortKey ignoreCase b
  nodup : (group.map (·.text)).Nodup

theorem closed_arranged (ignoreCase : Bool) {candidates : List Candidate} (h : candidates ≠ []) :
    Closed ignoreCase (arranged ignoreCase candidates) where
  ne_nil := by
    obtain ⟨first, rest, rfl⟩ := List.exists_cons_of_ne_nil h
    have hmem : first.text ∈ (arranged ignoreCase (first :: rest)).map (·.text) :=
      mem_map_arranged.mpr List.mem_cons_self
    intro hnil
    simp [hnil] at hmem
  ascending := (pairwise_sortOn _ candidates).sublist (withoutRepeats_sublist _ _)
  nodup := nodup_withoutRepeats _ _

/-! ## What operations keep -/

/-- What holds of matches whatever was done to them. -/
structure Sound (m : Matches) : Prop where
  closed : ∀ group ∈ m.groups, Closed m.ignoreCase group
  echo_last : m.echo.isSome → m.pending = []

theorem sound_fresh (ignoreCase : Bool) : Sound { ignoreCase } where
  closed := by simp
  echo_last := by simp

theorem finishGroup_pending (m : Matches) : m.finishGroup.pending = [] := by
  rw [finishGroup]
  split
  · next h => exact List.isEmpty_iff.mp h
  · rfl

theorem Sound.finishGroup {m : Matches} (h : Sound m) : Sound m.finishGroup := by
  refine ⟨?_, fun _ => finishGroup_pending m⟩
  rw [Matches.finishGroup]
  split
  · exact h.closed
  · next hopen =>
    intro group hgroup
    rcases List.mem_append.mp hgroup with hgroup | hgroup
    · exact h.closed group hgroup
    · rw [List.mem_singleton.mp hgroup]
      exact closed_arranged m.ignoreCase fun hnil => hopen (List.isEmpty_iff.mpr hnil)

theorem Sound.mergeGroups {m : Matches} : Sound m.mergeGroups := by
  refine ⟨?_, fun _ => rfl⟩
  intro group hgroup
  simp only [Matches.mergeGroups] at hgroup ⊢
  split at hgroup
  · simp at hgroup
  · next hany =>
    rw [List.mem_singleton.mp hgroup]
    exact closed_arranged m.ignoreCase fun hnil => hany (List.isEmpty_iff.mpr hnil)

theorem Effect.sound {m' : Matches} {operation : Operation} (h : Effect m operation m')
    (hm : Sound m) : Sound m' := by
  cases h with
  | refused _ => exact hm
  | add hecho => exact ⟨hm.closed, by simp [hecho]⟩
  | finishGroup => exact hm.finishGroup
  | setEcho _ => exact ⟨hm.finishGroup.closed, fun _ => finishGroup_pending m⟩
  | mergeGroups => exact .mergeGroups
  | next _ => exact ⟨hm.closed, hm.echo_last⟩
  | reset => exact sound_fresh m.ignoreCase

theorem afterAll_append (first second : List Operation) :
    m.afterAll (first ++ second) = (m.afterAll first).afterAll second :=
  List.foldl_append

theorem Sound.afterAll (h : Sound m) (operations : List Operation) :
    Sound (m.afterAll operations) := by
  induction operations generalizing m with
  | nil => exact h
  | cons first rest ih => exact ih ((effect_after m first).sound h)

theorem ignoreCase_finishGroup : m.finishGroup.ignoreCase = m.ignoreCase := by
  rw [finishGroup]
  split <;> rfl

theorem Effect.ignoreCase_eq {m' : Matches} {operation : Operation} (h : Effect m operation m') :
    m'.ignoreCase = m.ignoreCase := by
  cases h with
  | finishGroup | setEcho _ => exact ignoreCase_finishGroup
  | refused _ | add _ | mergeGroups | next _ | reset => rfl

theorem ignoreCase_afterAll (operations : List Operation) :
    (m.afterAll operations).ignoreCase = m.ignoreCase := by
  induction operations generalizing m with
  | nil => rfl
  | cons first rest ih => exact ih.trans (effect_after m first).ignoreCase_eq

/-! ## What is on offer -/

/-- The operation adds the text: it is an addition and is not refused. -/
def Adds (m : Matches) (operation : Operation) (text : Text) : Prop :=
  ∃ candidate, operation = .add candidate ∧ candidate.text = text ∧ ¬m.Refuses operation

/-- One of the operations adds the text, and no reset comes after it. -/
def Added (m : Matches) (operations : List Operation) (text : Text) : Prop :=
  ∃ before operation rest, operations = before ++ operation :: rest ∧
    (m.afterAll before).Adds operation text ∧ .reset ∉ rest

theorem mem_texts_finishGroup {text : Text} :
    text ∈ m.finishGroup.candidates.map (·.text) ↔ text ∈ m.candidates.map (·.text) := by
  rw [finishGroup]
  split
  · rfl
  · simp only [candidates, List.flatten_append, List.flatten_singleton, List.append_nil,
      List.map_append, List.mem_append, mem_map_arranged]

theorem mem_texts_mergeGroups {text : Text} :
    text ∈ m.mergeGroups.candidates.map (·.text) ↔ text ∈ m.candidates.map (·.text) := by
  have hmerged : m.mergeGroups.candidates =
      if m.candidates.isEmpty then [] else arranged m.ignoreCase m.candidates := by
    simp only [mergeGroups, candidates, List.append_nil]
    exact (apply_ite List.flatten ..).trans (by simp)
  rw [hmerged]
  split
  · next hnone => rw [List.isEmpty_iff.mp hnone]
  · exact mem_map_arranged

theorem Effect.mem_texts {m' : Matches} {operation : Operation} (h : Effect m operation m')
    {text : Text} :
    text ∈ m'.candidates.map (·.text) ↔
      operation ≠ .reset ∧ text ∈ m.candidates.map (·.text) ∨ m.Adds operation text := by
  cases h with
  | refused hrefused =>
    have hreset : operation ≠ .reset := by
      rintro rfl
      exact hrefused
    simp [Adds, hrefused, hreset]
  | add hecho => simp [Adds, Refuses, hecho, candidates, or_assoc, eq_comm]
  | finishGroup =>
    rw [mem_texts_finishGroup]
    simp [Adds]
  | setEcho _ =>
    show text ∈ m.finishGroup.candidates.map (·.text) ↔ _
    rw [mem_texts_finishGroup]
    simp [Adds]
  | mergeGroups =>
    rw [mem_texts_mergeGroups]
    simp [Adds]
  | next _ => simp [Adds, candidates]
  | reset => simp [Adds, Matches.reset, candidates]

theorem added_cons {operation : Operation} {operations : List Operation} {text : Text} :
    m.Added (operation :: operations) text ↔
      m.Adds operation text ∧ .reset ∉ operations ∨
        (m.after operation).Added operations text := by
  constructor
  · rintro ⟨before, added, rest, hsplit, hadds, hreset⟩
    rcases List.cons_eq_append_iff.mp hsplit with ⟨rfl, hrest⟩ | ⟨before, rfl, rfl⟩
    · cases hrest
      exact .inl ⟨hadds, hreset⟩
    · exact .inr ⟨before, added, rest, rfl, hadds, hreset⟩
  · rintro (⟨hadds, hreset⟩ | ⟨before, added, rest, rfl, hadds, hreset⟩)
    · exact ⟨[], operation, operations, rfl, hadds, hreset⟩
    · exact ⟨operation :: before, added, rest, rfl, hadds, hreset⟩

theorem mem_texts_afterAll {operations : List Operation} {text : Text} :
    text ∈ (m.afterAll operations).candidates.map (·.text) ↔
      .reset ∉ operations ∧ text ∈ m.candidates.map (·.text) ∨ m.Added operations text := by
  induction operations generalizing m with
  | nil => simp [afterAll, Added]
  | cons first rest ih =>
    have hrest := ih (m := m.after first)
    rw [show m.afterAll (first :: rest) = (m.after first).afterAll rest from rfl, hrest,
      (effect_after m first).mem_texts, added_cons, List.mem_cons]
    by_cases hfirst : first = .reset
    · subst hfirst
      simp [Adds]
    · have hne : Operation.reset ≠ first := Ne.symm hfirst
      simp only [hfirst, hne, ne_eq, not_false_eq_true, true_and, false_or]
      tauto

/-! ## Sessions -/

/-- After any operations on fresh matches every closed group is in order, nothing is open behind the
echo, the texts on offer are those added since the last reset, and the next operation is refused
exactly where `Refuses` says, before it has assigned anything. -/
theorem session_invariant (ignoreCase : Bool) (operations : List Operation) :
    let m := ({ ignoreCase } : Matches).afterAll operations
    (∀ group ∈ m.groups, Closed ignoreCase group) ∧
      (m.echo.isSome → m.pending = []) ∧
      (∀ text, text ∈ m.candidates.map (·.text) ↔
        ({ ignoreCase } : Matches).Added operations text) ∧
      ∀ operation,
        (m.Refuses operation →
          ∃ refusal, operation.run m = .error refusal m ∧ m.after operation = m) ∧
        (¬m.Refuses operation → ∃ text, operation.run m = .ok text (m.after operation)) := by
  intro m
  have hsound : Sound m := (sound_fresh ignoreCase).afterAll operations
  have hcase : m.ignoreCase = ignoreCase := ignoreCase_afterAll operations
  refine ⟨?_, hsound.echo_last, ?_, fun operation => ⟨run_of_refuses, ?_⟩⟩
  · intro group hgroup
    exact hcase ▸ hsound.closed group hgroup
  · intro text
    rw [mem_texts_afterAll]
    simp [candidates]
  · intro hallowed
    obtain ⟨text, hrun, -⟩ := run_of_not_refuses hallowed
    exact ⟨text, hrun⟩

end PaneCompletion.Matches
