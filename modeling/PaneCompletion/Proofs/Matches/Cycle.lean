import Mathlib.Data.List.Rotate
import PaneCompletion.Proofs.Matches.Session

/-!
# Cycling through the entries

The cursor of a cycle outlives additions, the closing of groups, which drops entries, and the echo,
so it may point behind the last entry; it counts modulo their number. What lies ahead are the texts
of the entries, rotated by the cursor (`ahead`). A step of the cycle takes the first text from there
and puts it at the end (`exists_next`), so as many steps as there are entries go through what lies
ahead once, and leave it as it was (`exists_nexts`). That holds after any session
(`nexts_visit_each`); where the cycle has not been turned since it began, it goes through the texts
in their order, the echo last.

1. what lies ahead;
2. steps of the cycle;
3. where the cycle begins.
-/

namespace PaneCompletion.Matches

variable {m : Matches}

/-! ## What lies ahead -/

/-- The texts of the entries in the order in which the cycle will come to them. -/
def ahead (m : Matches) : List Text := m.texts.rotate m.cursor

theorem length_texts (m : Matches) : m.texts.length = m.count := List.length_map _

theorem length_ahead (m : Matches) : m.ahead.length = m.count := by
  rw [ahead, List.length_rotate, length_texts]

/-- What lies ahead begins with the entry that the cursor points to, counted modulo the number of
entries. -/
theorem exists_ahead_eq_cons (h : m.cursor % m.count < m.entries.length) :
    ∃ rest, m.ahead = (m.entries.get ⟨m.cursor % m.count, h⟩).text :: rest := by
  have hlength : m.cursor % m.count < m.texts.length := by rwa [length_texts]
  refine ⟨m.texts.drop (m.cursor % m.count + 1) ++ m.texts.take (m.cursor % m.count), ?_⟩
  rw [ahead, List.rotate_eq_drop_append_take_mod, length_texts, List.drop_eq_getElem_cons hlength,
    List.cons_append]
  simp [texts]

/-! ## Steps of the cycle -/

/-- A step of the cycle comes to the first text of those ahead, which is the last one then, and
moves the cursor only. -/
theorem exists_next (h : m.entries ≠ []) :
    ∃ text rest cursor, m.next = .ok (text, { m with cursor }) ∧ m.ahead = text :: rest ∧
      ({ m with cursor } : Matches).ahead = rest ++ [text] := by
  obtain ⟨rest, hrest⟩ := exists_ahead_eq_cons (Nat.mod_lt _ (List.length_pos_iff.mpr h))
  refine ⟨_, rest, (m.cursor + 1) % m.count, next_of_ne_nil h, hrest, ?_⟩
  calc ({ m with cursor := (m.cursor + 1) % m.count } : Matches).ahead
      = m.texts.rotate ((m.cursor + 1) % m.texts.length) := by
        rw [length_texts]
        rfl
    _ = m.ahead.rotate 1 := by rw [List.rotate_mod, ahead, List.rotate_rotate]
    _ = rest ++ [_] := by rw [hrest, List.rotate_cons_succ, List.rotate_zero]

/-- Some steps of the cycle: the texts that it comes to, and the matches after them. -/
def nexts (m : Matches) : Nat → Except Refusal (List Text × Matches)
  | 0 => .ok ([], m)
  | steps + 1 => do
    let (text, between) ← m.next
    let (texts, last) ← between.nexts steps
    return (text :: texts, last)

theorem nexts_succ {text : Text} {between last : Matches} {texts : List Text} {steps : Nat}
    (hnext : m.next = .ok (text, between)) (hrest : between.nexts steps = .ok (texts, last)) :
    m.nexts (steps + 1) = .ok (text :: texts, last) := by
  rw [nexts, hnext]
  show (do let (texts, last) ← between.nexts steps; return (text :: texts, last)) = _
  rw [hrest]
  rfl

/-- Where there are entries the cycle never ends, and no step changes them. -/
theorem exists_nexts (h : m.entries ≠ []) (steps : Nat) :
    ∃ texts cursor, m.nexts steps = .ok (texts, { m with cursor }) ∧
      ({ m with cursor } : Matches).ahead = m.ahead.rotate steps ∧
      (steps ≤ m.count → texts = m.ahead.take steps) := by
  induction steps generalizing m with
  | zero => exact ⟨[], m.cursor, rfl, by rw [List.rotate_zero], fun _ => rfl⟩
  | succ steps ih =>
    obtain ⟨text, rest, cursor, hnext, hahead, hturned⟩ := exists_next h
    obtain ⟨texts, last, hrest, hlast, htake⟩ := ih (m := { m with cursor }) h
    refine ⟨text :: texts, last, nexts_succ hnext hrest, ?_, ?_⟩
    · rw [hlast, hturned, hahead, List.rotate_cons_succ]
    · intro hsteps
      have hlength : rest.length + 1 = m.count := by
        rw [← length_ahead, hahead, List.length_cons]
      have htexts : texts = (rest ++ [text]).take steps :=
        hturned ▸ htake (Nat.le_of_succ_le hsteps)
      rw [htexts, hahead, List.take_succ_cons, List.take_append_of_le_length (by omega)]

/-- As many steps as there are entries go through what lies ahead, and bring the cycle back. -/
theorem exists_nexts_count (h : m.entries ≠ []) :
    ∃ cursor, m.nexts m.count = .ok (m.ahead, { m with cursor }) ∧
      ({ m with cursor } : Matches).ahead = m.ahead := by
  obtain ⟨texts, cursor, hnexts, hahead, htake⟩ := exists_nexts h m.count
  have htexts : texts = m.ahead := by
    rw [htake le_rfl, ← length_ahead, List.take_length]
  have hback : m.ahead.rotate m.count = m.ahead := by
    rw [← length_ahead, List.rotate_length]
  exact ⟨cursor, htexts ▸ hnexts, hahead.trans hback⟩

/-! ## Where the cycle begins -/

/-- The cycle has not been turned since it began, with the session or with the last time that
everything was forgotten or merged. -/
def Unturned (operations : List Operation) : Prop :=
  ∃ before since, operations = before ++ since ∧ .next ∉ since ∧
    (before = [] ∨ before.getLast? = some .reset ∨ before.getLast? = some .mergeGroups)

theorem cursor_finishGroup (m : Matches) : m.finishGroup.cursor = m.cursor := by
  rw [finishGroup]
  split <;> rfl

theorem Effect.cursor_eq_zero {m' : Matches} {operation : Operation}
    (h : Effect m operation m') (hne : operation ≠ .next) (hm : m.cursor = 0) : m'.cursor = 0 := by
  cases h with
  | finishGroup | setEcho _ => exact (cursor_finishGroup m).trans hm
  | refused _ | add _ => exact hm
  | mergeGroups | reset => rfl
  | next _ => exact absurd rfl hne

theorem cursor_afterAll_eq_zero {operations : List Operation} (hnext : .next ∉ operations)
    (hm : m.cursor = 0) : (m.afterAll operations).cursor = 0 := by
  induction operations generalizing m with
  | nil => exact hm
  | cons first rest ih =>
    obtain ⟨hfirst, hrest⟩ : .next ≠ first ∧ .next ∉ rest := by simpa using hnext
    exact ih hrest ((effect_after m first).cursor_eq_zero hfirst.symm hm)

theorem cursor_afterAll_of_unturned {operations : List Operation} (h : Unturned operations)
    (hm : m.cursor = 0) : (m.afterAll operations).cursor = 0 := by
  obtain ⟨before, since, rfl, hnext, hbefore⟩ := h
  have hbegins : (m.afterAll before).cursor = 0 := by
    rcases hbefore with rfl | hlast | hlast
    · exact hm
    all_goals
      obtain ⟨front, rfl⟩ := List.getLast?_eq_some_iff.mp hlast
      rw [afterAll_append]
      rfl
  rw [afterAll_append]
  exact cursor_afterAll_eq_zero hnext hbegins

/-- After any session that leaves entries, as many steps of the cycle as there are entries come to
each of them once, the next ones to the same in the same order, and no number of steps changes the
entries. Where the cycle has not been turned since it began, the texts come in their order and the
echo is the last. -/
theorem nexts_visit_each (ignoreCase : Bool) (operations : List Operation) :
    let m := ({ ignoreCase } : Matches).afterAll operations
    m.entries ≠ [] →
      (∃ texts m' m'', m.nexts m.count = .ok (texts, m') ∧ m'.nexts m.count = .ok (texts, m'') ∧
        m.texts.IsRotated texts ∧
        (Unturned operations →
          texts = m.texts ∧ ∀ echo, m.echo = some echo → texts.getLast? = some echo.text)) ∧
      ∀ steps, ∃ texts m', m.nexts steps = .ok (texts, m') ∧ m'.entries = m.entries := by
  intro m hentries
  obtain ⟨cursor, hfirst, hahead⟩ := exists_nexts_count hentries
  obtain ⟨last, hagain, -⟩ := exists_nexts_count (m := { m with cursor }) hentries
  rw [hahead] at hagain
  refine ⟨⟨m.ahead, _, _, hfirst, hagain, ⟨m.cursor, rfl⟩, ?_⟩, ?_⟩
  · intro hunturned
    have hcursor : m.cursor = 0 := cursor_afterAll_of_unturned hunturned rfl
    have htexts : m.ahead = m.texts := by rw [ahead, hcursor, List.rotate_zero]
    refine ⟨htexts, fun echo hecho => ?_⟩
    rw [htexts, texts, entries, hecho]
    simp
  · intro steps
    obtain ⟨texts, moved, hnexts, -⟩ := exists_nexts hentries steps
    exact ⟨texts, _, hnexts, rfl⟩

/-- The cursor has come to the third of three candidates, of which two are left when the group is
closed; with the echo they are three again. -/
theorem nexts_visit_each_shrunk :
    let operations : List Operation :=
      [.add ⟨['b'], .plain⟩, .add ⟨['a'], .plain⟩, .add ⟨['a'], .path⟩, .next, .next, .finishGroup,
        .setEcho ⟨['x'], .plain⟩]
    let m := ({} : Matches).afterAll operations
    m.entries ≠ [] ∧ ∃ m' m'', m.nexts m.count = .ok ([['x'], ['a'], ['b']], m') ∧
      m'.nexts m.count = .ok ([['x'], ['a'], ['b']], m'') := by
  intro operations m
  have hentries : m.entries ≠ [] := by decide
  obtain ⟨⟨texts, m', m'', hfirst, hagain, -⟩, -⟩ := nexts_visit_each false operations hentries
  have hcomputed : m.nexts m.count = .ok ([['x'], ['a'], ['b']], m) := by decide
  cases hcomputed.symm.trans hfirst
  exact ⟨hentries, _, _, hcomputed, hagain⟩

end PaneCompletion.Matches
