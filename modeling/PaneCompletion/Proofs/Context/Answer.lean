import PaneCompletion.Context.Completion
import PaneCompletion.Proofs.Matches.Adding

/-!
# Answers to a request

A request that nothing stood in the way of has been answered by performing the task of its target,
at the start of its target (`Context.complete?_ok`). The tasks that rules give are for words, and
leave plain candidates only. So where a path is among the candidates, there was no rule for the
request, and the path goes in where paths do (`Context.Answers.start_of_path`).

1. tasks for words;
2. completing a request;
3. paths among the candidates.
-/

namespace PaneCompletion

/-! ## Tasks for words -/

/-- A task for words, with nothing of paths in it. -/
def Task.ofWords : Task → Bool
  | .nothing | .word .. | .option _ => true
  | .path .. | .program _ => false

theorem Target.ofWords_ofVariable (typed : Text) : (ofVariable typed).task.ofWords = true := by
  unfold ofVariable
  split <;> rfl

theorem Target.ofWords_ofExpression (argument : Text) :
    (ofExpression argument).task.ofWords = true := by
  unfold ofExpression
  split
  · rfl
  · rfl
  · exact ofWords_ofVariable _

theorem Target.ofWords_ofOwner (typed : Text) : (ofOwner typed).task.ofWords = true := by
  unfold ofOwner
  split <;> rfl

theorem Target.ofWords_ofHighlight (typed : Text) : (ofHighlight typed).task.ofWords = true := by
  unfold ofHighlight
  split
  · rfl
  · dsimp only
    split <;> rfl

namespace Context

theorem ofWords_targetByRule (context : Context) (request : Request) (rule : Rule) :
    (context.targetByRule request rule).task.ofWords = true := by
  cases rule with
  | expression => exact Target.ofWords_ofExpression _
  | unlet => exact Target.ofWords_ofVariable _
  | owner => exact Target.ofWords_ofOwner _
  | help =>
    simp only [targetByRule, helpTask]
    split <;> rfl
  | highlight =>
    simp only [targetByRule]
    split
    · rfl
    · exact Target.ofWords_ofHighlight _
  | windowRun =>
    simp only [targetByRule]
    split <;> rfl
  | _ => rfl

theorem kind_of_offerWords {words : List Text} {typed : Text} {m m' : Matches} {u : Unit}
    {candidate : Candidate} (h : offerWords words typed m = .ok u m')
    (hmem : candidate ∈ m'.candidates) : candidate ∈ m.candidates ∨ candidate.kind = .plain := by
  refine (Filling.mem_candidates_offer h hmem).imp_right fun hoffered => ?_
  obtain ⟨word, -, rfl⟩ := List.mem_map.mp hoffered
  rfl

/-- What a task for words adds is plain. -/
theorem kind_of_ofWords {context : Context} {world : World} {task : Task} {m m' : Matches}
    {u : Unit} {candidate : Candidate} (htask : task.ofWords = true)
    (h : context.perform world task m = .ok u m') (hmem : candidate ∈ m'.candidates) :
    candidate ∈ m.candidates ∨ candidate.kind = .plain := by
  cases task with
  | nothing =>
    cases h
    exact .inl hmem
  | word vocabulary typed file ending => exact kind_of_offerWords h hmem
  | option typed => exact kind_of_offerWords h hmem
  | path fragment filter directory => simp [Task.ofWords] at htask
  | program typed => simp [Task.ofWords] at htask

/-! ## Completing a request -/

theorem perform?_ok {context : Context} {world : World} {task : Task} {m m' : Matches} {u : Unit}
    (h : (context.perform? world task).run m = .ok (.ok u) m') :
    context.perform world task m = .ok () m' := by
  rw [perform?] at h
  split at h
  · obtain ⟨added, between, -, hthrow⟩ := Filling.bind_ok h
    cases added <;> cases hthrow
  · obtain ⟨_, between, hrun, hpure⟩ := Filling.bind_ok h
    cases hpure
    exact hrun

/-- A request that is completed has the task of its target performed, and starts there. -/
theorem complete?_ok {context : Context} {world : World} {request : Request} {m m' : Matches}
    {start : Int} (h : (context.complete? world request).run m = .ok (.ok start) m') :
    (context.target request).start = start ∧
      context.perform world (context.target request).task m = .ok () m' := by
  obtain ⟨performed, between, hperform, hpure⟩ := Filling.bind_ok h
  cases performed with
  | error misfit => cases hpure
  | ok u =>
    cases hpure
    exact ⟨rfl, perform?_ok hperform⟩

/-! ## Paths among the candidates -/

/-- Completing a request answers a candidate, and the offset at which it goes in. -/
def Answers (context : Context) (world : World) (request : Request) (start : Int)
    (candidate : Candidate) : Prop :=
  ∃ matched, (context.complete? world request).run context.noMatches = .ok (.ok start) matched ∧
    candidate ∈ matched.candidates

variable {context : Context} {world : World} {request : Request} {start : Int}
  {candidate : Candidate}

theorem Answers.start_eq (h : context.Answers world request start candidate) :
    start = (context.target request).start := by
  obtain ⟨matched, hrun, -⟩ := h
  exact (complete?_ok hrun).1.symm

/-- A path is the answer to a task for paths or programs. -/
theorem Answers.ofWords_of_path (h : context.Answers world request start candidate)
    (hpath : candidate.kind = .path) : (context.target request).task.ofWords = false := by
  obtain ⟨matched, hrun, hmem⟩ := h
  cases htask : (context.target request).task.ofWords with
  | false => rfl
  | true =>
    rcases kind_of_ofWords htask (complete?_ok hrun).2 hmem with hnone | hplain
    · simp [noMatches, Matches.candidates] at hnone
    · simp [hpath] at hplain

/-- A path that is answered goes in where paths go in. -/
theorem Answers.start_of_path (h : context.Answers world request start candidate)
    (hpath : candidate.kind = .path) : start = request.pathStart := by
  have htask := h.ofWords_of_path hpath
  rw [h.start_eq]
  cases hrule : Rule.of? request with
  | some rule =>
    simp only [target, hrule, ofWords_targetByRule] at htask
    cases htask
  | none =>
    simp only [target, hrule, pathTarget] at htask ⊢
    cases hstop : request.stopsAtQuote with
    | true =>
      rw [hstop, if_pos rfl] at htask
      cases htask
    | false => rfl

end Context

end PaneCompletion
