import PaneCompletion.Proofs.Browse.Walk
import PaneCompletion.Proofs.Context.Argument

/-!
# The echo

The echo is the last entry of a cycle, and it should bring the line back to what was typed: put in
where candidates go in, it has to be what the line has there. The offset comes from the target of a
request, the echo from whatever performs its task, and what performs a task is handed a text that
may have been cut already. `Context.echoed` says what a task echoes.

Rules cut the text that they hand over at the very offset that they answer (`Target.Cuts`), so where
there is a rule the echo restores the line (`echo_restores_of_rule`). A path candidate goes in
behind the last slash, and what is echoed for a path are the characters behind it. But the name of a
color scheme or of a program is handed over and echoed with its slashes: with a slash in it, it
restores another line (`echo_restores_path_iff`, `not_echo_restores_name`).

1. what a task echoes;
2. texts cut where candidates go in;
3. rules;
4. names and paths.
-/

namespace PaneCompletion

/-! ## What a task echoes -/

/-- The typed text that performing a task for words or programs echoes. -/
def Task.typed? : Task → Option Text
  | .word _ typed _ _ | .option typed | .program typed => some typed
  | .nothing | .path _ _ _ => none

namespace Context

/-- What performing a task echoes. -/
def echoed (context : Context) (world : World) : Task → Option Text
  | .path fragment filter none => context.browser.echoed world fragment filter none
  | .path fragment filter (some directory) =>
    context.browser.echoed world fragment filter (Browser.baseInside world directory fragment)
  | task => task.typed?

theorem allowed_perform_echoed (context : Context) (world : World) (task : Task) :
    Filling.Allowed (context.perform world task)
      (·.echo.map (·.text) = context.echoed world task) := by
  have hsome : ∀ {typed : Text} {kind : Kind} (m : Matches), m.echo = some ⟨typed, kind⟩ →
      m.echo.map (·.text) = some typed := by
    intro typed kind m hm
    rw [hm]
    rfl
  cases task with
  | nothing => exact (Filling.allowed_pure ()).mono fun m hm => by rw [hm]; rfl
  | word vocabulary typed file ending => exact (Filling.allowed_offer _ _).mono hsome
  | option typed => exact (Filling.allowed_offer _ _).mono hsome
  | path fragment filter directory =>
    cases directory with
    | none => exact context.browser.allowed_complete_echoed world fragment filter none
    | some directory => exact context.browser.allowed_complete_echoed world fragment filter _
  | program typed => exact (Program.allowed_complete _ _ _ _).mono hsome

/-- A request is completed unless something stands in the way of its task; then it starts where its
target does, and leaves the echo of its task. -/
theorem complete?_echoed (context : Context) (world : World) (request : Request)
    (ignoreCase : Bool) :
    ∃ outcome matched, (context.complete? world request).run { ignoreCase } = .ok outcome matched ∧
      (context.misfit? world (context.target request).task = none → ∃ start, outcome = .ok start) ∧
      ∀ start, outcome = .ok start →
        start = (context.target request).start ∧
        matched.echo.map (·.text) = context.echoed world (context.target request).task := by
  obtain ⟨matched, hrun⟩ := context.complete?_run world request (m := { ignoreCase }) rfl
  refine ⟨_, matched, hrun, fun hmisfit => ⟨_, by rw [hmisfit]⟩, fun start hstart => ?_⟩
  rw [hstart] at hrun
  obtain ⟨htarget, hperform⟩ := complete?_ok hrun
  exact ⟨htarget.symm, (context.allowed_perform_echoed world _).of_run rfl hperform⟩

end Context

/-! ## Texts cut where candidates go in -/

namespace Target

/-- What is echoed of a text are the characters from the offset on at which a candidate goes in. -/
def Cuts (target : Target) (text : Text) : Prop :=
  ∀ typed, target.task.typed? = some typed →
    ∃ cut : Nat, target.start = cut ∧ typed = text.drop cut

theorem cuts_drop {task : Task} {cut : Nat} {text : Text}
    (h : task.typed? = some (text.drop cut)) : Cuts ⟨task, cut⟩ text := by
  intro typed htyped
  exact ⟨cut, rfl, Option.some.inj (htyped.symm.trans h)⟩

theorem cuts_nothing (start : Int) (text : Text) : Cuts ⟨.nothing, start⟩ text := by
  intro typed htyped
  cases htyped

theorem Cuts.after {target : Target} {text : Text} {offset : Nat}
    (h : target.Cuts (text.drop offset)) : (target.after offset).Cuts text := by
  intro typed htyped
  obtain ⟨cut, hstart, hdrop⟩ := h typed htyped
  refine ⟨offset + cut, ?_, by rw [hdrop, List.drop_drop]⟩
  show (offset : Int) + target.start = _
  rw [hstart]
  rfl

theorem cuts_ofOwner (typed : Text) : (ofOwner typed).Cuts typed := by
  rw [ofOwner]
  split
  · exact cuts_drop rfl
  · exact cuts_drop rfl

theorem cuts_ofHighlight (typed : Text) : (ofHighlight typed).Cuts typed := by
  rw [ofHighlight]
  split
  · exact cuts_drop rfl
  · dsimp only
    split
    · rw [List.drop_drop]
      exact cuts_drop rfl
    · exact cuts_drop rfl

/-- The name at the end of a text begins where the text is so much shorter. -/
theorem cuts_ofFunction (typed : Text) : (ofFunction typed).Cuts typed := by
  have hsuffix : Text.takeEnd Text.isWord typed <:+ typed := by
    rw [← List.reverse_prefix, Text.takeEnd, List.reverse_reverse]
    exact List.takeWhile_prefix _
  exact cuts_drop (congrArg some (List.suffix_iff_eq_drop.mp hsuffix))

theorem cuts_ofVariable (typed : Text) : (ofVariable typed).Cuts typed := by
  rw [ofVariable.eq_def]
  split
  · exact cuts_drop rfl
  · exact cuts_drop rfl

theorem cuts_ofExpression (argument : Text) : (ofExpression argument).Cuts argument := by
  rw [ofExpression]
  split
  · exact cuts_drop rfl
  · next offset heq =>
    rw [expressionPart_function heq]
    exact Cuts.after (cuts_ofFunction argument)
  · exact (cuts_ofVariable _).after

end Target

/-! ## Rules -/

namespace Context

theorem cuts_targetByRule (context : Context) (request : Request) (rule : Rule) :
    (context.targetByRule request rule).Cuts request.line := by
  cases rule with
  | expression => exact (Target.cuts_ofExpression _).after
  | unlet => exact (Target.cuts_ofVariable _).after
  | owner => exact (Target.cuts_ofOwner _).after
  | help =>
    rw [targetByRule, helpTask]
    split
    · exact Target.cuts_drop rfl
    · exact Target.cuts_nothing _ _
  | highlight =>
    rw [targetByRule]
    split
    · exact Target.cuts_drop rfl
    · exact (Target.cuts_ofHighlight _).after
  | nothing => exact Target.cuts_nothing _ _
  | windowRun =>
    rw [targetByRule]
    split
    · exact Target.cuts_drop rfl
    · exact Target.cuts_nothing _ _
  | _ => exact Target.cuts_drop rfl

theorem echoed_of_ofWords {task : Task} (h : task.ofWords = true) (context : Context)
    (world : World) : context.echoed world task = task.typed? := by
  cases task with
  | path fragment filter directory => cases h
  | _ => rfl

theorem isSome_typed?_of_ofWords {task : Task} (h : task.ofWords = true) :
    task.typed?.isSome ↔ task ≠ .nothing := by
  cases task with
  | path fragment filter directory => cases h
  | _ => simp [Task.typed?]

end Context

/-- Where there is a rule for a request, its matches end in an echo unless there is nothing to be
matched, and the echo restores the line: the rule cuts at one place only. -/
theorem echo_restores_of_rule (context : Context) (world : World) (text : Text)
    (ignoreCase : Bool) {rule : Rule} (hrule : Rule.of? (parseLine text).2 = some rule) :
    let request := (parseLine text).2
    ∃ outcome matched, (context.complete? world request).run { ignoreCase } = .ok outcome matched ∧
      (context.settings.misfits.Fit → context.Answerable world (context.target request).task →
        ∃ start, outcome = .ok start) ∧
      ∀ start, outcome = .ok start →
        (matched.echo.isSome ↔ (context.target request).task ≠ .nothing) ∧
        ∀ echo, matched.echo = some echo →
          ∃ cut : Nat, start = cut ∧ request.line.take cut ++ echo.text = request.line := by
  intro request
  have htarget : context.target request = context.targetByRule request rule := by
    rw [Context.target, hrule]
  have hwords : (context.target request).task.ofWords = true := by
    rw [htarget]
    exact context.ofWords_targetByRule request rule
  obtain ⟨outcome, matched, hrun, hanswers, hecho⟩ :=
    context.complete?_echoed world request ignoreCase
  refine ⟨outcome, matched, hrun, fun hfit hanswerable => hanswers ?_, fun start hstart => ?_⟩
  · refine Context.misfit?_eq_none hfit hanswerable fun typed htask => ?_
    rw [htask] at hwords
    cases hwords
  obtain ⟨rfl, hecho⟩ := hecho start hstart
  rw [Context.echoed_of_ofWords hwords] at hecho
  refine ⟨?_, fun echo hsome => ?_⟩
  · rw [← Context.isSome_typed?_of_ofWords hwords, ← hecho, Option.isSome_map]
  · rw [hsome, htarget] at hecho
    obtain ⟨cut, hcut, hdrop⟩ := context.cuts_targetByRule request rule echo.text hecho.symm
    exact ⟨cut, by rw [htarget, hcut], by rw [hdrop, List.take_append_drop]⟩

theorem echo_restores_of_rule_style :
    let request := (parseLine "highlight group cterm=bold,un".toList).2
    ∃ matched, (({ lexicon := [] } : Context).complete? {} request).run {} =
        .ok (.ok 17) matched ∧ matched.echo = some ⟨"un".toList, .plain⟩ ∧
      request.line.take 17 ++ "un".toList = request.line := by
  intro request
  have hrule : Rule.of? request = some .highlight := by decide
  obtain ⟨outcome, matched, hrun, -, hrestores⟩ :=
    echo_restores_of_rule { lexicon := [] } {} "highlight group cterm=bold,un".toList false hrule
  have hevaluated : (({ lexicon := [] } : Context).complete? {} request).run {} =
      .ok (.ok 17) { echo := some ⟨"un".toList, .plain⟩ } := rfl
  cases hrun.symm.trans hevaluated
  obtain ⟨cut, hcut, hline⟩ := (hrestores 17 rfl).2 _ rfl
  obtain rfl : cut = 17 := by omega
  exact ⟨_, hevaluated, rfl, hline⟩

/-! ## Names and paths -/

/-- A text that means what it says: nothing in it is quoted, taken as it is or replaced, and no tab
is in it. -/
def Literal (text : Text) : Prop := ∀ c ∈ text, c ∉ ['\'', '"', '\\', '$', '~', '\t']

instance (text : Text) : Decidable (Literal text) :=
  List.decidableBAll (· ∉ ['\'', '"', '\\', '$', '~', '\t']) text

theorem Literal.bare {text : Text} (h : Literal text) : Bare text :=
  Bare.of_excludes (by simp) h

theorem Literal.not_mem {text : Text} (h : Literal text) {c : Char}
    (hc : c ∈ ['\'', '"', '\\', '$', '~', '\t']) : c ∉ text :=
  fun hmem => h c hmem hc

/-- Whether the argument is a name and no path: that of a color scheme, or of a program. -/
def Request.wantsName (request : Request) : Bool :=
  match request.command with
  | .colorscheme => request.argumentNumber == 0
  | .shell => request.atFirst && !Text.startsWith request.fragment ['.']
  | _ => false

namespace Context

/-- The task of a name echoes all of it; any other task without a rule is for a path, or none. -/
theorem pathTask_cases (context : Context) (request : Request) :
    (request.wantsName = true ∧
      (context.pathTask request request.fragment).typed? = some request.fragment) ∨
    (request.wantsName = false ∧
      (context.pathTask request request.fragment = .nothing ∨ ∃ filter directory,
        context.pathTask request request.fragment = .path request.fragment filter directory)) := by
  cases hcommand : request.command <;> simp only [pathTask, hcommand]
  case colorscheme =>
    split
    · next hfirst => exact .inl ⟨by simp [Request.wantsName, hcommand, hfirst], rfl⟩
    · next hnext => exact .inr ⟨by simp [Request.wantsName, hcommand, hnext], .inr ⟨_, _, rfl⟩⟩
    · next hfirst _ =>
      have hname : request.wantsName = false := by
        rw [Request.wantsName, hcommand]
        exact beq_eq_false_iff_ne.mpr hfirst
      exact .inr ⟨hname, .inl rfl⟩
  case shell =>
    split
    · next hlater =>
      have hname : request.wantsName = false := by simp_all [Request.wantsName]
      exact .inr ⟨hname, .inr ⟨_, _, rfl⟩⟩
    · next hfirst =>
      split
      · next hdot =>
        exact .inr ⟨by simp [Request.wantsName, hcommand, hdot], .inr ⟨_, _, rfl⟩⟩
      · next hdot =>
        have hname : request.wantsName = true := by simp_all [Request.wantsName]
        exact .inl ⟨hname, rfl⟩
  case find =>
    have hname : request.wantsName = false := by rw [Request.wantsName, hcommand]
    split
    · exact .inr ⟨hname, .inr ⟨_, _, rfl⟩⟩
    · exact .inr ⟨hname, .inl rfl⟩
  all_goals exact .inr ⟨by rw [Request.wantsName, hcommand], .inr ⟨_, _, rfl⟩⟩

theorem target_of_no_rule {context : Context} {request : Request}
    (hrule : Rule.of? request = none) (hstop : request.stopsAtQuote = false) :
    context.target request =
      ⟨context.pathTask request request.fragment, request.pathStart⟩ := by
  simp only [target, hrule, pathTarget, hstop]
  rfl

theorem echoed_of_typed? {context : Context} {world : World} {task : Task} {typed : Text}
    (h : task.typed? = some typed) : context.echoed world task = some typed := by
  cases task with
  | path fragment filter directory => cases h
  | _ => exact h

theorem eq_of_echoed_path {context : Context} {world : World} {fragment name : Text}
    {filter : EntryFilter} {directory : Option Text}
    (h : context.echoed world (.path fragment filter directory) = some name) :
    name = (context.browser.split world fragment).2 := by
  cases directory with
  | none => exact Browser.eq_of_echoed h
  | some directory => exact Browser.eq_of_echoed h

/-- Without a rule what is echoed is the argument, or all of it behind the last slash. -/
theorem echoed_restores_iff (context : Context) (world : World) {command : Command} {line : Text}
    (hrule : Rule.of? (.ofLine command line) = none) (hline : Literal line) :
    let request := Request.ofLine command line
    let echoed := context.echoed world (context.target request).task
    (request.wantsName = true → echoed.isSome) ∧
      ∀ name, echoed = some name → ∃ cut : Nat, (context.target request).start = cut ∧
        (line.take cut ++ name = line ↔
          ¬(request.wantsName = true ∧ '/' ∈ line.drop (argumentStart line))) := by
  intro request echoed
  have hbare : Bare (line.drop (argumentStart line)) :=
    fun c hc => hline.bare c (List.mem_of_mem_drop hc)
  have hfragment : request.fragment = line.drop (argumentStart line) :=
    Request.fragment_ofLine_bare command hline.bare (hline.not_mem (by simp))
  have htarget : context.target request =
      ⟨context.pathTask request request.fragment, request.pathStart⟩ :=
    target_of_no_rule hrule (Request.stopsAtQuote_ofLine_bare command hbare)
  have hechoed : echoed = context.echoed world (context.pathTask request request.fragment) :=
    congrArg (fun target : Target => context.echoed world target.task) htarget
  obtain ⟨hpathStart, hle, -⟩ := Request.pathStart_ofLine_bare command hbare
  have hstart : (context.target request).start =
      (argumentStart line + Text.reach '/' request.fragment : Nat) := by
    rw [htarget]
    exact hpathStart
  rcases context.pathTask_cases request with ⟨hname, htyped⟩ | ⟨hname, hpath⟩
  · have hwhole : echoed = some request.fragment := hechoed.trans (echoed_of_typed? htyped)
    refine ⟨fun _ => by rw [hwhole]; rfl, fun name hecho => ⟨_, hstart, ?_⟩⟩
    obtain rfl : request.fragment = name := Option.some.inj (hwhole.symm.trans hecho)
    have hiff := Text.take_append_drop_iff hle
    rw [← hfragment, Text.reach_eq_zero_iff] at hiff
    rw [← hfragment, hname]
    simpa using hiff
  · refine ⟨fun hwants => absurd hwants (by simp [hname]), fun name hecho => ⟨_, hstart, ?_⟩⟩
    rw [hechoed] at hecho
    rcases hpath with hnothing | ⟨filter, directory, hpath⟩
    · rw [hnothing] at hecho
      cases hecho
    · rw [hpath] at hecho
      have hdollar : '$' ∉ request.fragment := by
        rw [hfragment]
        exact fun hmem => hline.not_mem (by simp) (List.mem_of_mem_drop hmem)
      have htilde : request.fragment.head? ≠ some '~' :=
        Request.head?_fragment_ne_tilde command hbare fun hmem =>
          hline.not_mem (by simp) (List.mem_of_mem_drop hmem)
      have hdrop : request.fragment.drop (Text.reach '/' request.fragment) =
          line.drop (argumentStart line + Text.reach '/' request.fragment) := by
        rw [← List.drop_drop, ← hfragment]
      rw [eq_of_echoed_path hecho, Browser.split_of_not_mem hdollar htilde, hname, hdrop,
        List.take_append_drop]
      simp

end Context

/-- Where there is no rule for a request, and its line means what it says, the echo restores the
line exactly if it is no name with a slash in it. -/
theorem echo_restores_path_iff (context : Context) (world : World) (text : Text)
    (ignoreCase : Bool) (hrule : Rule.of? (parseLine text).2 = none)
    (hline : Literal (parseLine text).2.line) :
    let request := (parseLine text).2
    ∃ outcome matched, (context.complete? world request).run { ignoreCase } = .ok outcome matched ∧
      (context.settings.misfits.Fit → context.Answerable world (context.target request).task →
        (request.command = .shell ∧ request.atFirst → SearchList.Known world context.searchList) →
        ∃ start, outcome = .ok start) ∧
      ∀ start, outcome = .ok start →
        (request.wantsName = true → matched.echo.isSome) ∧
        ∀ echo, matched.echo = some echo →
          ∃ cut : Nat, start = cut ∧
            (request.line.take cut ++ echo.text = request.line ↔
              ¬(request.wantsName = true ∧ '/' ∈ request.line.drop request.position.toNat)) := by
  intro request
  obtain ⟨outcome, matched, hrun, hanswers, hecho⟩ :=
    context.complete?_echoed world request ignoreCase
  obtain ⟨hname, hrestores⟩ := context.echoed_restores_iff world hrule hline
  refine ⟨outcome, matched, hrun, fun hfit hanswerable hknown => hanswers ?_,
    fun start hstart => ?_⟩
  · exact Context.misfit?_eq_none hfit hanswerable fun typed htask =>
      hknown (Context.shell_of_program htask)
  obtain ⟨rfl, hecho⟩ := hecho start hstart
  refine ⟨fun hwants => ?_, fun echo hsome => ?_⟩
  · rw [← Option.isSome_map (f := (·.text)), hecho]
    exact hname hwants
  · rw [hsome] at hecho
    exact hrestores echo.text hecho.symm

theorem echo_restores_path_iff_directory :
    let world : World := { disk := ({} : Disk).put "/a/bc".toList (.directory true) }
    let request := (parseLine "cd a/b".toList).2
    ∃ matched, (({ lexicon := [] } : Context).complete? world request).run {} =
        .ok (.ok 2) matched ∧ matched.echo = some ⟨"b".toList, .path⟩ ∧
      request.line.take 2 ++ "b".toList = request.line := by
  intro world request
  obtain ⟨outcome, matched, hrun, -, hrestores⟩ :=
    echo_restores_path_iff { lexicon := [] } world "cd a/b".toList false (by decide) (by decide)
  have hevaluated : ∃ matched, (({ lexicon := [] } : Context).complete? world request).run {} =
      .ok (.ok 2) matched ∧ matched.echo = some ⟨"b".toList, .path⟩ := ⟨_, rfl, rfl⟩
  obtain ⟨found, hfound, hecho⟩ := hevaluated
  cases hrun.symm.trans hfound
  obtain ⟨cut, hcut, hiff⟩ := (hrestores 2 rfl).2 _ hecho
  obtain rfl : cut = 2 := by omega
  exact ⟨_, hfound, hecho, hiff.mpr (by decide)⟩

/-- The name of a color scheme and that of a program go in behind their last slash, but are echoed
with the slash. -/
theorem not_echo_restores_name :
    (let request := (parseLine "colorscheme a/b".toList).2
    (({ lexicon := [] } : Context).complete? {} request).run {} =
        .ok (.ok 2) { echo := some ⟨"a/b".toList, .plain⟩ } ∧
      request.line.take 2 ++ "a/b".toList ≠ request.line) ∧
    let request := (parseLine "!a/b".toList).2
    let context : Context := { lexicon := [], searchList := some {} }
    (context.complete? {} request).run {} = .ok (.ok 2) { echo := some ⟨"a/b".toList, .path⟩ } ∧
      request.line.take 2 ++ "a/b".toList ≠ request.line :=
  ⟨⟨rfl, by decide⟩, rfl, by decide⟩

end PaneCompletion
