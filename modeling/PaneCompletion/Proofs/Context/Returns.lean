import PaneCompletion.Proofs.Context.Answer
import PaneCompletion.Proofs.Settings.Fit
import PaneCompletion.Proofs.Text.Offset
import PaneCompletion.Proofs.World.Expansion

/-!
# What a request comes to

Nothing that a task does to matches without an echo is refused: the one directory of a path is read
before the echo is set, and the directories in which programs are looked for leave the echo to the
end (`Context.allowed_perform`). So a request comes to the start of its target, or to what stands in
the way of its task (`Context.complete?_run`). Nothing stands in the way where the settings fit, the
system does not refuse what the task asks it, and the directories to search are known
(`Context.misfit?_eq_none`).

1. paths and programs;
2. tasks and requests;
3. directories to search;
4. nothing in the way.
-/

namespace PaneCompletion

open Filling

/-! ## Paths and programs -/

/-- Completing a path is never refused; where it is for executables the echo is left unset. -/
theorem Browser.allowed_complete (browser : Browser) (world : World) (fragment : Text)
    (filter : EntryFilter) (base : Option Text) :
    Allowed (browser.complete world fragment filter base)
      fun m => filter = .executables → m.echo = none := by
  have hopen : ∀ m : Matches, m.echo = none → filter = .executables → m.echo = none :=
    fun _ hm _ => hm
  unfold complete
  split
  · exact (allowed_addAll _).mono hopen
  · dsimp only
    split
    · exact (allowed_addAll _).mono hopen
    · refine (allowed_addAll _).bind fun _ => allowed_finishGroup.bind fun _ => ?_
      split
      · next hfilter => exact (allowed_setEcho _).mono fun _ _ heq => absurd heq hfilter
      · exact (allowed_pure ()).mono hopen

theorem Program.allowed_completeEach (world : World) (browser : Browser) (typed : Text)
    (directories : List Text) :
    Allowed (completeEach world browser typed directories) (·.echo = none) := by
  induction directories with
  | nil => exact allowed_pure ()
  | cons directory rest ih =>
    rw [completeEach]
    split
    · have hone := browser.allowed_complete world typed .executables (some directory)
      exact (hone.mono fun _ hm => hm rfl).bind fun _ => ih
    · exact (allowed_pure ()).bind fun _ => ih

theorem Program.allowed_complete (world : World) (settings : Settings) (given : Option SearchList)
    (typed : Text) :
    Allowed (complete world settings given typed) (·.echo = some ⟨typed, .path⟩) :=
  (allowed_completeEach _ _ _ _).bind fun _ => allowed_setEcho _

/-! ## Tasks and requests -/

namespace Context

/-- Performing a task is never refused. -/
theorem allowed_perform (context : Context) (world : World) (task : Task) :
    Allowed (context.perform world task) fun _ => True := by
  have htrue : ∀ {left : Matches → Prop} (m : Matches), left m → True := fun _ _ => trivial
  cases task with
  | nothing => exact (allowed_pure ()).mono htrue
  | word vocabulary typed file ending => exact (allowed_offer _ _).mono htrue
  | option typed => exact (allowed_offer _ _).mono htrue
  | path fragment filter directory =>
    cases directory with
    | none => exact (Browser.allowed_complete _ _ _ _ _).mono htrue
    | some directory => exact (Browser.allowed_complete _ _ _ _ _).mono htrue
  | program typed => exact (Program.allowed_complete _ _ _ _).mono htrue

theorem perform?_run (context : Context) (world : World) (task : Task) {m : Matches}
    (hm : m.echo = none) :
    ∃ matched, (context.perform? world task).run m =
      .ok (match context.misfit? world task with
        | none => .ok ()
        | some misfit => .error misfit) matched := by
  rw [perform?]
  cases context.misfit? world task with
  | none =>
    obtain ⟨_, matched, hrun, -⟩ := context.allowed_perform world task m hm
    exact ⟨matched, bind_eq_of_ok hrun⟩
  | some misfit =>
    obtain ⟨_, matched, hrun, -⟩ := allowed_addAll (context.candidatesBefore task) m hm
    have hadded : (ExceptT.lift (addAll (context.candidatesBefore task))).run m =
        .ok (.ok () : Except Misfit Unit) matched := bind_eq_of_ok hrun
    exact ⟨matched, bind_eq_of_ok hadded⟩

/-- A request comes to the start of its target, or to what stands in the way of its task; it is
never refused. -/
theorem complete?_run (context : Context) (world : World) (request : Request) {m : Matches}
    (hm : m.echo = none) :
    ∃ matched, (context.complete? world request).run m =
      .ok (match context.misfit? world (context.target request).task with
        | none => .ok (context.target request).start
        | some misfit => .error misfit) matched := by
  obtain ⟨matched, hrun⟩ := context.perform?_run world (context.target request).task hm
  refine ⟨matched, (bind_eq_of_ok hrun).trans ?_⟩
  cases context.misfit? world (context.target request).task with
  | none => rfl
  | some misfit => rfl

end Context

/-! ## Directories to search -/

namespace SearchList

/-- It can be told in which directories to search: they are given, or the tildes in front of those
of the environment can be written out. -/
def Known (world : World) (given : Option SearchList) : Prop :=
  given.isSome ∨ ∀ directory ∈ Text.pieces ':' (stated world), world.Expands directory

variable {world : World}

theorem add?_of_expands {directory : Text} (h : world.Expands directory) (list : SearchList) :
    add? world list directory = .ok (add world list directory) := by
  rw [add?, World.tildeError?_eq_none_iff.mpr h]

theorem ofList?_eq_ok {directories : List Text}
    (h : ∀ directory ∈ directories, world.Expands directory) :
    ofList? world directories = .ok (ofList world directories) := by
  rw [ofList?, ofList]
  generalize ({} : SearchList) = list
  induction directories generalizing list with
  | nil => rfl
  | cons directory rest ih =>
    rw [List.foldlM_cons, add?_of_expands (h directory List.mem_cons_self)]
    exact ih (fun other hother => h other (List.mem_cons_of_mem _ hother)) _

theorem orEnvironment?_of_known {given : Option SearchList} (h : Known world given) :
    orEnvironment? world given = .ok (orEnvironment world given) := by
  cases given with
  | some list => rfl
  | none => exact ofList?_eq_ok (h.resolve_left Bool.false_ne_true)

end SearchList

/-! ## Nothing in the way -/

/-- What a source asks the system for its words is not refused: the content type of a file, if one
is given whose programs are looked for, and what stands at a path. -/
def Source.Answerable (world : World) (file : Text) : Source → Prop
  | .fileTypes _ _ => file ≠ [] → ∃ type, world.contentType file = .ok type
  | .colorSchemes (some directory) => World.refuses directory = false
  | .helpTopics (some path) none => World.refuses path = false
  | _ => True

/-- Values of the declared types and a system that answers leave the words to be had. -/
theorem Source.misfit?_eq_none {misfits : Misfits} (h : misfits.Fit) {world : World} {file : Text}
    {source : Source} (hanswerable : source.Answerable world file) :
    source.misfit? world misfits file = none := by
  cases source with
  | fileTypes byName byContent =>
    exact FileType.misfit?_eq_none h.fileTypes h.contentHandlers hanswerable
  | colorSchemes directory =>
    rw [misfit?, h.colorsDirectory, Option.none_or]
    cases directory with
    | none => rfl
    | some directory =>
      have hnone : ColorScheme.misfit? directory = none := by
        rw [ColorScheme.misfit?, hanswerable]
        rfl
      cases directory with
      | nil => rfl
      | cons c rest => exact hnone
  | options kinds => exact h.options
  | declared names => exact h.variableNames
  | functions names => exact h.functionNames
  | helpTopics path known =>
    cases path with
    | none => rfl
    | some path =>
      cases known with
      | some topics => rfl
      | none =>
        rw [misfit?, HelpTopic.misfit?, hanswerable]
        rfl
  | _ => rfl

theorem Source.switchMisfit?_eq_none {misfits : Misfits} (h : misfits.Fit) (source : Source) :
    source.switchMisfit? misfits = none := by
  cases source with
  | options kinds => exact h.switches
  | _ => rfl

namespace Settings

variable {settings : Settings} {world : World} {text : Text}

/-- A leading tilde of a text can be written out: there is a home directory, and an account that is
named can be looked for. -/
def Expands (settings : Settings) (world : World) (text : Text) : Prop :=
  Text.startsWith text ['~'] = true →
    (∃ home, settings.homeIn? world = .ok home) ∧ world.accountError? text = none

/-- Only a tilde at the beginning asks for a home directory. -/
theorem homeMisfit?_of_head (h : text.head? ≠ some '~') (settings : Settings) (world : World) :
    settings.homeMisfit? world text = none := by
  have hstart : Text.startsWith text ['~'] = false :=
    Bool.eq_false_iff.mpr (Text.startsWith_singleton_iff.not.mpr h)
  rw [homeMisfit?, hstart]
  rfl

theorem expands_of_head (h : text.head? ≠ some '~') : settings.Expands world text :=
  fun hstart => absurd (Text.startsWith_singleton_iff.mp hstart) h

theorem homeMisfit?_eq_none (h : settings.misfits.Fit) (hexpands : settings.Expands world text) :
    settings.homeMisfit? world text = none := by
  rw [homeMisfit?, h.home]
  cases hstart : Text.startsWith text ['~'] with
  | false => rfl
  | true =>
    obtain ⟨⟨home, hhome⟩, haccount⟩ := hexpands hstart
    simp [hhome, haccount]

end Settings

namespace Context

variable {context : Context} {world : World}

/-- What the words of the vocabulary of a name come from is not refused. -/
def HasWords (context : Context) (world : World) (vocabulary file : Text) : Prop :=
  ∀ found, context.lexicon.get? vocabulary = some found → found.source.Answerable world file

/-- What a task asks the system is not refused, the directories of programs apart. -/
def Answerable (context : Context) (world : World) : Task → Prop
  | .nothing => True
  | .word vocabulary _ file _ => context.HasWords world vocabulary file
  | .option _ => context.HasWords world "options".toList []
  | .path fragment _ _ => context.settings.Expands world fragment
  | .program typed => context.settings.Expands world typed

theorem misfit?_eq_none (h : context.settings.misfits.Fit) {task : Task}
    (hanswerable : context.Answerable world task)
    (hsearch : ∀ typed, task = .program typed → SearchList.Known world context.searchList) :
    context.misfit? world task = none := by
  cases task with
  | nothing => rfl
  | word vocabulary typed file ending =>
    simp only [misfit?, Lexicon.misfit?, Option.bind_eq_none_iff]
    exact fun found hfound => Source.misfit?_eq_none h (hanswerable found hfound)
  | option typed =>
    simp only [misfit?, Option.or_eq_none_iff, Option.bind_eq_none_iff, Option.map_eq_some_iff,
      forall_exists_index, and_imp]
    refine ⟨fun source _ _ _ => source.switchMisfit?_eq_none h, ?_⟩
    rintro source found hfound rfl
    exact Source.misfit?_eq_none h (hanswerable found hfound)
  | path fragment filter directory => exact Settings.homeMisfit?_eq_none h hanswerable
  | program typed =>
    simp only [misfit?, Program.misfit?, SearchList.orEnvironment?_of_known (hsearch typed rfl)]
    rw [Settings.homeMisfit?_eq_none h hanswerable, ite_self]

/-- Programs are looked for by one command only, in its first word. -/
theorem shell_of_program {request : Request} {typed : Text}
    (h : (context.target request).task = .program typed) :
    request.command = .shell ∧ request.atFirst = true := by
  rw [target] at h
  split at h
  · next rule _ =>
    have hwords := ofWords_targetByRule context request rule
    rw [h] at hwords
    cases hwords
  rw [pathTarget] at h
  split at h
  · cases h
  by_cases hshell : request.command = .shell
  · refine ⟨hshell, ?_⟩
    simp only [pathTask, hshell] at h
    split at h
    · cases h
    · next hfirst => simpa using hfirst
  · simp only [pathTask] at h
    -- every other command has a task for paths, for words, or none
    split at h
    all_goals first | contradiction | cases h | (split at h <;> cases h)

end Context

end PaneCompletion
