import PaneCompletion.Proofs.Context.Directory
import PaneCompletion.Proofs.Line.Escape

/-!
# Completing a written beginning

A beginning of a file name can be written into the line as `Escape.shell` writes names, and the name
should then be among what is offered. It is, for every beginning that stays what it is on the way
there (`World.Keeps`, `offers_name_of_beginning`): the word reader gives it back guarded, the walk
finds it behind the guard, and a dot in front of a name changes nothing about where it leads. With
the dot the directory has to be searched before it is read.

Four kinds of beginnings do not stay what they are, though what is special about them has been
written behind a backslash. A quote at the end counts as an open one, whatever stands in front of it
(`offers_nothing_behind_quote`); a tilde at the beginning stands for a home directory; a reference
is replaced by a value with a slash; and behind the guard of a dash every reference is replaced
(`not_offers_name_of_beginning`).

1. written names as lines;
2. beginnings that stay what they are;
3. names that are offered;
4. beginnings that do not.
-/

namespace PaneCompletion

open Token

/-! ## Written names as lines -/

/-- A written name ends in its last character. -/
theorem Escape.getLast?_shell (name : Text) : (shell name).getLast? = name.getLast? := by
  have hchar : ∀ c, (shellChar false c).getLast? = some c := by
    intro c
    rcases shellChar_cases c with h | ⟨h, -⟩ <;> rw [h] <;> rfl
  have hfirst : ∀ c, (shellFirst false c).getLast? = some c := by
    intro c
    unfold shellFirst
    split_ifs with hdash htilde
    · rw [hdash]
      rfl
    · rw [htilde]
      rfl
    · exact hchar c
  cases name with
  | nil => rfl
  | cons c rest =>
    rw [shell, List.getLast?_append, List.getLast?_flatMap, hfirst, List.getLast?_cons]
    simp only [hchar]
    rw [← List.head?_reverse]
    cases rest.reverse <;> rfl

theorem Escape.guarded_of_head {name : Text} (h : name.head? ≠ some '-') : guarded name = name := by
  cases name with
  | nil => rfl
  | cons c rest => exact guarded_cons (fun heq => h (congrArg some heq)) rest

theorem Escape.head?_guarded_ne_tilde {name : Text} (h : name.head? ≠ some '~') :
    (guarded name).head? ≠ some '~' := by
  by_cases hdash : name.head? = some '-'
  · obtain ⟨rest, rfl⟩ : ∃ rest, name = '-' :: rest := List.head?_eq_some_iff.mp hdash
    rw [guarded_dash]
    simp
  · rw [guarded_of_head hdash]
    exact h

theorem Token.endsInSpace_shell_eq_false (name : Text) :
    endsInSpace (Escape.shell name) = false := by
  simpa [endsInSpace] using endsInSpace_shell name []

section Written

variable {name : Text} (hne : name ≠ [])
include hne

theorem parseLine_edit_shell :
    (parseLine ("edit ".toList ++ Escape.shell name)).2 = .ofLine .other (Escape.shell name) := by
  have hedit : ∀ d ∈ "dit".toList, d.isAlphanum = true := by simp
  have hskip := skipSpaces_space_joined_shell (List.cons_ne_nil name [])
    (fun n hn => List.mem_singleton.mp hn ▸ hne)
  have hbody : commandBody ("edit ".toList ++ Escape.shell name) =
      'e' :: "dit".toList ++ ' ' :: Escape.shell name := commandBody_of_isAlpha (by decide) _
  rw [parseLine_eq, argumentText, hbody, commandName_append_space (by decide) hedit,
    List.drop_left]
  exact congrArg (Request.ofLine .other) hskip

theorem argumentStart_shell : argumentStart (Escape.shell name) = 0 :=
  argumentStart_of_word (endsInSpace_shell_eq_false name) (by rw [tokenize_shell hne]; rfl)

theorem inWord_shell : (Request.ofLine .other (Escape.shell name)).inWord = true := by
  simp [Request.inWord, Request.wordCount, Request.ofLine, tokenize_shell hne,
    endsInSpace_shell_eq_false name]

theorem fragment_shell :
    (Request.ofLine .other (Escape.shell name)).fragment = Escape.guarded name := by
  obtain ⟨c, rest, heq, -, hquote⟩ := Escape.shell_eq_cons hne
  have hplain : (Request.ofLine .other (Escape.shell name)).reading = .plain := by
    show readingOf ((Escape.shell name).drop (argumentStart (Escape.shell name))) = .plain
    rw [argumentStart_shell hne, heq]
    exact readingOf_plain (by simpa using hquote)
  rw [Request.fragment, hplain, if_pos (inWord_shell hne)]
  simp [Request.ofLine, tokenize_shell hne]

theorem stopsAtQuote_shell :
    (Request.ofLine .other (Escape.shell name)).stopsAtQuote =
      isQuote (name.getLast hne) := by
  have hlast : (Escape.shell name).getLast? = some (name.getLast hne) := by
    rw [Escape.getLast?_shell, List.getLast?_eq_some_getLast hne]
  rw [Request.stopsAtQuote_of_getLast? hlast, inWord_shell hne, Bool.true_and]

end Written

/-! ## Beginnings that stay what they are -/

/-- A beginning of a name that is neither taken for a home directory nor for an open quote, and from
which no reference makes a path; behind the guard of a dash none makes anything of it. -/
structure World.Keeps (world : World) (beginning : Text) : Prop where
  tilde : beginning.head? ≠ some '~'
  quote : ∀ c, beginning.getLast? = some c → isQuote c = false
  flat : '/' ∉ world.expandVariables beginning
  dash : beginning.head? = some '-' → world.expandVariables beginning = beginning

/-- A beginning that stays what it is is looked for as it is, in the directory of the pane. -/
theorem Browser.split_guarded {world : World} {beginning : Text} (h : world.Keeps beginning)
    (hslash : '/' ∉ beginning) (browser : Browser) :
    ∃ dot, World.IsDot dot ∧
      browser.split world (Escape.guarded beginning) = (dot, beginning) := by
  by_cases hdash : beginning.head? = some '-'
  · obtain ⟨rest, rfl⟩ : ∃ rest, beginning = '-' :: rest := List.head?_eq_some_iff.mp hdash
    have hreach : Text.reach '/' ('.' :: '/' :: '-' :: rest) = 2 := Text.reach_append hslash ['.']
    have hdots : '$' ∉ ['.', '/'] := by decide
    have hparted : world.Parted ('.' :: '/' :: '-' :: rest) := by
      constructor
      · rw [hreach]
        exact fun _ => World.closes_of_not_mem hdots
      · rw [hreach]
        exact h.flat
    refine ⟨['.', '/'], .inr rfl, ?_⟩
    rw [Escape.guarded_dash, split_of_parted hparted (by simp), hreach, if_neg (by decide)]
    exact Prod.ext (World.expandVariables_of_not_mem hdots world) (h.dash hdash)
  · have hreach : Text.reach '/' beginning = 0 := Text.reach_eq_zero_iff.mpr hslash
    have hparted : world.Parted beginning := by
      refine ⟨fun _ => ?_, ?_⟩
      · rw [hreach]
        exact World.closes_of_not_mem (by simp)
      · rw [hreach]
        exact h.flat
    rw [Escape.guarded_of_head hdash]
    exact ⟨['.'], .inl rfl, by rw [split_of_parted hparted h.tilde, if_pos hreach]⟩

/-! ## Names that are offered -/

/-- A name without a slash, of a directory that can be read and searched, is offered for each
beginning of it that stays what it is, with a slash behind it if it leads into a directory. -/
theorem offers_name_of_beginning (context : Context) {world : World} {pane name beginning : Text}
    {children : List (Text × Node)} {node : Node}
    (hcurrent : context.currentDirectory = some pane)
    (hcase : context.settings.ignoreCase = false) (hlist : world.list pane = .ok children)
    (hsearch : world.isSearchable pane = true) (hentry : (name, node) ∈ children)
    (hname : '/' ∉ name) (hbegins : beginning <+: name) (hne : beginning ≠ [])
    (hkeeps : world.Keeps beginning) :
    ∃ start matched,
      (context.complete? world (parseLine ("edit ".toList ++ Escape.shell beginning)).2).run
        context.noMatches = .ok (.ok start) matched ∧
      (if Entry.leadsIn world (Path.joined pane name) node then name ++ ['/'] else name) ∈
        matched.candidates.map (·.text) := by
  have hpane : pane ≠ [] := by
    rintro rfl
    cases hlist
  have hfirst : name ≠ [] := by
    rintro rfl
    exact hne (List.prefix_nil.mp hbegins)
  have hbase : context.pane world = pane := by
    obtain ⟨c, rest, rfl⟩ := List.exists_cons_of_ne_nil hpane
    rw [Context.pane, hcurrent]
    rfl
  have hquote := hkeeps.quote _ (List.getLast?_eq_some_getLast hne)
  have htilde := Escape.head?_guarded_ne_tilde hkeeps.tilde
  obtain ⟨dot, hdot, hsplit⟩ := context.browser.split_guarded hkeeps fun hmem =>
    hname (hbegins.subset hmem)
  have hdirectory : context.browser.directoryOf world (Escape.guarded beginning) none =
      Path.joined pane dot := by
    have hrelative : Path.isAbsolute world.platform dot = false := by
      rcases hdot with rfl | rfl <;> cases world.platform <;> rfl
    rw [Browser.directoryOf, hsplit, Context.resolve_browser, hrelative, hbase]
    rfl
  have hread : world.list (context.browser.directoryOf world (Escape.guarded beginning) none) =
      .ok children := by
    rw [hdirectory]
    exact (World.list_joined_dot_iff hpane hdot).mpr ⟨hlist, hsearch⟩
  obtain ⟨matched, hrun, hcomplete⟩ := context.complete?_other world
    (by rw [stopsAtQuote_shell hne, hquote]) (by rw [fragment_shell hne]; exact htilde)
  rw [fragment_shell hne,
    Browser.complete_of_ok (Browser.isTildeWord_of_head htilde) hread (by decide), hdirectory,
    hsplit] at hcomplete
  rw [parseLine_edit_shell hne]
  refine ⟨_, matched, hrun, (Filling.mem_texts_offer hcomplete).mpr (.inr ?_)⟩
  rw [← Entry.leadsIn_joined_dot world hpane hdot hname hfirst]
  exact Browser.text_mem_candidatesAmong hcase hentry hbegins hne

theorem offers_name_of_beginning_dash :
    let world : World := { disk := ({} : Disk).put "/w/-o $x/f".toList (.file [] false) }
    let context : Context := { lexicon := [], currentDirectory := some "/w".toList }
    ∃ start matched,
      (context.complete? world (parseLine ("edit ".toList ++ Escape.shell "-o $".toList)).2).run
        context.noMatches = .ok (.ok start) matched ∧
      "-o $x/".toList ∈ matched.candidates.map (·.text) := by
  intro world context
  have hlist : world.list "/w".toList = .ok [("-o $x".toList, .directory true)] := rfl
  have hquote : ∀ c, "-o $".toList.getLast? = some c → isQuote c = false := by
    rintro _ ⟨⟩
    rfl
  have hkeeps : world.Keeps "-o $".toList := ⟨by decide, hquote, by decide, fun _ => by decide⟩
  exact offers_name_of_beginning context rfl rfl hlist rfl (List.mem_singleton_self _)
    (by decide) (by decide) (by decide) hkeeps

/-! ## Beginnings that do not -/

/-- Behind a quote at the end nothing is offered, though the quote is written behind a backslash. -/
theorem offers_nothing_behind_quote (context : Context) (world : World) {beginning : Text}
    (hne : beginning ≠ []) (hquote : isQuote (beginning.getLast hne) = true) :
    ∃ start,
      (context.complete? world (parseLine ("edit ".toList ++ Escape.shell beginning)).2).run
        context.noMatches = .ok (.ok start) context.noMatches := by
  rw [parseLine_edit_shell hne]
  have htarget : context.target (.ofLine .other (Escape.shell beginning)) =
      ⟨.nothing, (Request.ofLine .other (Escape.shell beginning)).stopStart⟩ := by
    have hrule : Rule.of? (.ofLine .other (Escape.shell beginning)) = none := rfl
    simp only [Context.target, hrule, Context.pathTarget, stopsAtQuote_shell hne, hquote, if_true]
  obtain ⟨matched, hrun⟩ := context.complete?_run world
    (.ofLine .other (Escape.shell beginning)) (m := context.noMatches) rfl
  rw [htarget] at hrun
  have hperform := (Context.complete?_ok hrun).2
  rw [htarget] at hperform
  cases hperform
  exact ⟨_, hrun⟩

/-- Each of the four names is in the directory, and is not offered for the beginning beside it. -/
theorem not_offers_name_of_beginning :
    let names := ["it's".toList, "~ab".toList, "$Xa".toList, "-$Ya".toList]
    let beginnings := ["it'".toList, "~a".toList, "$X".toList, "-$Y".toList]
    let world : World :=
      { environment := [("X".toList, "/d/e".toList), ("Y".toList, "y".toList)]
        disk := names.foldl (fun disk name => disk.put ("/w/".toList ++ name) (.file [] false)) {} }
    let context : Context :=
      { lexicon := [], settings := { home := some "/h".toList }
        currentDirectory := some "/w".toList }
    world.list "/w".toList = .ok (names.map (·, .file [] false)) ∧
      ∀ pair ∈ names.zip beginnings, pair.2 <+: pair.1 ∧
        ∃ start matched,
          (context.complete? world (parseLine ("edit ".toList ++ Escape.shell pair.2)).2).run
            context.noMatches = .ok (.ok start) matched ∧
          pair.1 ∉ matched.candidates.map (·.text) := by
  intro names beginnings world context
  refine ⟨rfl, ?_⟩
  intro pair hpair
  simp only [names, beginnings, List.zip_cons_cons, List.zip_nil_right, List.mem_cons,
    List.not_mem_nil, or_false] at hpair
  obtain rfl | rfl | rfl | rfl := hpair
  · exact ⟨by decide, _, _, rfl, by decide⟩
  · exact ⟨by decide, _, _, rfl, by decide⟩
  · exact ⟨by decide, _, _, rfl, by decide⟩
  · exact ⟨by decide, _, _, rfl, by decide⟩

end PaneCompletion
