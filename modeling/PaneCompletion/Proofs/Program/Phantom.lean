import PaneCompletion.Proofs.Program.Name

/-!
# Candidates that are no programs

Names of programs are completed by the walk that completes paths, and the walk has three answers
that are no programs of the directories it is sent to. Where a directory cannot be read it answers
with the typed text; a tilde and a name are answered with the home directory they stand for; and a
reference whose value has a slash in it leads into another directory, the programs of which are
answered. The second and third have nothing to do with the search list at all.

So what is offered is exact in each of the three cases (`Program.complete_offers_genuine_iff`):
without a tilde, and without references that bring in a slash, all candidates are programs if and
only if the directories of the list can be read with a dot behind their paths, or the typed text
happens to be a program.

1. programs that a list runs;
2. what is offered for each kind of text;
3. candidates that are programs.
-/

namespace PaneCompletion

/-! ## Programs that a list runs -/

namespace SearchList

/-- A name of an executable file in a directory of the list, whether or not the directory can be
read. -/
def Runs (world : World) (list : SearchList) (name : Text) : Prop :=
  '/' ∉ name ∧ ∃ directory ∈ list.directories, world.isDirectory directory = true ∧
    world.isExecutable (Path.joined directory name) = true

instance (world : World) (list : SearchList) (name : Text) : Decidable (list.Runs world name) :=
  inferInstanceAs (Decidable (_ ∧ _))

/-- Texts that are names of programs and begin with a typed text. -/
def Genuine (world : World) (list : SearchList) (ignoreCase : Bool) (typed : Text)
    (texts : List Text) : Prop :=
  ∀ text ∈ texts, list.Runs world text ∧ Entry.Begins ignoreCase typed text

theorem runs_of_onOffer {world : World} {list : SearchList} {ignoreCase : Bool}
    {directory name text : Text} {children : List (Text × Node)} (hdisk : world.disk.Proper)
    (hmem : directory ∈ list.directories) (hthere : world.isDirectory directory = true)
    (hlist : world.list (Path.joined directory ['.']) = .ok children)
    (h : Entry.OnOffer world ignoreCase (Path.joined directory ['.']) name .executables children
      text) :
    list.Runs world text := by
  have hne := World.ne_nil_of_isDirectory hthere
  exact ⟨(World.no_slash_of_there hdisk hlist h.there).1, directory, hmem, hthere,
    ((Entry.onOffer_dot_iff hdisk hlist hne).mp h).admitted⟩

end SearchList

theorem Entry.begins_refl (ignoreCase : Bool) (typed : Text) : Begins ignoreCase typed typed := by
  unfold Begins
  split
  · exact List.prefix_rfl
  · exact List.prefix_rfl

namespace Program

variable {world : World} {browser : Browser} {list : SearchList} {typed text : Text}

/-! ## What is offered for each kind of text -/

/-- Each directory that is there gives what completes the name that the text looks for from it. -/
theorem mem_texts_offered_of_word {directories : List Text} (hdisk : world.disk.Proper)
    (hword : Browser.isTildeWord typed = false) :
    text ∈ (offered world browser typed directories).map (·.text) ↔
      ∃ directory ∈ directories, world.isDirectory directory = true ∧ ∃ place name,
        browser.Seeks world (some directory) typed place name ∧
          Entry.Completes world browser.settings.ignoreCase (browser.readAt world typed place)
            name text := by
  rw [mem_texts_offered]
  refine exists_congr fun directory => and_congr_right fun _ => and_congr_right fun _ => ?_
  constructor
  · intro htext
    obtain ⟨place, name, hseeks⟩ := browser.exists_seeks world (some directory) typed
    exact ⟨place, name, hseeks, (hseeks.mem_texts_offered hdisk hword).mp htext⟩
  · rintro ⟨place, name, hseeks, hcompletes⟩
    exact (hseeks.mem_texts_offered hdisk hword).mpr hcompletes

/-- For a text that is completed as it is, only programs are offered if the directories can be read
with a dot behind their paths, or if the text is a program itself. -/
theorem genuine_offered_iff (hdisk : world.disk.Proper) (hstays : browser.Stays world typed)
    (hword : Browser.isTildeWord typed = false) :
    list.Genuine world browser.settings.ignoreCase typed
        ((offered world browser typed list.directories).map (·.text)) ↔
      list.Readable world ∨ list.Runs world typed := by
  have hoffered : ∀ directory, world.isDirectory directory = true → ∀ text,
      text ∈ (browser.offered world typed .executables (some directory)).map (·.text) ↔
        Entry.Completes world browser.settings.ignoreCase (Path.joined directory ['.']) typed
          text := by
    intro directory hthere text
    have hseeks := hstays.seeks (World.ne_nil_of_isDirectory hthere)
    rw [hseeks.mem_texts_offered hdisk hword, hstays.readAt]
  constructor
  · intro hgenuine
    by_cases hreadable : list.Readable world
    · exact .inl hreadable
    · rw [SearchList.Readable] at hreadable
      push Not at hreadable
      obtain ⟨directory, hmem, hthere, hunread⟩ := hreadable
      cases hlist : world.list (Path.joined directory ['.']) with
      | ok children => exact absurd hlist (hunread children)
      | error error =>
        have htyped : Entry.Completes world browser.settings.ignoreCase
            (Path.joined directory ['.']) typed typed := by
          rw [Entry.Completes, hlist]
        have hmem' := mem_texts_offered.mpr
          ⟨directory, hmem, hthere, (hoffered directory hthere typed).mpr htyped⟩
        exact .inr (hgenuine typed hmem').1
  · intro hruns text htext
    obtain ⟨directory, hmem, hthere, htext⟩ := mem_texts_offered.mp htext
    rw [hoffered directory hthere, Entry.Completes] at htext
    cases hlist : world.list (Path.joined directory ['.']) with
    | ok children =>
      rw [hlist] at htext
      exact ⟨SearchList.runs_of_onOffer hdisk hmem hthere hlist htext, htext.begins⟩
    | error error =>
      rw [hlist] at htext
      obtain rfl : text = typed := htext
      refine ⟨hruns.resolve_left fun hreadable => ?_, Entry.begins_refl _ _⟩
      obtain ⟨children, hchildren⟩ := hreadable directory hmem hthere
      cases hlist.symm.trans hchildren

/-- For a tilde and a name the text they stand for is offered by each directory that is there, and
is no program unless they stand for themselves. -/
theorem genuine_offered_tilde_iff (hword : Browser.isTildeWord typed = true) :
    list.Genuine world browser.settings.ignoreCase typed
        ((offered world browser typed list.directories).map (·.text)) ↔
      (∀ directory ∈ list.directories, world.isDirectory directory = false) ∨
        world.expandTilde (browser.settings.homeIn world) typed = typed ∧
          list.Runs world typed := by
  have hoffered : ∀ directory text,
      text ∈ (browser.offered world typed .executables (some directory)).map (·.text) ↔
        text = (browser.homeCandidate world typed).text := by
    intro directory text
    rw [Browser.offered, if_pos hword]
    exact List.mem_singleton
  constructor
  · intro hgenuine
    by_cases hnone : ∀ directory ∈ list.directories, world.isDirectory directory = false
    · exact .inl hnone
    · push Not at hnone
      obtain ⟨directory, hmem, hthere⟩ := hnone
      have hmem' := mem_texts_offered.mpr ⟨directory, hmem, by simpa using hthere,
        (hoffered directory _).mpr rfl⟩
      have hruns := (hgenuine _ hmem').1
      rw [Browser.homeCandidate] at hruns
      split at hruns
      · exact absurd hruns.1 (by simp)
      · next hsame =>
        rw [not_ne_iff] at hsame
        rw [hsame] at hruns
        exact .inr ⟨hsame, hruns⟩
  · intro h text htext
    obtain ⟨directory, hmem, hthere, htext⟩ := mem_texts_offered.mp htext
    obtain hnone | ⟨hsame, hruns⟩ := h
    · rw [hnone directory hmem] at hthere
      cases hthere
    · rw [hoffered, Browser.homeCandidate, if_neg (not_ne_iff.mpr hsame)] at htext
      obtain rfl : text = typed := htext.trans hsame
      exact ⟨hruns, Entry.begins_refl _ _⟩

/-! ## Candidates that are programs -/

/-- What is offered for a text without a slash, and when all of it is programs of the list. -/
theorem complete_offers_genuine_iff {world : World} {list : SearchList} (settings : Settings)
    (given : Option SearchList) {typed : Text} (hdisk : world.disk.Proper)
    (hlist : SearchList.orEnvironment? world given = .ok list) (hslash : '/' ∉ typed) :
    (settings.homeMisfit? world typed = none → misfit? world settings given typed = none) ∧
      ∀ ignoreCase, ∃ matched, complete world settings given typed { ignoreCase } =
          .ok () matched ∧
        matched.echo = some ⟨typed, .path⟩ ∧
        let offered := matched.candidates.map (·.text)
        let genuine := list.Genuine world settings.ignoreCase typed offered
        (typed.head? ≠ some '~' →
          (∀ text, text ∈ offered ↔ ∃ directory ∈ list.directories,
            world.isDirectory directory = true ∧ ∃ place name,
              ({ settings } : Browser).Seeks world (some directory) typed place name ∧
                Entry.Completes world settings.ignoreCase
                  (({ settings } : Browser).readAt world typed place) name text) ∧
          ('/' ∉ world.expandVariables typed →
            (genuine ↔ list.Readable world ∨ list.Runs world typed))) ∧
        (typed.head? = some '~' →
          (genuine ↔ (∀ directory ∈ list.directories, world.isDirectory directory = false) ∨
            world.expandTilde (settings.homeIn world) typed = typed ∧
              list.Runs world typed)) := by
  constructor
  · intro hhome
    rw [misfit?, hlist]
    simp only [hhome, ite_self]
  intro ignoreCase
  obtain ⟨matched, hrun, hecho, hgrown⟩ := exists_complete world settings given typed ignoreCase
  rw [SearchList.orEnvironment?_ok hlist] at hgrown
  have hoffered : ∀ text, text ∈ matched.candidates.map (·.text) ↔
      text ∈ (offered world { settings } typed list.directories).map (·.text) := by
    intro text
    rw [hgrown.mem_texts_iff]
    exact or_iff_right (by simp [Matches.candidates])
  refine ⟨matched, hrun, hecho, ?_⟩
  intro offered genuine
  have hgenuine : genuine ↔ list.Genuine world settings.ignoreCase typed
      ((Program.offered world { settings } typed list.directories).map (·.text)) :=
    forall_congr' fun text => imp_congr_left (hoffered text)
  constructor
  · intro htilde
    have hword := Browser.isTildeWord_of_head htilde
    refine ⟨fun text => (hoffered text).trans (mem_texts_offered_of_word hdisk hword), ?_⟩
    intro hflat
    have hstays : ({ settings } : Browser).Stays world typed :=
      ⟨World.expandTilde_of_head htilde world _, hflat⟩
    exact hgenuine.trans (genuine_offered_iff hdisk hstays hword)
  · intro htilde
    have hword : Browser.isTildeWord typed = true := by
      rw [← Bool.not_eq_false, Browser.isTildeWord_eq_false_iff]
      exact fun h => hslash (h htilde)
    exact hgenuine.trans (genuine_offered_tilde_iff hword)

theorem complete_offers_genuine_iff_unread :
    let disk := ((({} : Disk).put "/u".toList (.directory false)).put "/u/vi".toList
      (.file [] true)).put "/b/vim".toList (.file [] true)
    let world : World := { disk }
    let list : SearchList := ⟨["/u".toList, "/b".toList, "/c".toList]⟩
    ¬ list.Readable world ∧
      ∃ matched, complete world {} (some list) "vi".toList {} = .ok () matched ∧
        list.Genuine world false "vi".toList (matched.candidates.map (·.text)) ∧
        "vi".toList ∈ matched.candidates.map (·.text) := by
  intro disk world list
  have hdisk : world.disk.Proper :=
    ((Disk.proper_empty.put (by decide) _).put (by decide) _).put (by decide) _
  have hstays : ({} : Browser).Stays world "vi".toList :=
    Browser.stays_of_plain (by decide) (by decide) (by decide) _ world
  obtain ⟨-, hcomplete⟩ :=
    complete_offers_genuine_iff {} (some list) hdisk rfl (by decide : '/' ∉ "vi".toList)
  obtain ⟨matched, hrun, -, hword, -⟩ := hcomplete false
  obtain ⟨hoffered, hgenuine⟩ := hword (by decide)
  refine ⟨by decide, matched, hrun, (hgenuine (by decide)).mpr (.inr (by decide)), ?_⟩
  exact (hoffered _).mpr ⟨"/u".toList, by decide, rfl, _, _, hstays.seeks (by decide), rfl⟩

/-- Candidates that are no programs: the text typed in a directory that cannot be read, the home
directory, and a program of a directory that is not in the list. -/
theorem not_complete_offers_genuine :
    (let disk := (({} : Disk).put "/u".toList (.directory false)).put "/u/tool".toList
      (.file [] true)
    let world : World := { disk }
    let list : SearchList := ⟨["/u".toList]⟩
    complete world {} (some list) "to".toList {} =
        .ok () { groups := [[⟨"to".toList, .path⟩]], echo := some ⟨"to".toList, .path⟩ } ∧
      ¬ list.Runs world "to".toList) ∧
    (let world : World := { disk := ({} : Disk).put "/b".toList (.directory true) }
    let list : SearchList := ⟨["/b".toList]⟩
    complete world { home := some "/h".toList } (some list) "~".toList {} =
        .ok () { groups := [[⟨"/h/".toList, .path⟩]], echo := some ⟨"~".toList, .path⟩ } ∧
      ¬ list.Runs world "/h/".toList) ∧
    let disk := (({} : Disk).put "/b".toList (.directory true)).put "/d/vi".toList (.file [] true)
    let world : World := { environment := [("X".toList, "/d/v".toList)], disk }
    let list : SearchList := ⟨["/b".toList]⟩
    complete world {} (some list) "$X".toList {} =
        .ok () { groups := [[⟨"vi".toList, .path⟩]], echo := some ⟨"$X".toList, .path⟩ } ∧
      ¬ list.Runs world "vi".toList := by
  refine ⟨⟨?_, by decide⟩, ⟨?_, by decide⟩, ?_, by decide⟩
  all_goals decide +kernel

end Program

end PaneCompletion
