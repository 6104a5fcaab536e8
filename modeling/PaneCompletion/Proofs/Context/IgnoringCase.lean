import PaneCompletion.Proofs.Browse.Inside
import PaneCompletion.Proofs.Context.Vocabulary
import PaneCompletion.Proofs.Text.LowerCase

/-!
# Ignoring case

Case is ignored by comparing lower case with lower case, and the lower case of a word does not
always begin with the lower case of its beginning: a sigma at the end of what is typed is a final
one, and the same sigma in the word is not if a letter follows (`Text.LosesSigma`). That is the only
way in which a word is lost that matches as it stands, and so the only candidates that are lost when
case is no longer regarded are those of such words (`ignoring_case_loses_sigmas`). A slash behind
the name of a directory makes no difference to this.

1. words;
2. entries of a directory;
3. completing under either case rule.
-/

namespace PaneCompletion

/-! ## Words -/

namespace Text

variable {word typed : Text}

theorem nameMatches_true_iff (h : typed <+: word) :
    Entry.nameMatches true word typed = true ↔ ¬LosesSigma typed word :=
  Entry.nameMatches_iff.trans (lower_prefix_iff h)

theorem accepts_ignoreCase_iff (h : typed <+: word) (ignoreCase : Bool) :
    Matching.ignoreCase.accepts ignoreCase word typed = true ↔ ¬LosesSigma typed word :=
  Matching.accepts_iff.trans (lower_prefix_iff h)

end Text

/-! ## Entries of a directory -/

/-- A browser whose settings have a case rule of their own. -/
def Browser.underCase (browser : Browser) (ignoreCase : Bool) : Browser :=
  { browser with settings := { browser.settings with ignoreCase } }

/-- A context whose settings have a case rule of their own. -/
def Context.underCase (context : Context) (ignoreCase : Bool) : Context :=
  { context with settings := { context.settings with ignoreCase } }

theorem Entry.losesSigma_candidate {typed : Text} {filter : EntryFilter} {entry : Entry} :
    Text.LosesSigma typed (entry.candidate filter).text ↔ Text.LosesSigma typed entry.name := by
  rw [candidate]
  split
  · exact Text.losesSigma_append_slash
  · rfl

namespace Browser

variable {browser : Browser} {world : World} {fragment : Text} {filter : EntryFilter}
  {base : Option Text}

/-- Of the candidates with regard to case those stay without it whose name keeps the sigma that was
typed. -/
theorem mem_candidatesAmong_underCase {directory name : Text} {entries : List Entry}
    {candidate : Candidate}
    (h : candidate ∈
      (browser.underCase false).candidatesAmong world directory name filter entries) :
    candidate ∈ (browser.underCase true).candidatesAmong world directory name filter entries ↔
      ¬Text.LosesSigma name candidate.text := by
  constructor
  · intro hmem hloses
    obtain ⟨entry, hentry, rfl⟩ := List.mem_map.mp hmem
    have hoffered : entry.isOffered world true directory name filter = true :=
      (List.mem_filter.mp hentry).2
    rw [Entry.losesSigma_candidate] at hloses
    rw [Entry.isOffered, Bool.and_eq_true, Bool.and_eq_true] at hoffered
    exact (Text.nameMatches_true_iff hloses.begins).mp hoffered.1.2 hloses
  · intro hkeeps
    obtain ⟨entry, hentry, rfl⟩ := List.mem_map.mp h
    obtain ⟨hmem, hoffered⟩ := List.mem_filter.mp hentry
    replace hoffered : entry.isOffered world false directory name filter = true := hoffered
    rw [Entry.losesSigma_candidate] at hkeeps
    refine List.mem_map_of_mem (List.mem_filter.mpr ⟨hmem, ?_⟩)
    show entry.isOffered world true directory name filter = true
    rw [Entry.isOffered, Bool.and_eq_true, Bool.and_eq_true] at hoffered ⊢
    have hbegins : name <+: entry.name := Entry.nameMatches_iff.mp hoffered.1.2
    exact ⟨⟨hoffered.1.1, (Text.nameMatches_true_iff hbegins).mpr hkeeps⟩, hoffered.2⟩

theorem mem_offered_underCase {candidate : Candidate}
    (h : candidate ∈ (browser.underCase false).offered world fragment filter base) :
    candidate ∈ (browser.underCase true).offered world fragment filter base ↔
      ¬(isTildeWord fragment = false ∧
        Text.LosesSigma (browser.split world fragment).2 candidate.text) := by
  cases hword : isTildeWord fragment with
  | true =>
    rw [offered, if_pos hword, List.mem_singleton] at h ⊢
    exact iff_of_true h (by simp)
  | false =>
    rw [eq_self, true_and]
    -- the directory that is read does not depend on the case rule
    cases hlist : world.list (browser.directoryOf world fragment base) with
    | error error =>
      have hread : ∀ ignoreCase, world.list
          ((browser.underCase ignoreCase).directoryOf world fragment base) = .error error :=
        fun _ => hlist
      rw [offered_of_error hword (hread false)] at h
      rw [offered_of_error hword (hread true)]
      obtain rfl := List.mem_singleton.mp h
      exact iff_of_true (List.mem_singleton.mpr rfl) (Text.not_losesSigma_self _)
    | ok children =>
      have hread : ∀ ignoreCase, world.list
          ((browser.underCase ignoreCase).directoryOf world fragment base) = .ok children :=
        fun _ => hlist
      rw [offered_of_list hword (hread false)] at h
      rw [offered_of_list hword (hread true)]
      exact mem_candidatesAmong_underCase h

/-- What completing a path leaves on fresh matches are the texts that are offered for it. -/
theorem exists_complete_fresh (browser : Browser) (world : World) (fragment : Text)
    (filter : EntryFilter) (base : Option Text) (ignoreCase : Bool) :
    ∃ matched, browser.complete world fragment filter base { ignoreCase } = .ok () matched ∧
      ∀ text, text ∈ matched.candidates.map (·.text) ↔
        text ∈ (browser.offered world fragment filter base).map (·.text) := by
  obtain ⟨_, matched, hrun, -⟩ :=
    browser.allowed_complete world fragment filter base { ignoreCase } rfl
  refine ⟨matched, hrun, fun text => ?_⟩
  rw [(browser.adds_complete world fragment filter base _ _ _ hrun).mem_texts_iff text]
  simp [Matches.candidates]

end Browser

/-! ## Completing under either case rule -/

/-- A word that begins with what is typed matches it also when case is ignored, by the rule for file
names and by the one for keywords, unless it loses the sigma at the end of what is typed. So when
case is no longer regarded, a path keeps exactly those of its candidates, and a vocabulary that goes
by the rule for file names exactly those of its words, that do not lose it; what stands for a home
directory was not matched and stays. -/
theorem ignoring_case_loses_sigmas (browser : Browser) (context : Context) (world : World) :
    (∀ word typed : Text, typed <+: word →
      (Entry.nameMatches true word typed = true ↔ ¬Text.LosesSigma typed word) ∧
      ∀ ignoreCase, (Matching.ignoreCase.accepts ignoreCase word typed = true ↔
        ¬Text.LosesSigma typed word)) ∧
    (∀ (fragment : Text) (filter : EntryFilter) (base : Option Text), ∃ regarded ignored,
      (browser.underCase false).complete world fragment filter base { ignoreCase := false } =
        .ok () regarded ∧
      (browser.underCase true).complete world fragment filter base { ignoreCase := true } =
        .ok () ignored ∧
      ∀ text ∈ regarded.candidates.map (·.text), (text ∈ ignored.candidates.map (·.text) ↔
        ¬(Browser.isTildeWord fragment = false ∧
          Text.LosesSigma (browser.split world fragment).2 text))) ∧
    ∀ (vocabulary typed file : Text) (found : Vocabulary),
      context.lexicon.get? vocabulary = some found → found.matching = .fileNames →
      ∀ word ∈ (context.underCase false).matchingWords world vocabulary typed file,
        (word ∈ (context.underCase true).matchingWords world vocabulary typed file ↔
          ¬Text.LosesSigma typed word) := by
  refine ⟨?_, ?_, ?_⟩
  · intro word typed h
    exact ⟨Text.nameMatches_true_iff h, Text.accepts_ignoreCase_iff h⟩
  · intro fragment filter base
    obtain ⟨regarded, hregarded, htexts⟩ :=
      (browser.underCase false).exists_complete_fresh world fragment filter base false
    obtain ⟨ignored, hignored, hothers⟩ :=
      (browser.underCase true).exists_complete_fresh world fragment filter base true
    refine ⟨regarded, ignored, hregarded, hignored, fun text hmem => ?_⟩
    obtain ⟨candidate, hcandidate, rfl⟩ := List.mem_map.mp ((htexts text).mp hmem)
    rw [hothers, ← Browser.mem_offered_underCase hcandidate]
    constructor
    · intro htext
      obtain ⟨other, hother, hsame⟩ := List.mem_map.mp htext
      have heq := Candidate.eq_of_paths (Browser.kind_of_mem_offered hother)
        (Browser.kind_of_mem_offered hcandidate) hsame
      exact heq ▸ hother
    · exact List.mem_map_of_mem
  · intro vocabulary typed file found hfound hmatching word hword
    obtain ⟨other, hother, hwords, haccepts⟩ := Context.mem_matchingWords.mp hword
    obtain rfl : found = other := Option.some.inj (hfound.symm.trans hother)
    have hbegins : typed <+: word := by
      simpa [hmatching, Matching.Accepts, Context.underCase] using haccepts
    rw [← Text.lower_prefix_iff hbegins, Context.mem_matchingWords]
    constructor
    · rintro ⟨again, hagain, -, hlower⟩
      obtain rfl : found = again := Option.some.inj (hfound.symm.trans hagain)
      simpa [hmatching, Matching.Accepts, Context.underCase] using hlower
    · intro hlower
      refine ⟨found, hfound, hwords, ?_⟩
      simpa [hmatching, Matching.Accepts, Context.underCase] using hlower

/-- A name in capitals that ends in a sigma is lost when what follows is an extension. -/
theorem not_ignoring_case_keeps :
    "ΟΔΟΣ".toList <+: "ΟΔΟΣ.txt".toList ∧
      Entry.nameMatches true "ΟΔΟΣ.txt".toList "ΟΔΟΣ".toList = false ∧
      Matching.ignoreCase.accepts false "ΟΔΟΣ.txt".toList "ΟΔΟΣ".toList = false := by
  decide

theorem ignoring_case_loses_sigmas_extension :
    Entry.nameMatches true "ΟΔΟΣ.txt".toList "ΟΔΟ".toList = true ∧
      Entry.nameMatches true "ΟΔΟΣ.txt".toList "ΟΔΟΣ".toList = false := by
  obtain ⟨hwords, -, -⟩ := ignoring_case_loses_sigmas {} { lexicon := [] } {}
  have hkeeps : ¬Text.LosesSigma "ΟΔΟ".toList "ΟΔΟΣ.txt".toList := by
    rintro ⟨rest, -, ⟨front, marks, htext, -⟩, -⟩
    have hmem : 'Σ' ∈ "ΟΔΟ".toList := by
      rw [htext]
      simp
    exact absurd hmem (by decide)
  have hloses : Text.LosesSigma "ΟΔΟΣ".toList "ΟΔΟΣ.txt".toList :=
    ⟨".txt".toList, rfl, ⟨"ΟΔΟ".toList, [], rfl, by simp, by decide⟩, by decide⟩
  refine ⟨(hwords _ _ (by decide)).1.mpr hkeeps, Bool.eq_false_iff.mpr fun hmatches => ?_⟩
  exact (hwords _ _ (by decide)).1.mp hmatches hloses

end PaneCompletion
