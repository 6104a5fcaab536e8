import Mathlib.Data.Finset.Card
import PaneCompletion.Proofs.Line.Program
import PaneCompletion.Proofs.Program.Name

/-!
# Resolving shortened names

The programs that are offered for a name come from one directory after the other. Merged they are
each there once and in order of their keys (`Program.exists_names`), so how many there are, and
whether the name is one of them, is a question about a set of programs and decides what becomes of
the line (`Program.resolve_decides`). It is asked of what is offered, and where that is not what the
directories have, another answer is given than the programs call for
(`Program.not_resolve_decides`).

A line that is written anew has a program and the arguments in it, with one space between them.
Whether it still means the two depends on their texts (`Separable`), and the program is one of the
list only if the name is completed as it is: of a name with a directory, a tilde or a reference in
it, that part has gone from the line (`Program.not_splitProgram_resolve`).

1. the names that are merged;
2. which program is meant;
3. what a resolved line means.
-/

namespace PaneCompletion

/-! ## The names that are merged -/

/-- After merging the cycle begins with the first candidate, or with the echo if there is none. -/
theorem Matches.exists_next_mergeGroups {m : Matches} {echo : Candidate} (h : m.echo = some echo) :
    ∃ m', m.mergeGroups.next =
      .ok ((((arranged m.ignoreCase m.candidates).map (·.text)).head?.getD echo.text), m') := by
  have hentries : m.mergeGroups.entries = arranged m.ignoreCase m.candidates ++ [echo] := by
    have hecho : m.mergeGroups.echo = some echo := h
    rw [entries, candidates_mergeGroups, hecho]
    rfl
  have hfirst : m.mergeGroups.entries[m.mergeGroups.cursor % m.mergeGroups.count]? =
      m.mergeGroups.entries.head? := by
    have hcursor : m.mergeGroups.cursor = 0 := rfl
    rw [hcursor, Nat.zero_mod, List.head?_eq_getElem?]
  rw [next, hfirst, hentries]
  cases arranged m.ignoreCase m.candidates with
  | nil => exact ⟨_, rfl⟩
  | cons first rest => exact ⟨_, rfl⟩

namespace Program

/-- What becomes of a line is decided by the names that were found, each once and in order. -/
theorem resolveAmong_eq {ignoreCase : Bool} {line : Text} {matched : Matches} {echo : Candidate}
    (h : matched.echo = some echo) :
    let names := (Matches.arranged matched.ignoreCase matched.candidates).map (·.text)
    let name := (splitProgram line).1
    resolveAmong ignoreCase line matched =
      if 1 < names.length then
        if names.any (isTyped ignoreCase name) then .ok line else .error (.ambiguous name names)
      else .ok (lineOf (names.head?.getD echo.text) (splitProgram line).2) := by
  intro names name
  obtain ⟨m', hnext⟩ := Matches.exists_next_mergeGroups h
  rw [resolveAmong]
  simp only [Matches.candidates_mergeGroups, hnext, ← lineOf_eq]
  rfl

/-- The programs that are offered for the name of a line, each once and in order of their keys,
decide what becomes of it. -/
theorem exists_names {world : World} {settings : Settings} {given : Option SearchList} {line : Text}
    (hopen : isOpen world line = true)
    (hmisfit : misfit? world settings given (splitProgram line).1 = none) :
    let name := (splitProgram line).1
    let key := fun text => Matches.sortKey settings.ignoreCase ⟨text, .path⟩
    ∃ names : List Text, names.Pairwise (fun a b => key a ≤ key b) ∧ names.Nodup ∧
      (∀ text, text ∈ names ↔ text ∈ (offered world { settings } name
        (SearchList.orEnvironment world given).directories).map (·.text)) ∧
      resolve world settings given line =
        if 1 < names.length then
          if names.any (isTyped settings.ignoreCase name) then .ok line
          else .error (.ambiguous name names)
        else .ok (lineOf (names.head?.getD name) (splitProgram line).2) := by
  intro name key
  obtain ⟨matched, hrun, hecho, hgrown⟩ := exists_complete world settings given name
    settings.ignoreCase
  have hcase : matched.ignoreCase = settings.ignoreCase := hgrown.ignoreCase_eq
  have hkind : ∀ candidate ∈ Matches.arranged matched.ignoreCase matched.candidates,
      candidate.kind = .path := by
    intro candidate hmem
    obtain hold | hnew := hgrown.mem_or_mem candidate (Matches.mem_of_mem_arranged hmem)
    · simp [Matches.candidates] at hold
    · exact kind_of_mem_offered hnew
  refine ⟨(Matches.arranged matched.ignoreCase matched.candidates).map (·.text), ?_,
    Matches.nodup_arranged _ _, fun text => ?_, ?_⟩
  · rw [List.pairwise_map]
    refine (Matches.pairwise_arranged _ _).imp_of_mem fun ha hb hle => ?_
    simpa [key, Matches.sortKey, hkind _ ha, hkind _ hb, hcase] using hle
  · rw [Matches.mem_map_arranged, hgrown.mem_texts_iff]
    exact or_iff_right (by simp [Matches.candidates])
  · have hresolve : resolve world settings given line =
        resolveAmong settings.ignoreCase line matched := by
      rw [resolve, hopen]
      simp only [hmisfit, Bool.not_true, Bool.false_eq_true, if_false]
      rw [hrun]
    rw [hresolve, resolveAmong_eq hecho]

/-- A line that is written anew has the first of the names in it, or its own where there is none. -/
theorem exists_names_of_resolve {world : World} {settings : Settings} {given : Option SearchList}
    {line resolved : Text} (h : resolve world settings given line = .ok resolved)
    (hnew : resolved ≠ line) :
    ∃ names : List Text, (∀ text ∈ names, text ∈ (offered world { settings } (splitProgram line).1
        (SearchList.orEnvironment world given).directories).map (·.text)) ∧
      resolved = lineOf (names.head?.getD (splitProgram line).1) (splitProgram line).2 := by
  have hopen : isOpen world line = true := by
    by_contra hclosed
    rw [resolve, if_pos (by simpa using hclosed)] at h
    exact hnew (Except.ok.inj h).symm
  have hmisfit : misfit? world settings given (splitProgram line).1 = none := by
    rw [resolve, hopen] at h
    cases hmisfit : misfit? world settings given (splitProgram line).1 with
    | none => rfl
    | some reason => simp [hmisfit] at h
  obtain ⟨names, -, -, hoffered, hresolve⟩ := exists_names hopen hmisfit
  rw [hresolve] at h
  split_ifs at h
  · exact absurd (Except.ok.inj h).symm hnew
  · exact ⟨names, fun text => (hoffered text).mp, (Except.ok.inj h).symm⟩

/-! ## Which program is meant -/

theorem one_lt_length_iff {programs : Set Text} {names : List Text} (hnodup : names.Nodup)
    (hmem : ∀ name, name ∈ names ↔ name ∈ programs) :
    1 < names.length ↔ programs.Nontrivial := by
  have hset : programs = names.toFinset := by
    ext name
    rw [← hmem, Finset.mem_coe, List.mem_toFinset]
  rw [← List.toFinset_card_of_nodup hnodup, Finset.one_lt_card_iff_nontrivial, hset]

/-- Of the programs in the directories that begin with a name, a single one takes its place in the
line, and the name stays where there is none. Of several the line stays as it is if one of them is
the name, and is refused otherwise. The directories can be read as completing a name reads them, and
none is without a name. -/
theorem resolve_decides {world : World} {list : SearchList} (settings : Settings)
    (given : Option SearchList) (line : Text) (hposix : world.platform = .posix)
    (hdisk : world.disk.Proper) (hlist : SearchList.orEnvironment? world given = .ok list)
    (hreadable : list.Readable world) (hnamed : [] ∉ list.directories)
    (hslash : '/' ∉ (splitProgram line).1) (hdollar : '$' ∉ (splitProgram line).1)
    (htilde : (splitProgram line).1.head? ≠ some '~') :
    let name := (splitProgram line).1
    let arguments := (splitProgram line).2
    let key := fun text => Matches.sortKey settings.ignoreCase ⟨text, .path⟩
    let programs := {program | '/' ∉ program ∧
      (∃ directory ∈ list.directories, world.isExecutable (Path.joined directory program) = true) ∧
      Entry.Begins settings.ignoreCase name program ∧
      (name = [] → program.head? ≠ some '.')}
    ∃ names : List Text, names.Pairwise (fun a b => key a ≤ key b) ∧ names.Nodup ∧
      (∀ program, program ∈ names ↔ program ∈ programs) ∧
      (∀ error, resolve world settings given line = .error error ↔
        (programs.Nontrivial ∧
          ∀ program ∈ programs, isTyped settings.ignoreCase name program = false) ∧
        error = .ambiguous name names) ∧
      (programs.Nontrivial →
        (∃ program ∈ programs, isTyped settings.ignoreCase name program = true) →
          resolve world settings given line = .ok line) ∧
      (∀ program, programs = {program} →
        resolve world settings given line = .ok (lineOf program arguments)) ∧
      (programs = ∅ → resolve world settings given line = .ok (lineOf name arguments)) := by
  intro name arguments key programs
  have hopen : isOpen world line = true := by
    simp [isOpen, hposix, Path.isAbsolute, Text.startsWith_of_not_mem hslash]
  obtain ⟨names, hsorted, hnodup, hoffered, hresolve⟩ :=
    exists_names hopen (misfit?_eq_none settings hlist htilde)
  have hmem : ∀ program, program ∈ names ↔ program ∈ programs := by
    intro program
    rw [hoffered, SearchList.orEnvironment?_ok hlist, mem_texts_offered_iff hdisk hreadable
      (Browser.stays_of_plain hslash hdollar htilde _ world) (Browser.isTildeWord_of_head htilde),
      offers_iff hposix hdisk hreadable hnamed]
    exact and_congr_right fun hsingle =>
      and_congr_left' (SearchList.isSome_find?_iff hposix hsingle)
  have hseveral := one_lt_length_iff hnodup hmem
  have htyped : names.any (isTyped settings.ignoreCase name) = true ↔
      ∃ program ∈ programs, isTyped settings.ignoreCase name program = true := by
    simp only [List.any_eq_true, hmem]
  have hnone : (∀ program ∈ programs, isTyped settings.ignoreCase name program = false) ↔
      ¬names.any (isTyped settings.ignoreCase name) = true := by
    rw [htyped]
    simp
  refine ⟨names, hsorted, hnodup, hmem, fun error => ?_, fun hmany hone => ?_, ?_, fun hempty => ?_⟩
  · rw [hresolve, ← hseveral, hnone]
    split_ifs with hmany hone
    · exact iff_of_false (by simp) fun h => h.1.2 hone
    · exact ⟨fun h => ⟨⟨hmany, hone⟩, (Except.error.inj h).symm⟩, fun h => congrArg _ h.2.symm⟩
    · exact iff_of_false (by simp) fun h => hmany h.1.1
  · rw [hresolve, if_pos (hseveral.mpr hmany), if_pos (htyped.mpr hone)]
  · intro program hsingle
    have hnames : names = [program] := by
      have hsame := (List.perm_ext_iff_of_nodup hnodup (List.nodup_singleton program)).mpr
      exact List.perm_singleton.mp (hsame fun other => by rw [hmem, hsingle]; simp)
    rw [hresolve, hnames]
    rfl
  · have hnames : names = [] := List.eq_nil_iff_forall_not_mem.mpr (by simp [hmem, hempty])
    rw [hresolve, hnames]
    rfl

theorem resolve_decides_typed :
    let disk := (({} : Disk).put "/b/vim".toList (.file [] true)).put "/c/vimdiff".toList
      (.link "../b/vim".toList)
    let world : World := { disk }
    let list : SearchList := ⟨["/c".toList, "/d".toList, "/b".toList]⟩
    resolve world {} (some list) "vim x".toList = .ok "vim x".toList := by
  intro disk world list
  have hdisk : world.disk.Proper := (Disk.proper_empty.put (by decide) _).put (by decide) _
  obtain ⟨-, -, -, -, -, hstays, -⟩ := resolve_decides {} (some list) "vim x".toList rfl hdisk rfl
    (by decide) (by decide) (by decide) (by decide) (by decide)
  refine hstays ⟨"vim".toList, ?_, "vimdiff".toList, ?_, by decide⟩ ⟨"vim".toList, ?_, by decide⟩
  · exact ⟨by decide, ⟨"/b".toList, by decide, rfl⟩, by decide, by decide⟩
  · exact ⟨by decide, ⟨"/c".toList, by decide, rfl⟩, by decide, by decide⟩
  · exact ⟨by decide, ⟨"/b".toList, by decide, rfl⟩, by decide, by decide⟩

/-- Lines that stay though one program alone begins with the name in them: it is behind a tilde's
empty directory, or another directory can be read and not searched. -/
theorem not_resolve_decides :
    (let world : World :=
      { environment := [("HOME".toList, "//.".toList)], workingDirectory := "/w".toList
        disk := ({} : Disk).put "/w/tool".toList (.file [] true) }
    let list := SearchList.ofList world ["~".toList]
    list.directories = [[]] ∧ world.isExecutable (Path.joined [] "tool".toList) = true ∧
      resolve world {} (some list) "to x".toList = .ok "to x".toList) ∧
    let disk := (({} : Disk).put "/d".toList (.directory true false)).put "/b/tool".toList
      (.file [] true)
    let world : World := { disk }
    let list : SearchList := ⟨["/d".toList, "/b".toList]⟩
    (∀ directory ∈ list.directories, (world.list directory).isOk = true) ∧
      (world.disk.children ["b".toList]).map (·.1) = ["tool".toList] ∧
      world.isExecutable (Path.joined "/b".toList "tool".toList) = true ∧
      resolve world {} (some list) "to x".toList = .ok "to x".toList := by
  decide +kernel

/-! ## What a resolved line means -/

/-- A resolved line is the line, or a program and the arguments with one space between them. The
program is the name or one that is found, if the name is completed as it is. The line is taken apart
into these again exactly where one space is enough, or where it is the line; for the name itself one
space is enough unless it was quoted. -/
theorem splitProgram_resolve {world : World} {settings : Settings} {given : Option SearchList}
    {line resolved : Text} (hdisk : world.disk.Proper)
    (h : resolve world settings given line = .ok resolved) :
    let name := (splitProgram line).1
    let arguments := (splitProgram line).2
    ∃ program, (resolved = line ∧ program = name ∨ resolved = lineOf program arguments) ∧
      (({ settings } : Browser).Stays world name → program = name ∨
        ∃ directory ∈ (SearchList.orEnvironment world given).directories,
          world.isExecutable (Path.joined directory program) = true) ∧
      (splitProgram resolved = (program, arguments) ↔
        resolved = line ∨ Separable program arguments) ∧
      (¬IsQuoted line → program = name → Separable program arguments) := by
  intro name arguments
  have hname : ∀ program, ¬IsQuoted line → program = name → Separable program arguments := by
    rintro program hquoted rfl
    exact separable_splitProgram hquoted
  by_cases hsame : resolved = line
  · have hsplit : splitProgram resolved = (name, arguments) := by rw [hsame]
    exact ⟨name, .inl ⟨hsame, rfl⟩, fun _ => .inl rfl, iff_of_true hsplit (.inl hsame), hname _⟩
  obtain ⟨names, hoffered, hnew⟩ := exists_names_of_resolve h hsame
  refine ⟨names.head?.getD name, .inr hnew, fun hstays => ?_, ?_, hname _⟩
  · cases names with
    | nil => exact .inl rfl
    | cons first rest =>
      obtain ⟨directory, hmem, hdirectory, htext⟩ :=
        mem_texts_offered.mp (hoffered first List.mem_cons_self)
      have hne := World.ne_nil_of_isDirectory hdirectory
      exact (hstays.eq_or_isExecutable hdisk hne htext).imp_right fun hexecutable =>
        ⟨directory, hmem, hexecutable⟩
  · rw [or_iff_right hsame, hnew]
    exact splitProgram_lineOf_iff (head?_arguments line)

theorem splitProgram_resolve_shortened :
    let world : World := { disk := ({} : Disk).put "/b/vim".toList (.file [] true) }
    resolve world {} (some ⟨["/b".toList]⟩) "vi  x y".toList = .ok "vim x y".toList ∧
      splitProgram "vim x y".toList = ("vim".toList, "x y".toList) := by
  intro world
  have hdisk : world.disk.Proper := Disk.proper_empty.put (by decide) _
  have hresolve : resolve world {} (some ⟨["/b".toList]⟩) "vi  x y".toList =
      .ok "vim x y".toList := by decide +kernel
  obtain ⟨program, hline, -, hsplit, -⟩ := splitProgram_resolve hdisk hresolve
  obtain ⟨hsame, -⟩ | hline := hline
  · exact absurd hsame (by decide)
  have hprogram : program = "vim".toList :=
    List.append_cancel_right (hline.symm.trans (by rfl))
  refine ⟨hresolve, ?_⟩
  rw [hprogram] at hsplit
  exact hsplit.mpr (.inr ⟨by decide, by decide, by simp⟩)

/-- Lines that mean something else once they are resolved. -/
theorem not_splitProgram_resolve :
    let world : World :=
      { environment := [("X".toList, "/d/v".toList)]
        disk := ["/bin/my tool", "/bin/sub/tool", "/d/vi"].foldl
          (fun disk path => disk.put path.toList (.file [] true)) {} }
    let settings : Settings := { home := some "/h".toList }
    let list : SearchList := ⟨["/bin".toList]⟩
    ∀ pair ∈ [("\"a b\" c", "a b c"), ("my x", "my tool x"), ("sub/to x", "tool x"),
        ("$X x", "vi x"), ("~ x", "/h/ x")],
      let line := pair.1.toList
      let resolved := pair.2.toList
      resolve world settings (some list) line = .ok resolved ∧
        ¬((splitProgram resolved).2 = (splitProgram line).2 ∧
          ((splitProgram resolved).1 = (splitProgram line).1 ∨
            ∃ directory ∈ list.directories,
              world.isExecutable (Path.joined directory (splitProgram resolved).1) = true)) := by
  decide +kernel

end Program

end PaneCompletion
