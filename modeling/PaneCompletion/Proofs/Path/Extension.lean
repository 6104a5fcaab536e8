import PaneCompletion.Path.Extension
import PaneCompletion.Proofs.Text.Parts

/-!
# Roots and extensions of names

Which dot begins the extension is a matter of the base name: a slash hides every dot in front of it,
and the dot that opens the name does not count, whether a slash stands before it or nothing does
(`extensionDot?_append`, `extensionDot?_eq_none`). So what is split off can be said of names and
without offsets (`SplitsInto`): a name is split at its last dot, or at the dot before that where the
two enclose a `tar`, or not at all.

A directory stays in front of the root and changes nothing else (`splitExtension_append`). The
search is made again on the shortened root, which is no whole path any more. So the lemmas are about
a name behind a text that is empty or ends in a slash, and the name on its own is the case of the
empty text.

1. the dot of an extension;
2. what a name is split into;
3. names in a directory.
-/

namespace PaneCompletion.Path

open Text (EmptyOrEndsIn reach lastIndex?)

variable {front : Text}

/-! ## The dot of an extension -/

theorem exists_dot_or_not_mem (name : Text) :
    '.' ∉ name.tail ∨
      ∃ root extension, name = root ++ '.' :: extension ∧ root ≠ [] ∧ '.' ∉ extension := by
  cases name with
  | nil => exact .inl List.not_mem_nil
  | cons c rest =>
    cases hlast : lastIndex? '.' rest with
    | none => exact .inl (Text.lastIndex?_eq_none_iff.mp hlast)
    | some dot =>
      obtain ⟨more, extension, rfl, -, hextension⟩ := Text.exists_of_lastIndex? hlast
      exact .inr ⟨c :: more, extension, rfl, List.cons_ne_nil _ _, hextension⟩

/-- Dots of the directory and a dot that opens the name begin no extension. -/
theorem extensionDot?_eq_none (hfront : EmptyOrEndsIn '/' front) {name : Text}
    (hslash : '/' ∉ name) (hname : '.' ∉ name.tail) : extensionDot? (front ++ name) = none := by
  have hle : ∀ dot, lastIndex? '.' (front ++ name) = some dot → dot ≤ front.length := by
    intro dot hdot
    by_cases hmem : '.' ∈ name
    · obtain ⟨rest, rfl⟩ : ∃ rest, name = '.' :: rest := by
        cases name with
        | nil => cases hmem
        | cons c rest => exact ⟨rest, by rw [(List.mem_cons.mp hmem).resolve_right hname]⟩
      have hrest : '.' ∉ rest := hname
      rw [Text.lastIndex?_append hrest] at hdot
      exact (Option.some.inj hdot).ge
    · rw [Text.lastIndex?_append_of_not_mem hmem] at hdot
      exact (Text.lastIndex?_lt hdot).le
  rw [extensionDot?, Text.reach_append_of_ends hfront hslash]
  cases hlast : lastIndex? '.' (front ++ name) with
  | none => rfl
  | some dot => exact if_pos (hle dot hlast)

/-- The last dot of the name begins the extension where something of the name stands before it. -/
theorem extensionDot?_append (hfront : EmptyOrEndsIn '/' front) {root extension : Text}
    (hslash : '/' ∉ root ++ '.' :: extension) (hroot : root ≠ []) (hextension : '.' ∉ extension) :
    extensionDot? (front ++ (root ++ '.' :: extension)) = some (front ++ root).length := by
  have hlast : lastIndex? '.' (front ++ (root ++ '.' :: extension)) =
      some (front ++ root).length := by
    rw [← List.append_assoc, Text.lastIndex?_append hextension]
  have hlt : front.length < (front ++ root).length := by
    rw [List.length_append]
    exact Nat.lt_add_of_pos_right (List.length_pos_iff.mpr hroot)
  rw [extensionDot?, Text.reach_append_of_ends hfront hslash, hlast]
  exact if_neg hlt.not_ge

/-! ## What a name is split into -/

/-- The end of a name is a `tar` that belongs to the extension behind it. -/
def EndsInTar (os : Platform) (name : Text) : Prop :=
  ∃ stem tar, name = stem ++ '.' :: tar ∧ stem ≠ [] ∧ '.' ∉ tar ∧
    os.same tar ['t', 'a', 'r'] = true

/-- What a name falls into: its root and its extension. -/
inductive SplitsInto (os : Platform) : Text → Text → Text → Prop
  /-- No dot stands behind the first character. -/
  | whole {name : Text} : '.' ∉ name.tail → SplitsInto os name name []
  /-- The last dot begins the extension. -/
  | last {root extension : Text} : root ≠ [] → '.' ∉ extension → ¬EndsInTar os root →
      SplitsInto os (root ++ '.' :: extension) root extension
  /-- The dot before the last one begins the extension. -/
  | tar {root tar rest : Text} : root ≠ [] → '.' ∉ tar → os.same tar ['t', 'a', 'r'] = true →
      '.' ∉ rest → SplitsInto os (root ++ '.' :: (tar ++ '.' :: rest)) root (tar ++ '.' :: rest)

theorem exists_splitsInto (os : Platform) (name : Text) :
    ∃ root extension, SplitsInto os name root extension := by
  obtain hname | ⟨root, extension, rfl, hroot, hextension⟩ := exists_dot_or_not_mem name
  · exact ⟨name, [], .whole hname⟩
  · by_cases htar : EndsInTar os root
    · obtain ⟨stem, tar, rfl, hstem, htar, hsame⟩ := htar
      rw [List.append_assoc]
      exact ⟨stem, _, .tar hstem htar hsame hextension⟩
    · exact ⟨root, extension, .last hroot hextension htar⟩

/-- Nothing of the name is lost but the dot, which opens no name. -/
theorem SplitsInto.name_eq {os : Platform} {name root extension : Text}
    (h : SplitsInto os name root extension) :
    name = root ∧ extension = [] ∨ name = root ++ '.' :: extension ∧ root ≠ [] := by
  cases h with
  | whole => exact .inl ⟨rfl, rfl⟩
  | last hroot => exact .inr ⟨rfl, hroot⟩
  | tar hroot => exact .inr ⟨rfl, hroot⟩

/-! ## Names in a directory -/

/-- What the last dot leaves is searched again for one in front of a `tar`. -/
theorem splitExtension_of_dot (os : Platform) {root extension : Text}
    (hdot : extensionDot? (root ++ '.' :: extension) = some root.length) :
    splitExtension os (root ++ '.' :: extension) =
      match extensionDot? root with
      | none => (root, extension)
      | some inner =>
        if os.same (root.drop (inner + 1)) ['t', 'a', 'r'] then
          ((root ++ '.' :: extension).take inner, (root ++ '.' :: extension).drop (inner + 1))
        else (root, extension) := by
  have hrest : (root ++ '.' :: extension).drop (root.length + 1) = extension :=
    Text.drop_behind root '.' extension
  simp only [splitExtension, hdot, List.take_left]
  cases extensionDot? root with
  | none => simp only [List.take_left, hrest]
  | some inner =>
    dsimp only
    split
    · rfl
    · rw [List.take_left, hrest]

/-- What a name is split into does not depend on the directory in front of it, which stays in front
of the root. -/
theorem splitExtension_append {os : Platform} {name root extension : Text}
    (hfront : EmptyOrEndsIn '/' front) (hslash : '/' ∉ name)
    (h : SplitsInto os name root extension) :
    splitExtension os (front ++ name) = (front ++ root, extension) := by
  cases h with
  | whole hname =>
    rw [splitExtension, extensionDot?_eq_none hfront hslash hname]
  | last hroot hextension htar =>
    have hdot := extensionDot?_append hfront hslash hroot hextension
    rw [← List.append_assoc] at hdot ⊢
    rw [splitExtension_of_dot os hdot]
    have hslashRoot : '/' ∉ root := fun hmem => hslash (List.mem_append_left _ hmem)
    obtain hwhole | ⟨stem, tar, rfl, hstem, hdotted⟩ := exists_dot_or_not_mem root
    · rw [extensionDot?_eq_none hfront hslashRoot hwhole]
    · have hsame : os.same tar ['t', 'a', 'r'] = false :=
        Bool.eq_false_iff.mpr fun hsame => htar ⟨stem, tar, rfl, hstem, hdotted, hsame⟩
      rw [extensionDot?_append hfront hslashRoot hstem hdotted]
      dsimp only
      rw [← List.append_assoc, Text.drop_behind, hsame, if_neg Bool.false_ne_true]
  | @tar root tar rest hroot htar hsame hrest =>
    have hname : root ++ '.' :: (tar ++ '.' :: rest) = (root ++ '.' :: tar) ++ '.' :: rest := by
      simp
    rw [hname] at hslash ⊢
    have hdot := extensionDot?_append hfront hslash (by simp) hrest
    have hslashRoot : '/' ∉ root ++ '.' :: tar := fun hmem => hslash (List.mem_append_left _ hmem)
    rw [← List.append_assoc] at hdot ⊢
    rw [splitExtension_of_dot os hdot, extensionDot?_append hfront hslashRoot hroot htar]
    dsimp only
    rw [← List.append_assoc, Text.drop_behind, if_pos hsame, List.append_assoc _ ('.' :: tar),
      List.cons_append, List.take_left, Text.drop_behind]

/-- In a directory a name is split as it is on its own, at a dot that does not open it or nowhere:
root and extension with the dot between them are the name, and the root is never empty there. -/
theorem splitExtension_in_directory (os : Platform) (directory : Text) {name : Text}
    (hslash : '/' ∉ name) :
    ∃ root extension, splitExtension os name = (root, extension) ∧
      splitExtension os (directory ++ '/' :: name) = (directory ++ '/' :: root, extension) ∧
      (name = root ∧ extension = [] ∨ name = root ++ '.' :: extension ∧ root ≠ []) ∧
      SplitsInto os name root extension := by
  obtain ⟨root, extension, hsplits⟩ := exists_splitsInto os name
  have halone := splitExtension_append (.inl rfl) hslash hsplits
  have hends : EmptyOrEndsIn '/' (directory ++ ['/']) := .inr List.getLast?_concat
  have hinside := splitExtension_append hends hslash hsplits
  simp only [List.append_assoc, List.singleton_append] at hinside
  exact ⟨root, extension, halone, hinside, hsplits.name_eq, hsplits⟩

theorem splitExtension_in_directory_tar :
    '/' ∉ "..x.TAR.gz".toList ∧
      splitExtension .windows "..x.TAR.gz".toList = ("..x".toList, "TAR.gz".toList) ∧
      splitExtension .windows "/a.tar/.b/..x.TAR.gz".toList =
        ("/a.tar/.b/..x".toList, "TAR.gz".toList) := by
  have hslash : '/' ∉ "..x.TAR.gz".toList := by decide
  have hsplit : splitExtension .windows "..x.TAR.gz".toList =
      ("..x".toList, "TAR.gz".toList) := by decide
  obtain ⟨root, extension, halone, hinside, -⟩ :=
    splitExtension_in_directory .windows "/a.tar/.b".toList hslash
  obtain ⟨rfl, rfl⟩ := Prod.ext_iff.mp (hsplit.symm.trans halone)
  exact ⟨hslash, hsplit, hinside⟩

end PaneCompletion.Path
