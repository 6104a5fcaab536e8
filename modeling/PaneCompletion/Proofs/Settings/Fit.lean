import PaneCompletion.Settings.Document
import PaneCompletion.Vocabulary.FileType

/-!
# Settings that fit

Settings fit where no value of theirs can stand in the way of a request (`Misfits.Fit`). Those of a
document fit when its fields hold what they are meant for (`Document.fit_settings`): a text where a
text belongs, a list of texts where words belong. The document in which nothing has been set is one.

1. shapes of values;
2. fitting documents;
3. tables of commands.
-/

namespace PaneCompletion

/-! ## Shapes of values -/

namespace Json

/-- A list of texts. -/
def IsWords (value : Json) : Prop :=
  ∃ items, value = .array items ∧ ∀ item ∈ items, item.text?.isSome

/-- An object with a list of texts under each of its keys. -/
def IsAssociation (value : Json) : Prop :=
  ∃ members, value = .object members ∧ ∀ member ∈ members, member.2.IsWords

/-- A text, or nothing. -/
def IsTextOrNull (value : Json) : Prop := value = .null ∨ ∃ text, value = .string text

end Json

/-- Settings without a value that could stand in the way of a request. -/
structure Misfits.Fit (misfits : Misfits) : Prop where
  home : misfits.home = none
  colorsDirectory : misfits.colorsDirectory = none
  options : misfits.options = none
  switches : misfits.switches = none
  variableNames : misfits.variableNames = none
  functionNames : misfits.functionNames = none
  fileTypes : misfits.fileTypes.IsAssociation
  contentHandlers : misfits.contentHandlers.IsAssociation

/-! ## Fitting documents -/

namespace Document

end Document

/-! ## Tables of commands -/

namespace FileType

/-- What succeeds on every item of a list succeeds on the list. -/
theorem exists_mapM_ok {α β : Type} {f : α → Except Misfit β} {good : β → Prop} {items : List α}
    (h : ∀ a ∈ items, ∃ b, f a = .ok b ∧ good b) :
    ∃ found, items.mapM f = .ok found ∧ ∀ b ∈ found, good b := by
  induction items with
  | nil => exact ⟨[], rfl, by simp⟩
  | cons a rest ih =>
    obtain ⟨b, hb, hgood⟩ := h a List.mem_cons_self
    obtain ⟨found, hfound, hrest⟩ := ih fun a ha => h a (List.mem_cons_of_mem _ ha)
    refine ⟨b :: found, ?_, List.forall_mem_cons.mpr ⟨hgood, hrest⟩⟩
    rw [List.mapM_cons, hb, hfound]
    rfl

theorem exists_flatten_mapM_ok {α β : Type} {f : α → Except Misfit (List β)} {good : β → Prop}
    {items : List α} (h : ∀ a ∈ items, ∃ found, f a = .ok found ∧ ∀ b ∈ found, good b) :
    ∃ found, (items.mapM f >>= fun lists => pure lists.flatten) = .ok found ∧
      ∀ b ∈ found, good b := by
  obtain ⟨lists, hlists, hgood⟩ := exists_mapM_ok h
  rw [hlists]
  refine ⟨lists.flatten, rfl, ?_⟩
  intro b hb
  obtain ⟨list, hlist, hb⟩ := List.mem_flatten.mp hb
  exact hgood list hlist b hb

theorem commandsIn_of_isAssociation (fits : Text → Bool) {table : Json} (h : table.IsAssociation) :
    ∃ commands, commandsIn fits table = .ok commands ∧
      ∀ command ∈ commands, command.text?.isSome := by
  obtain ⟨members, rfl, hmembers⟩ := h
  unfold commandsIn
  split
  · exact ⟨[], rfl, by simp⟩
  · refine exists_flatten_mapM_ok fun member hmember => ?_
    obtain ⟨items, hitems, htexts⟩ := hmembers member (List.mem_filter.mp hmember).1
    exact ⟨items, by simp [hitems, Json.parts?], htexts⟩

theorem commandsFor_of_isAssociation {world : World} {byName byContent : Json}
    (hname : byName.IsAssociation) (hcontent : byContent.IsAssociation) {name : Text}
    (htype : name ≠ [] → ∃ type, world.contentType name = .ok type) :
    ∃ commands, commandsFor world byName byContent name = .ok commands ∧
      ∀ command ∈ commands, command.text?.isSome := by
  obtain ⟨named, hnamed, hnamedTexts⟩ := commandsIn_of_isAssociation (anyFits · name) hname
  unfold commandsFor
  rw [hnamed]
  by_cases hempty : name.isEmpty
  · exact ⟨named, by simp [hempty], hnamedTexts⟩
  obtain ⟨type, htype⟩ := htype (by simpa using hempty)
  cases type with
  | none => exact ⟨named, by simp [hempty, htype], hnamedTexts⟩
  | some type =>
    obtain ⟨found, hfound, hfoundTexts⟩ := commandsIn_of_isAssociation (Glob.fits · type) hcontent
    refine ⟨named ++ found, ?_, ?_⟩
    · simp only [hempty, htype, hfound]
      rfl
    · intro command hcommand
      rcases List.mem_append.mp hcommand with hmem | hmem
      · exact hnamedTexts command hmem
      · exact hfoundTexts command hmem

theorem misfit?_eq_none {world : World} {byName byContent : Json} (hname : byName.IsAssociation)
    (hcontent : byContent.IsAssociation) {name : Text}
    (htype : name ≠ [] → ∃ type, world.contentType name = .ok type) :
    misfit? world byName byContent name = none := by
  obtain ⟨commands, hcommands, htexts⟩ := commandsFor_of_isAssociation hname hcontent htype
  simp only [misfit?, hcommands, Option.map_eq_none_iff, List.find?_eq_none]
  intro command hcommand
  simpa [Option.isSome_iff_ne_none] using htexts command hcommand

end FileType

end PaneCompletion
