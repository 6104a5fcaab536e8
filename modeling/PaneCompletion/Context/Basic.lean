import PaneCompletion.Program.SearchList
import PaneCompletion.Vocabulary.Lexicon

/-!
# The context of a completion

What a completion is answered from, the world apart. It is only read, so requests answered from one
context do not depend on each other.
-/

namespace PaneCompletion

/-- The vocabularies and settings, the directories of the two panes, the file under the cursor, and
where programs are looked for. -/
structure Context where
  lexicon : Lexicon
  settings : Settings := {}
  currentDirectory : Option Text := none
  otherDirectory : Option Text := none
  currentFile : Text := []
  searchList : Option SearchList := none

end PaneCompletion
