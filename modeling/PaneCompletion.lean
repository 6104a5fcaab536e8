import PaneCompletion.Main
import PaneCompletion.Proofs.Context.IgnoringCase
import PaneCompletion.Proofs.Context.Moved
import PaneCompletion.Proofs.Context.Prefix
import PaneCompletion.Proofs.Context.Vocabulary
import PaneCompletion.Proofs.Line.Cursor
import PaneCompletion.Proofs.Line.Fragment
import PaneCompletion.Proofs.Line.Written
import PaneCompletion.Proofs.Matches.Cycle
import PaneCompletion.Proofs.Matches.Merging
import PaneCompletion.Proofs.Matches.Session
import PaneCompletion.Proofs.Path.Across
import PaneCompletion.Proofs.Path.Beginning
import PaneCompletion.Proofs.Path.Containment
import PaneCompletion.Proofs.Path.Equal
import PaneCompletion.Proofs.Path.Extension
import PaneCompletion.Proofs.Path.Nested
import PaneCompletion.Proofs.Path.Parent
import PaneCompletion.Proofs.Path.Reread
import PaneCompletion.Proofs.Path.Target
import PaneCompletion.Proofs.Program.Phantom
import PaneCompletion.Proofs.Program.PlainSearch
import PaneCompletion.Proofs.Program.Resolve
import PaneCompletion.Proofs.Prompt.Acceptance
import PaneCompletion.Proofs.Prompt.Splice
import PaneCompletion.Proofs.Settings.Saved
import PaneCompletion.Proofs.World.Tilde
