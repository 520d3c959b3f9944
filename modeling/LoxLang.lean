import LoxLang.Command
import LoxLang.Files.Folder
import LoxLang.Log.Preset
import LoxLang.Main
import LoxLang.Prompt
import LoxLang.Source.Cache
import LoxLang.Source.Digest
import LoxLang.Yaml.Passage
import LoxLang.Yaml.Scan
import LoxLang.Proofs.Grammar
import LoxLang.Proofs.Parser.Run
import LoxLang.Proofs.Parser.StatementSound
import LoxLang.Proofs.Parser.ExpressionComplete
import LoxLang.Proofs.Parser.StatementComplete
import LoxLang.Proofs.Parser.Exact
import LoxLang.Proofs.Text.Utf8
import LoxLang.Proofs.Scan.Words
import LoxLang.Proofs.Scan.Tiling
import LoxLang.Proofs.Machine.Watch
import LoxLang.Proofs.Parser.Moves
import LoxLang.Proofs.Resolver.Reports
import LoxLang.Proofs.Source.Cached
import LoxLang.Proofs.Source.Gated
import LoxLang.Proofs.Tree.Formed
import LoxLang.Proofs.Resolver.Scoped
import LoxLang.Proofs.Resolver.Sound
import LoxLang.Proofs.Source.Session
import LoxLang.Proofs.Machine.Erase
import LoxLang.Proofs.Machine.Chain
import LoxLang.Proofs.Machine.Fit
import LoxLang.Proofs.Machine.Steps
import LoxLang.Proofs.Machine.Making
import LoxLang.Proofs.Machine.Sound
import LoxLang.Proofs.Source.Sound
import LoxLang.Proofs.Scan.Joined
import LoxLang.Proofs.Scan.Spaced
import LoxLang.Proofs.Tree.Alike
import LoxLang.Proofs.Parser.Joined
import LoxLang.Proofs.Resolver.Alike
import LoxLang.Proofs.Machine.Alike
import LoxLang.Proofs.Machine.Lockstep
import LoxLang.Proofs.Source.Receivers
import LoxLang.Proofs.Machine.Keeping
import LoxLang.Proofs.Machine.Keeps
import LoxLang.Proofs.Source.Globals
import LoxLang.Proofs.Text.Boundary
import LoxLang.Proofs.Prompt.Word
import LoxLang.Proofs.Prompt.Field
import LoxLang.Proofs.Prompt.Safe
import LoxLang.Proofs.Prompt.Turns
import LoxLang.Proofs.Text.Symbols
import LoxLang.Proofs.Prompt.History
import LoxLang.Proofs.Tree.Rename
import LoxLang.Proofs.Resolver.Marks
import LoxLang.Proofs.Resolver.Rename
import LoxLang.Proofs.Resolver.Retrace
import LoxLang.Proofs.Machine.Respelled
import LoxLang.Proofs.Machine.Reruns
import LoxLang.Proofs.Machine.Hygiene
import LoxLang.Proofs.Source.Hygiene
import LoxLang.Proofs.Source.Frames
import LoxLang.Proofs.Number.Double
import LoxLang.Proofs.Tree.Written
import LoxLang.Proofs.Number.Shortest
import LoxLang.Proofs.Number.Layout
import LoxLang.Proofs.Text.Quoted
import LoxLang.Proofs.Tree.Sexp
import LoxLang.Proofs.Tree.Printed
import LoxLang.Proofs.Tree.Dumped
import LoxLang.Proofs.Source.Dumps
import LoxLang.Proofs.Resolver.Run
import LoxLang.Proofs.Resolver.Rules
import LoxLang.Proofs.Resolver.Local
import LoxLang.Proofs.Parser.Bounds
import LoxLang.Proofs.Parser.Recovery
import LoxLang.Proofs.Machine.Paced
import LoxLang.Proofs.Machine.Cuts
import LoxLang.Proofs.Source.Interrupted
import LoxLang.Proofs.Source.Loops
import LoxLang.Proofs.Machine.Depth
import LoxLang.Proofs.Source.Echo
import LoxLang.Proofs.Prompt.Recent
import LoxLang.Proofs.Prompt.Step
import LoxLang.Proofs.Prompt.Drafts
import LoxLang.Proofs.Prompt.Taken
import LoxLang.Proofs.Resolver.Erase
import LoxLang.Proofs.Machine.Retained
import LoxLang.Proofs.Machine.Named
import LoxLang.Proofs.Source.Named
import LoxLang.Proofs.Prompt.Names
import LoxLang.Proofs.Prompt.Around
import LoxLang.Proofs.Prompt.Offered
import LoxLang.Proofs.Prompt.Completed
import LoxLang.Proofs.Files
import LoxLang.Proofs.Scan.Terminated
import LoxLang.Proofs.Machine.Along
import LoxLang.Proofs.Source.Along
import LoxLang.Proofs.Prompt.Members
import LoxLang.Proofs.Prompt.Recalled
import LoxLang.Proofs.Prompt.Called
import LoxLang.Proofs.Log.Level
import LoxLang.Proofs.Number.Nearest
import LoxLang.Proofs.Source.Identifier
import LoxLang.Proofs.Log.Pretty
import LoxLang.Proofs.Failure
import LoxLang.Proofs.Prompt.Bar
import LoxLang.Proofs.Machine.Rooted
import LoxLang.Proofs.Source.Rooted
import LoxLang.Proofs.Resolver.Balanced
import LoxLang.Proofs.Resolver.Strict
import LoxLang.Proofs.Parser.Maker
import LoxLang.Proofs.Parser.Single
import LoxLang.Proofs.Resolver.Records
import LoxLang.Proofs.Source.Recorded
import LoxLang.Proofs.Machine.Journal
import LoxLang.Proofs.Machine.Contained
import LoxLang.Proofs.Machine.Lawful
import LoxLang.Proofs.Machine.Returns
import LoxLang.Proofs.Source.Returns
