import Scriptlet.Main
import Scriptlet.Proofs.Grammar.Derives
import Scriptlet.Proofs.Grammar.Reads
import Scriptlet.Proofs.Grammar.Sound
import Scriptlet.Proofs.Grammar.Dangling
import Scriptlet.Proofs.Grammar.Boundary
import Scriptlet.Proofs.Grammar.Complete.Expression
import Scriptlet.Proofs.Grammar.Complete.Statement
import Scriptlet.Proofs.Grammar.Accepts
import Scriptlet.Proofs.Grammar.Formed
import Scriptlet.Proofs.Source.Lexemes
import Scriptlet.Proofs.Source.Joined
import Scriptlet.Proofs.Source.Bytes
import Scriptlet.Proofs.Source.Shapes
import Scriptlet.Proofs.Source.Tiles
import Scriptlet.Proofs.Values
import Scriptlet.Proofs.Runs.Moments
import Scriptlet.Proofs.Runs.Carried
import Scriptlet.Proofs.Runs.Restored
import Scriptlet.Proofs.Runs.Depth
import Scriptlet.Proofs.Runs.Bounds
import Scriptlet.Proofs.Runs.LoopFree
import Scriptlet.Proofs.Session.Steps
import Scriptlet.Proofs.Session.Starts
import Scriptlet.Proofs.Session.Tables
import Scriptlet.Proofs.Session.Identities
import Scriptlet.Proofs.Lexical.Reference
import Scriptlet.Proofs.Lexical.Fits
import Scriptlet.Proofs.Lexical.Resolved
import Scriptlet.Proofs.Lexical.Mirrors
import Scriptlet.Proofs.Lexical.Simulates
import Scriptlet.Proofs.Lexical.Actions
import Scriptlet.Proofs.Lexical.Simulation
import Scriptlet.Proofs.Lexical.Lawful
import Scriptlet.Proofs.Lexical.Sessions
import Scriptlet.Proofs.Session.Globals
import Scriptlet.Proofs.Session.LoopFree
import Scriptlet.Proofs.Incremental.Alike
import Scriptlet.Proofs.Incremental.Machines
import Scriptlet.Proofs.Incremental.Paired
import Scriptlet.Proofs.Incremental.Reading
import Scriptlet.Proofs.Incremental.Evaluate
import Scriptlet.Proofs.Incremental.Resolved
import Scriptlet.Proofs.Incremental.Settled
import Scriptlet.Proofs.Incremental.Shifted
import Scriptlet.Proofs.Incremental.Inert
import Scriptlet.Proofs.Incremental.Joined
import Scriptlet.Proofs.Incremental.Below
import Scriptlet.Proofs.Session.Joined
import Scriptlet.Proofs.CommandLine.Lines
import Scriptlet.Proofs.CommandLine.Converse
import Scriptlet.Proofs.Walk.Names
import Scriptlet.Proofs.Walk.Evaluate
import Scriptlet.Proofs.Walk.Frames
import Scriptlet.Proofs.Walk.Chains
import Scriptlet.Proofs.Walk.Agrees
import Scriptlet.Proofs.Walk.Agreement
import Scriptlet.Proofs.Renaming.Alpha
import Scriptlet.Proofs.Renaming.Renamed
import Scriptlet.Proofs.Renaming.Resolved
import Scriptlet.Proofs.Renaming.Twins
import Scriptlet.Proofs.Renaming.Evaluate
import Scriptlet.Proofs.Renaming.Derived
import Scriptlet.Proofs.Source.Cuts
import Scriptlet.Proofs.Renaming.Source
import Scriptlet.Proofs.Renaming.Sessions
import Scriptlet.Proofs.Source.Parts
import Scriptlet.Proofs.Source.Turns
import Scriptlet.Proofs.Source.Munch
import Scriptlet.Proofs.Source.Respaced
import Scriptlet.Proofs.Reading.Script
import Scriptlet.Proofs.Reading.Walk
import Scriptlet.Proofs.Reading.Spends
import Scriptlet.Proofs.Reading.Total
import Scriptlet.Proofs.Viable.Ebnf
import Scriptlet.Proofs.Viable.Predicts
import Scriptlet.Proofs.Viable.Expression
import Scriptlet.Proofs.Viable.Statement
import Scriptlet.Proofs.Viable.Earliest
import Scriptlet.Proofs.Reading.Bounds
import Scriptlet.Proofs.Reading.Appended
import Scriptlet.Proofs.Runs.CutOff
import Scriptlet.Proofs.Session.CutOff
import Scriptlet.Proofs.Binding.Sites
import Scriptlet.Proofs.Binding.Walked
import Scriptlet.Proofs.Binding.Verdict
import Scriptlet.Proofs.Binding.Distances
import Scriptlet.Proofs.Reading.Confined
import Scriptlet.Proofs.Reading.Segments
import Scriptlet.Proofs.Session.Printed
import Scriptlet.Proofs.Scopes.Chains
import Scriptlet.Proofs.Scopes.Laws
import Scriptlet.Proofs.Loops.Written
import Scriptlet.Proofs.Loops.Direct
import Scriptlet.Proofs.Loops.Distances
import Scriptlet.Proofs.Loops.Resolved
import Scriptlet.Proofs.Loops.Images
import Scriptlet.Proofs.Loops.Simulates
import Scriptlet.Proofs.Loops.Simulation
import Scriptlet.Proofs.Loops.Sessions
import Scriptlet.Proofs.Runs.Traces
import Scriptlet.Proofs.Runs.Returns
import Scriptlet.Proofs.Recovery.Mild
import Scriptlet.Proofs.Recovery.Strays
import Scriptlet.Proofs.Recovery.Phrases
import Scriptlet.Proofs.Recovery.Leftovers
import Scriptlet.Proofs.Recovery.Gaps
import Scriptlet.Proofs.Recovery.Blocks
import Scriptlet.Proofs.Recovery.Ledgers
import Scriptlet.Proofs.Recovery.Cascades
import Scriptlet.Proofs.Decimal.Signs
import Scriptlet.Proofs.Decimal.Numerals
import Scriptlet.Proofs.Decimal.Rounding
import Scriptlet.Proofs.Decimal.Scientific
import Scriptlet.Proofs.Decimal.ReadsBack
import Scriptlet.Proofs.Session.ReadBack
import Scriptlet.Proofs.Decimal.Unsigned
import Scriptlet.Proofs.Printing.Sexp
import Scriptlet.Proofs.Printing.Trees
import Scriptlet.Proofs.Printing.Sourced
import Scriptlet.Proofs.Printing.Faithful
