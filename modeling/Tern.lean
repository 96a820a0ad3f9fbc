import Tern.Main
import Tern.Number.Arithmetic
import Tern.Session.Highlight
import Tern.Syntax.Build
import Tern.Proofs.Layers
import Tern.Proofs.Parts
import Tern.Proofs.Shape
import Tern.Proofs.Policy
import Tern.Proofs.Evaluation
import Tern.Proofs.Bodies
import Tern.Proofs.Frame
import Tern.Proofs.Names
import Tern.Proofs.Isolation
import Tern.Proofs.Relaxation
import Tern.Proofs.Rules
import Tern.Proofs.Precedence
import Tern.Proofs.Forms
import Tern.Proofs.Soundness
import Tern.Proofs.Completeness
import Tern.Proofs.Readings
import Tern.Proofs.Lookahead
import Tern.Proofs.Unambiguous
import Tern.Proofs.Contents
import Tern.Proofs.Trees
import Tern.Proofs.Lexemes
import Tern.Proofs.Terminals
import Tern.Proofs.Spellings
import Tern.Proofs.Submission
import Tern.Proofs.Prefixes
import Tern.Proofs.Ranges
import Tern.Proofs.Safety
import Tern.Proofs.Matches
import Tern.Proofs.Cuts
import Tern.Proofs.Scanning
import Tern.Proofs.Mirrors
import Tern.Proofs.Lockstep
import Tern.Proofs.Parallel
import Tern.Proofs.Positions
import Tern.Proofs.Bare
import Tern.Proofs.Layout
import Tern.Proofs.Placement
import Tern.Proofs.Trails
import Tern.Proofs.Brackets
import Tern.Proofs.Joining
import Tern.Proofs.Recoding
import Tern.Proofs.Renaming
import Tern.Proofs.Watching
import Tern.Proofs.Builtins
import Tern.Proofs.Surfacing
import Tern.Proofs.Literals
import Tern.Proofs.Unfinished
import Tern.Proofs.Neighbours
import Tern.Proofs.Cleaning
import Tern.Proofs.Rounding
import Tern.Proofs.Decimals
import Tern.Proofs.Doubles
import Tern.Proofs.Shortness
import Tern.Proofs.Printing
import Tern.Proofs.Resolution
import Tern.Proofs.Scopes
import Tern.Proofs.Writing
import Tern.Proofs.Scratch
import Tern.Proofs.Selection
import Tern.Proofs.Instances
import Tern.Proofs.Methods
import Tern.Proofs.Order
import Tern.Proofs.Indexing
import Tern.Proofs.Recovery
import Tern.Proofs.Equality
import Tern.Proofs.Forests
import Tern.Proofs.Integers
import Tern.Proofs.Loops
import Tern.Proofs.Sequences
import Tern.Proofs.Environ
import Tern.Proofs.Highlighting
import Tern.Proofs.Heights
import Tern.Proofs.Walks
import Tern.Proofs.Appending
import Tern.Proofs.Displaying
import Tern.Proofs.Ancestry
import Tern.Proofs.Resets
