import StampScript.Embedding
import StampScript.Main
import StampScript.Syntax.Outline
import StampScript.Proofs.Check.Plan
import StampScript.Proofs.Check.Questions
import StampScript.Proofs.Check.Circularity
import StampScript.Proofs.Plain
import StampScript.Proofs.Returns
import StampScript.Proofs.Discipline.Rules
import StampScript.Proofs.Discipline.Operations
import StampScript.Proofs.Discipline.Control
import StampScript.Proofs.Discipline.Programs
import StampScript.Proofs.Discipline.Runs
import StampScript.Proofs.Discipline.Machines
import StampScript.Proofs.Isolation
import StampScript.Proofs.Scalars.Heaps
import StampScript.Proofs.Scalars.Writes
import StampScript.Proofs.Scalars.Kept
import StampScript.Proofs.Discipline.Sessions
import StampScript.Proofs.Scalars.Sessions
import StampScript.Proofs.Check.Marks
import StampScript.Proofs.Stamps.Denials
import StampScript.Proofs.Stamps.Lasting
import StampScript.Proofs.Names.Invariants
import StampScript.Proofs.Names.Constants
import StampScript.Proofs.Keys.Equality
import StampScript.Proofs.Keys.Reach
import StampScript.Proofs.Keys.Whole
import StampScript.Proofs.Literals.Slots
import StampScript.Proofs.Literals.Traces
import StampScript.Proofs.Literals.Addresses
import StampScript.Proofs.Literals.Coherence
import StampScript.Proofs.Literals.Repeats
import StampScript.Proofs.Grammar.Annotations
import StampScript.Proofs.Grammar.Halves
import StampScript.Proofs.Grammar.Depths
import StampScript.Proofs.Grammar.ReadApart
import StampScript.Proofs.Keys.Order
import StampScript.Proofs.Histories.Events
import StampScript.Proofs.Histories.Runs
import StampScript.Proofs.Histories.Entries
import StampScript.Proofs.Shapes
import StampScript.Proofs.Histories.Entities
import StampScript.Proofs.Grammar.Derivations
import StampScript.Proofs.Grammar.Reading
import StampScript.Proofs.Grammar.Progress
import StampScript.Proofs.Grammar.Bounds
import StampScript.Proofs.Lexing.Lexed
import StampScript.Proofs.Lexing.Lines
import StampScript.Proofs.Lexing.Quotes
import StampScript.Proofs.Lexing.Spelling
import StampScript.Proofs.Numbers.Bits
import StampScript.Proofs.Numbers.Decimals
import StampScript.Proofs.Numbers.Reread
import StampScript.Proofs.Types.Readable
import StampScript.Proofs.Types.ReadingBack
import StampScript.Proofs.Types.Writing
import StampScript.Proofs.Balance
import StampScript.Proofs.Grammar.Ladder
import StampScript.Proofs.Ending.Runs
import StampScript.Proofs.Folding.Mirrors
import StampScript.Proofs.Folding.Tidied
import StampScript.Proofs.Folding.Operations
import StampScript.Proofs.Folding.Control
import StampScript.Proofs.Folding.Programs
import StampScript.Proofs.Check.Carried
import StampScript.Proofs.Check.Copies
import StampScript.Proofs.Folding.Agreement
import StampScript.Proofs.Folding.Evaluation
import StampScript.Proofs.Instances.Heaps
import StampScript.Proofs.Instances.Sessions
import StampScript.Proofs.Instances.Variants
import StampScript.Proofs.Names.Expressions
import StampScript.Proofs.Stamps.Agreement
import StampScript.Proofs.Keys.Total
import StampScript.Proofs.Lexing.Written
import StampScript.Proofs.Refusals
import StampScript.Proofs.Inclusions
import StampScript.Proofs.Unions.Disjunction
import StampScript.Proofs.Check.Fresh
import StampScript.Proofs.Keys.Insertions
import StampScript.Proofs.Patterns
import StampScript.Proofs.Loops.Iterations
import StampScript.Proofs.Loops.Snapshots
import StampScript.Proofs.Numbers.Indices
import StampScript.Proofs.Loops.Indices
import StampScript.Proofs.Instances.Literals
import StampScript.Proofs.Names.Seclusion
import StampScript.Proofs.Names.Imports
import StampScript.Proofs.Grammar.Limits
import StampScript.Proofs.Grammar.Faults
import StampScript.Proofs.Division.Calls
import StampScript.Proofs.Faults
