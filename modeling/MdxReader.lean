import MdxReader.Main
import MdxReader.Proofs.Descent
import MdxReader.Proofs.Descent.Equations
import MdxReader.Proofs.Tokens
import MdxReader.Proofs.Meaning
import MdxReader.Proofs.Precedence
import MdxReader.Proofs.Words
import MdxReader.Proofs.Leads
import MdxReader.Proofs.Nesting
import MdxReader.Proofs.Height
import MdxReader.Proofs.WellFormed
import MdxReader.Proofs.Trees
import MdxReader.Proofs.Statements
import MdxReader.Proofs.Spelling
import MdxReader.Proofs.Spans
import MdxReader.Proofs.Places
import MdxReader.Proofs.Writing
import MdxReader.Proofs.Writing.Statements
import MdxReader.Proofs.RoundTrip
import MdxReader.Proofs.Faults
import MdxReader.Proofs.Balance
import MdxReader.Proofs.Room
import MdxReader.Proofs.Likeness
import MdxReader.Proofs.Likeness.Statements
import MdxReader.Proofs.Limits
import MdxReader.Proofs.Grammar
import MdxReader.Proofs.Grammar.Delayed
import MdxReader.Proofs.Parsing
import MdxReader.Proofs.Parsing.Statements
import MdxReader.Proofs.Respelling
import MdxReader.Proofs.RoundTrip.Statements
import MdxReader.Proofs.FirstWord
import MdxReader.Proofs.Likeness.Expressions
import MdxReader.Proofs.JsonText
import MdxReader.Proofs.JsonText.Trees
import MdxReader.Proofs.Literals
import MdxReader.Proofs.Rounding
import MdxReader.Proofs.Surroundings
import MdxReader.Proofs.Surroundings.Expressions
import MdxReader.Proofs.Joined
import MdxReader.Proofs.Formula
import MdxReader.Proofs.Complaints
import MdxReader.Proofs.Complaints.Statements
import MdxReader.Proofs.Measures
import MdxReader.Proofs.Exactness
import MdxReader.Proofs.Digits
import MdxReader.Proofs.Insertion
import MdxReader.Proofs.Selects
import MdxReader.Proofs.Stretches
import MdxReader.Proofs.Grouping
import MdxReader.Proofs.Slots
import MdxReader.Proofs.Beginnings
import MdxReader.Proofs.CubeNames
import MdxReader.Proofs.Identifiers
import MdxReader.Proofs.Drillthrough
import MdxReader.Proofs.Counts
import MdxReader.Proofs.Flattening
import MdxReader.Proofs.Iterations
import MdxReader.Proofs.Quiet
import MdxReader.Proofs.Events
import MdxReader.Proofs.Calls
import MdxReader.Proofs.Steady
import MdxReader.Proofs.Bounds
import MdxReader.Proofs.Upkeep
