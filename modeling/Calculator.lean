import Calculator.Log
import Calculator.Scanning
import Calculator.Main
import Calculator.Proofs.Acceptance
import Calculator.Proofs.ExactValue
import Calculator.Proofs.Counting
import Calculator.Proofs.Printing
import Calculator.Proofs.LongestMatch
import Calculator.Proofs.Placeholders
import Calculator.Proofs.Insertions
import Calculator.Proofs.Standings
import Calculator.Proofs.Viability
import Calculator.Proofs.Nodes
import Calculator.Proofs.Likeness
import Calculator.Proofs.Spelling
import Calculator.Proofs.Composition
import Calculator.Proofs.Substitution
import Calculator.Proofs.Marks
import Calculator.Proofs.Messages
import Calculator.Proofs.Restoring
import Calculator.Proofs.Tokenwise
import Calculator.Proofs.Spacing
import Calculator.Proofs.Masking
import Calculator.Proofs.Positions
import Calculator.Proofs.Runs
import Calculator.Proofs.Histories
import Calculator.Proofs.Places
import Calculator.Proofs.Records
import Calculator.Proofs.Rereading
import Calculator.Proofs.InputLines
import Calculator.Proofs.Modes
import Calculator.Proofs.Concatenation
import Calculator.Proofs.Outlines
import Calculator.Proofs.Blanking
import Calculator.Proofs.Omissions
import Calculator.Proofs.Layout
import Calculator.Proofs.Growth
import Calculator.Proofs.Nesting
import Calculator.Proofs.Heights
import Calculator.Proofs.Failures
import Calculator.Proofs.Tapes
