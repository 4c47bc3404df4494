import PatternAutomata.CommandLine.Folder
import PatternAutomata.Main
import PatternAutomata.Session.Basic
import PatternAutomata.Proofs.Path
import PatternAutomata.Proofs.Search
import PatternAutomata.Proofs.Simulation
import PatternAutomata.Proofs.Expr
import PatternAutomata.Proofs.Fragment
import PatternAutomata.Proofs.Construction
import PatternAutomata.Proofs.Rendering
import PatternAutomata.Proofs.Completion
import PatternAutomata.Proofs.Compilation
import PatternAutomata.Proofs.Parentheses
import PatternAutomata.Proofs.Grammar
import PatternAutomata.Proofs.Outcome
import PatternAutomata.Proofs.Alphabet
import PatternAutomata.Proofs.Surplus
import PatternAutomata.Proofs.Shape
import PatternAutomata.Proofs.Steps
import PatternAutomata.Proofs.Viability
import PatternAutomata.Proofs.Layout
import PatternAutomata.Proofs.Interleaving
import PatternAutomata.Proofs.Unjoined
import PatternAutomata.Proofs.Distance
import PatternAutomata.Proofs.Closure
import PatternAutomata.Proofs.Successors
import PatternAutomata.Proofs.Placement
import PatternAutomata.Proofs.Transition
import PatternAutomata.Proofs.Mesh
import PatternAutomata.Proofs.Soundness
import PatternAutomata.Proofs.Partners
import PatternAutomata.Proofs.Conservation
import PatternAutomata.Proofs.PostfixText
import PatternAutomata.Proofs.Culprit
import PatternAutomata.Proofs.Refusal
import PatternAutomata.Proofs.Report
import PatternAutomata.Proofs.Sources
import PatternAutomata.Proofs.Explicit
import PatternAutomata.Proofs.Silence
import PatternAutomata.Proofs.Emptiness
import PatternAutomata.Proofs.History
