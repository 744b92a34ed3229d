import Lox.Main
import Lox.Proofs.Evaluation.Restoration
import Lox.Proofs.Grammar.Acceptance
import Lox.Proofs.Lexical.Refinement
import Lox.Proofs.Scanner.Lossless
import Lox.Proofs.Session.Rejection
import Lox.Proofs.Session.Soundness
import Lox.Proofs.Evaluation.Following
import Lox.Proofs.Evaluation.Moved
import Lox.Proofs.Grammar.Joining
import Lox.Proofs.Scope.Resuming
import Lox.Proofs.Session.Batch
import Lox.Proofs.Dispatch.Descent
import Lox.Proofs.Dispatch.Keeping
import Lox.Proofs.Dispatch.Reached
import Lox.Proofs.Dispatch.Receivers
import Lox.Proofs.Evaluation.Halting
import Lox.Proofs.Evaluation.Truncation
import Lox.Proofs.Heap.Chains
import Lox.Proofs.Heap.Grounding
import Lox.Proofs.Heap.Reached
import Lox.Proofs.Session.Nodes
import Lox.Proofs.Grammar.NormalTrees
import Lox.Proofs.Scope.Exactness
import Lox.Proofs.Descent.Termination
import Lox.Proofs.Grammar.Recovery
import Lox.Proofs.Dispatch.Construction
import Lox.Proofs.Evaluation.CallDepth
import Lox.Proofs.Session.Returns
import Lox.Proofs.Grammar.Viability
import Lox.Proofs.Scanner.Lines
import Lox.Proofs.Scanner.Classification
import Lox.Proofs.Heap.Forest
import Lox.Proofs.Session.Loops
import Lox.Proofs.Session.Spacing
import Lox.Proofs.Session.Numbers
import Lox.Proofs.Grammar.PrefixForms
import Lox.Proofs.Session.Values
import Lox.Proofs.Scope.Discipline
