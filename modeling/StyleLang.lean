import StyleLang.Main
import StyleLang.Event.Bus
import StyleLang.Node.Equality
import StyleLang.Scope.Script
import StyleLang.Transform
import StyleLang.Proofs.Tree.Placement
import StyleLang.Proofs.Scope.Chain
import StyleLang.Proofs.Typing.Pass
import StyleLang.Proofs.Tree.Walk
import StyleLang.Proofs.Tree.Report
import StyleLang.Proofs.Typing.Lexical
import StyleLang.Proofs.Typing.Arrival
import StyleLang.Proofs.Typing.Agreement
import StyleLang.Proofs.Typing.Adequacy
import StyleLang.Proofs.Evaluation.Pass
import StyleLang.Proofs.Evaluation.Soundness
import StyleLang.Proofs.Source.Grammar
import StyleLang.Proofs.Source.Lexeme
import StyleLang.Proofs.Source.Understood
import StyleLang.Proofs.Source.Scanning
import StyleLang.Proofs.Source.Soundness
import StyleLang.Proofs.Source.Progress
import StyleLang.Proofs.Source.Completeness
import StyleLang.Proofs.Css.Plain
import StyleLang.Proofs.Evaluation.Pipeline
import StyleLang.Proofs.Css.Spelling
import StyleLang.Proofs.Css.ReadBack
import StyleLang.Proofs.Scope.Modes
import StyleLang.Proofs.Evaluation.Faithful
import StyleLang.Proofs.Evaluation.Settled
import StyleLang.Proofs.Compile.Repetition
import StyleLang.Proofs.Source.Overlong
import StyleLang.Proofs.Compile.Course
import StyleLang.Proofs.Compile.Protocol
import StyleLang.Proofs.Source.Concatenation
import StyleLang.Proofs.Tree.Omission
import StyleLang.Proofs.Typing.Isolation
import StyleLang.Proofs.Evaluation.Isolation
import StyleLang.Proofs.Compile.Interruption
import StyleLang.Proofs.Evaluation.OperatorGap
import StyleLang.Proofs.CommandLine.Verdict
import StyleLang.Proofs.Tree.Slots
import StyleLang.Proofs.Evaluation.Refolding
import StyleLang.Proofs.Typing.Slots
import StyleLang.Proofs.Evaluation.Retry
import StyleLang.Proofs.Scope.Calls
import StyleLang.Proofs.Tree.Nesting
import StyleLang.Proofs.Typing.Scopes
import StyleLang.Proofs.Evaluation.Scopes
import StyleLang.Proofs.Scope.Alike
import StyleLang.Proofs.Tree.Exchange
import StyleLang.Proofs.Evaluation.Unselected
import StyleLang.Proofs.Typing.Tables
import StyleLang.Proofs.Compile.Tables
import StyleLang.Proofs.Event.Steps
import StyleLang.Proofs.Event.Dispatch
import StyleLang.Proofs.Event.Accounts
import StyleLang.Proofs.Source.ErrorPlace
import StyleLang.Proofs.Tree.Misplaced
import StyleLang.Proofs.Typing.Gate
import StyleLang.Proofs.Compile.Gate
import StyleLang.Proofs.Tree.Remarks
import StyleLang.Proofs.Tree.Inline
import StyleLang.Proofs.Tree.Legible
import StyleLang.Proofs.Css.Generation
import StyleLang.Proofs.Evaluation.Algebra
import StyleLang.Proofs.Scope.Blocks
import StyleLang.Proofs.Tree.Renaming
import StyleLang.Proofs.Scope.Renaming
import StyleLang.Proofs.Evaluation.Renaming
import StyleLang.Proofs.Typing.Renaming
import StyleLang.Proofs.Compile.Renaming
import StyleLang.Proofs.Tree.DocumentOrder
import StyleLang.Proofs.Tree.Preorder
