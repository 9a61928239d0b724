import SmallLang.Main
import SmallLang.Tree.Equality
import SmallLang.Tree.Outline
import SmallLang.Proofs.Table.Forest
import SmallLang.Proofs.Table.Sweep
import SmallLang.Proofs.Scope.Lookup
import SmallLang.Proofs.Typing.Rules
import SmallLang.Proofs.Typing.Names
import SmallLang.Proofs.Typing.Returned
import SmallLang.Proofs.Typing.Expr
import SmallLang.Proofs.Typing.Stmt
import SmallLang.Proofs.Typing.Announced
import SmallLang.Proofs.Typing.Sound
import SmallLang.Proofs.Typing.Complete
import SmallLang.Proofs.Typing.Program
import SmallLang.Proofs.Parse.Shape
import SmallLang.Proofs.Tree.Alike
import SmallLang.Proofs.Tree.Declarations
import SmallLang.Proofs.Tree.Notes
import SmallLang.Proofs.Inference.Runs
import SmallLang.Proofs.Inference.Frame
import SmallLang.Proofs.Inference.Noted
import SmallLang.Proofs.Inference.Settled
import SmallLang.Proofs.Inference.Decided
import SmallLang.Proofs.Inference.Repeat
import SmallLang.Proofs.Inference.Program
import SmallLang.Proofs.Inference.Known
import SmallLang.Proofs.Inference.Again
import SmallLang.Proofs.Order.Names
import SmallLang.Proofs.Order.Open
import SmallLang.Proofs.Order.Worth
import SmallLang.Proofs.Order.Division
import SmallLang.Proofs.Order.Kinds
import SmallLang.Proofs.Order.Weights
import SmallLang.Proofs.Order.Walk
import SmallLang.Proofs.Parse.Loaded
import SmallLang.Proofs.Module.Replaces
import SmallLang.Proofs.Module.Loaded
import SmallLang.Proofs.Scope.Scoping
import SmallLang.Proofs.Scope.Inferred
import SmallLang.Proofs.Scope.Clean
import SmallLang.Proofs.Scope.Checked
import SmallLang.Proofs.Scope.Agree
import SmallLang.Proofs.Inference.Sparing
import SmallLang.Proofs.Inference.Sure
import SmallLang.Proofs.Inference.SameKind
import SmallLang.Proofs.Module.Apart
import SmallLang.Proofs.Module.Linked
import SmallLang.Proofs.Module.Once
import SmallLang.Proofs.Module.Accesses
import SmallLang.Proofs.Module.Nested
import SmallLang.Proofs.Module.Entry
import SmallLang.Proofs.Parse.Climbing
import SmallLang.Proofs.Typing.Places
import SmallLang.Proofs.Parse.Roundtrip
import SmallLang.Proofs.Order.Grounded
import SmallLang.Proofs.Order.Decided
import SmallLang.Proofs.Order.Rooted
import SmallLang.Proofs.Module.Failed
import SmallLang.Proofs.Inference.Discipline
import SmallLang.Proofs.Inference.Quiet
import SmallLang.Proofs.Scope.Occurrence
import SmallLang.Proofs.Scope.Resolved
import SmallLang.Proofs.Module.Worded
import SmallLang.Proofs.Import.Use
import SmallLang.Proofs.Order.Permuted
import SmallLang.Proofs.Token.Tiled
import SmallLang.Proofs.Inference.Session
import SmallLang.Proofs.Token.Written
import SmallLang.Proofs.Module.Builtins
import SmallLang.Proofs.Position.Source
import SmallLang.Proofs.Comment.Program
import SmallLang.Proofs.Scope.History
import SmallLang.Proofs.Module.Buried
import SmallLang.Proofs.Verdict.Agree
import SmallLang.Proofs.Verdict.Statements
import SmallLang.Proofs.Verdict.Independent
import SmallLang.Proofs.Verdict.Hoisting
import SmallLang.Proofs.Verdict.Order
import SmallLang.Proofs.Position.Modules
import SmallLang.Proofs.Command.Arguments
import SmallLang.Proofs.Command.Paths
import SmallLang.Proofs.Command.Files
import SmallLang.Proofs.Module.Determined
import SmallLang.Proofs.Command.Agrees
import SmallLang.Proofs.Table.Final
import SmallLang.Proofs.Inference.Annotates
import SmallLang.Proofs.Inference.Later
import SmallLang.Proofs.Inference.Operations
import SmallLang.Proofs.Parse.Progress
import SmallLang.Proofs.Source.Caret
import SmallLang.Proofs.LineEnd.Program
import SmallLang.Proofs.Modifier.Declared
import SmallLang.Proofs.Table.Acyclic
import SmallLang.Proofs.Position.Outline
import SmallLang.Proofs.Scope.First
import SmallLang.Proofs.Inference.Placeholders
