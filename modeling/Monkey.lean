import Monkey.CommandLine.Basic
import Monkey.Main
import Monkey.Node.Alike
import Monkey.Shell.Completion
import Monkey.Proofs.Parser.Soundness
import Monkey.Proofs.Parser.Completeness
import Monkey.Proofs.Numeral
import Monkey.Proofs.Token.Spelling
import Monkey.Proofs.Parser.Shape
import Monkey.Proofs.Parser.Printing
import Monkey.Proofs.Node.Alike
import Monkey.Proofs.Parser.RoundTrip
import Monkey.Proofs.Value.Everywhere
import Monkey.Proofs.Eval.Keeps
import Monkey.Proofs.Eval.Abrupt
import Monkey.Proofs.Eval.Propagation
import Monkey.Proofs.Eval.Discipline
import Monkey.Proofs.Parser.Writing
import Monkey.Proofs.Eval.Frames
import Monkey.Proofs.Parser.Overflow
import Monkey.Proofs.Script
import Monkey.Proofs.Eval.NonLocalAgrees
import Monkey.Proofs.Eval.StrictAgrees
import Monkey.Proofs.Token.Partition
import Monkey.Proofs.Parser.Mistakes
import Monkey.Proofs.Arithmetic
import Monkey.Proofs.Eval.Unmentioned
import Monkey.Proofs.Token.Comment
import Monkey.Proofs.Eval.HashLiteral
import Monkey.Proofs.Scope
import Monkey.Proofs.Eval.Locality
import Monkey.Proofs.Eval.HashEntries
import Monkey.Proofs.Shell
import Monkey.Proofs.Tracing
import Monkey.Proofs.Identity
import Monkey.Proofs.Token.Relocation
import Monkey.Proofs.Token.Literal
import Monkey.Proofs.Parser.Unplaced
import Monkey.Proofs.ReadBack
import Monkey.Proofs.Parser.Chronicle
import Monkey.Proofs.Parser.Order
import Monkey.Proofs.Report.Hints
import Monkey.Proofs.Node.Dump
import Monkey.Proofs.Fnv
import Monkey.Proofs.Limit
