import PhpFrontEnd.Intern.Pool
import PhpFrontEnd.Main
import PhpFrontEnd.Tree.Literal
import PhpFrontEnd.Tree.Transform
import PhpFrontEnd.Writer.Tree
import PhpFrontEnd.Proofs.BodyEnd
import PhpFrontEnd.Proofs.Move
import PhpFrontEnd.Proofs.Scan
import PhpFrontEnd.Proofs.Tiling
import PhpFrontEnd.Proofs.Encoding
import PhpFrontEnd.Proofs.Nesting
import PhpFrontEnd.Proofs.Resume
import PhpFrontEnd.Proofs.Decoding
import PhpFrontEnd.Proofs.LineStart
import PhpFrontEnd.Proofs.ResumeInBody
import PhpFrontEnd.Proofs.History
import PhpFrontEnd.Proofs.IntegerValue
import PhpFrontEnd.Proofs.Modes
import PhpFrontEnd.Proofs.Values
import PhpFrontEnd.Proofs.QuotedText
import PhpFrontEnd.Proofs.Reports
import PhpFrontEnd.Proofs.BodyLines
import PhpFrontEnd.Proofs.NowdocText
import PhpFrontEnd.Proofs.HeredocText
import PhpFrontEnd.Proofs.LineEndSteps
import PhpFrontEnd.Proofs.LineEndsInCode
import PhpFrontEnd.Proofs.LineEndsInText
import PhpFrontEnd.Proofs.LineEndsInBodies
import PhpFrontEnd.Proofs.LineEndsInScans
import PhpFrontEnd.Proofs.PendingDoc
import PhpFrontEnd.Proofs.Traversal
import PhpFrontEnd.Proofs.ShownEvents
import PhpFrontEnd.Proofs.WriterProtocol
import PhpFrontEnd.Proofs.WrittenTree
import PhpFrontEnd.Proofs.BodyPieces
import PhpFrontEnd.Proofs.SharedIndentation
import PhpFrontEnd.Proofs.OrderedBag
import PhpFrontEnd.Proofs.PlainDecoding
import PhpFrontEnd.Proofs.TextPool
import PhpFrontEnd.Proofs.NumberTokens
import PhpFrontEnd.Proofs.IntegerTokens
import PhpFrontEnd.Proofs.Separators
import PhpFrontEnd.Proofs.StringForms
import PhpFrontEnd.Proofs.RaggedBodies
import PhpFrontEnd.Proofs.FragmentChecks
import PhpFrontEnd.Proofs.UnderIndented
import PhpFrontEnd.Proofs.RealTokens
import PhpFrontEnd.Proofs.Neighbours
import PhpFrontEnd.Proofs.TextRuns
import PhpFrontEnd.Proofs.AfterArrows
import PhpFrontEnd.Proofs.HeredocLineEnds
import PhpFrontEnd.Proofs.OffsetNumbers
import PhpFrontEnd.Proofs.NameHashes
import PhpFrontEnd.Proofs.WellFormedText
import PhpFrontEnd.Proofs.WrittenNames
import PhpFrontEnd.Proofs.IntegerWords
import PhpFrontEnd.Proofs.DedentedLines
import PhpFrontEnd.Proofs.LabelSearches
