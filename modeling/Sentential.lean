import Sentential.Argument.Enquiry
import Sentential.Log.Reading
import Sentential.Proofs.Argument.Row
import Sentential.Proofs.Argument.Entailment
import Sentential.Proofs.Sentence.Permissive
import Sentential.Proofs.Sentence.DepthLimit
import Sentential.Proofs.Formula.Reading
import Sentential.Proofs.Vocabulary.Lexeme
import Sentential.Proofs.Vocabulary.Splitting
import Sentential.Proofs.Sentence.Strict
import Sentential.Proofs.Sentence.Rendering
import Sentential.Proofs.Formula.Rendering
import Sentential.Proofs.Sentence.Lookahead
import Sentential.Proofs.Sentence.Viable
import Sentential.Proofs.Argument.Table
import Sentential.Proofs.Sentence.Nesting
import Sentential.Proofs.Formula.Depth
import Sentential.Proofs.Argument.Enquiry
import Sentential.Proofs.Argument.Session
import Sentential.Proofs.Argument.Counterexample
import Sentential.Proofs.Vocabulary.Unknown
import Sentential.Proofs.Sentence.Ambiguity
import Sentential.Proofs.Sentence.Levels
import Sentential.Proofs.Sentence.Evaluation
import Sentential.Proofs.Vocabulary.Definitions
import Sentential.Proofs.Vocabulary.Order
import Sentential.Proofs.Argument.AtomBound
import Sentential.Proofs.Argument.Deduction
import Sentential.Proofs.Vocabulary.Spacing
import Sentential.Proofs.Formula.Spelling
import Sentential.Proofs.Argument.Sentences
import Sentential.Proofs.Sentence.Brackets
import Sentential.Proofs.Circuit.Shape
import Sentential.Proofs.Sentence.Descent
import Sentential.Proofs.Sentence.Balance
import Sentential.Proofs.Token.Passing
