import ProcessSpaces.Arity
import ProcessSpaces.Formula
import ProcessSpaces.Lexer
import ProcessSpaces.Machine
import ProcessSpaces.Main
import ProcessSpaces.Proofs.OperatorTables
import ProcessSpaces.Proofs.UniqueReading
import ProcessSpaces.Proofs.Coincidence
import ProcessSpaces.Proofs.StackReading
import ProcessSpaces.Proofs.Replacement
import ProcessSpaces.Proofs.Substitution
import ProcessSpaces.Proofs.Causes
import ProcessSpaces.Proofs.OperandCount
import ProcessSpaces.Proofs.Spelling
import ProcessSpaces.Proofs.Lexing
import ProcessSpaces.Proofs.Place
import ProcessSpaces.Proofs.Tabulation
import ProcessSpaces.Proofs.StaticKinds
import ProcessSpaces.Proofs.Logging
import ProcessSpaces.Proofs.Validity
import ProcessSpaces.Proofs.Reports
import ProcessSpaces.Proofs.Scripts
import ProcessSpaces.Proofs.Surroundings
import ProcessSpaces.Proofs.Insertions
import ProcessSpaces.Valuation.Traversal
import ProcessSpaces.Proofs.Enumeration
import ProcessSpaces.Proofs.Traversal
import ProcessSpaces.Proofs.RowText
import ProcessSpaces.Proofs.Checking
import ProcessSpaces.Proofs.Spans
import ProcessSpaces.Proofs.OrderedMap
import ProcessSpaces.Proofs.Agreement
import ProcessSpaces.Proofs.Renaming
import ProcessSpaces.Proofs.RowReading
import ProcessSpaces.Proofs.Precedence
import ProcessSpaces.Proofs.Polarity
import ProcessSpaces.Proofs.Duality
import ProcessSpaces.Proofs.AnswerLines
import ProcessSpaces.Proofs.Occurrences
import ProcessSpaces.Valuation.Counting
import ProcessSpaces.Proofs.Counting
