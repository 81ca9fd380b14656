import Calculator.Expression.Listing
import Calculator.Keypad
import Calculator.Main
import Calculator.Proofs.Derivation
import Calculator.Proofs.Reading
import Calculator.Proofs.Verdict
import Calculator.Proofs.Binary64
import Calculator.Proofs.Decimal
import Calculator.Proofs.Scanning
import Calculator.Proofs.Printing
import Calculator.Proofs.Position
import Calculator.Proofs.Location
import Calculator.Proofs.Offsets
import Calculator.Proofs.Concatenation
import Calculator.Proofs.Composition
import Calculator.Proofs.Nesting
import Calculator.Proofs.Counter
import Calculator.Proofs.Session
import Calculator.Proofs.Run
import Calculator.Proofs.FileRun
import Calculator.Proofs.Evaluation
import Calculator.Proofs.Degrees
import Calculator.Proofs.Respelling
import Calculator.Proofs.Redisplay
import Calculator.Proofs.Machine
import Calculator.Proofs.Threshold
import Calculator.Proofs.Dashes
import Calculator.Proofs.Logging
import Calculator.Proofs.Assignment
import Calculator.Proofs.Yield
import Calculator.Proofs.Agreement
import Calculator.Proofs.Formatting
import Calculator.Proofs.Factorial
import Calculator.Proofs.Overflow
