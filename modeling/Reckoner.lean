import Reckoner.Main
import Reckoner.Proofs.Parsing
import Reckoner.Proofs.Recursion
import Reckoner.Proofs.Reloading
import Reckoner.Proofs.Evaluation
import Reckoner.Proofs.Substitution
import Reckoner.Proofs.Origins
import Reckoner.Proofs.Scope
import Reckoner.Proofs.Grounding
import Reckoner.Proofs.KeptTree
import Reckoner.Proofs.Interference
import Reckoner.Proofs.Ordering
import Reckoner.Proofs.Printing
import Reckoner.Proofs.Listings
import Reckoner.Proofs.Records
import Reckoner.Proofs.Definable
import Reckoner.Proofs.Modes
import Reckoner.Proofs.Failing
import Reckoner.Proofs.Shape
import Reckoner.Proofs.Contents
import Reckoner.Proofs.Readback
import Reckoner.Proofs.Digits
import Reckoner.Proofs.DigitRounding
import Reckoner.Proofs.Signs
import Reckoner.Proofs.Reading
import Reckoner.Proofs.Spans
import Reckoner.Proofs.Diagnoses
import Reckoner.Proofs.Spacing
import Reckoner.Proofs.RealResults
