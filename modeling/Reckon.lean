import Reckon.Batch.Crew
import Reckon.Expression.Record
import Reckon.Main
import Reckon.Proofs.Grammar
import Reckon.Proofs.Reading
import Reckon.Proofs.Folding
import Reckon.Proofs.Contract
import Reckon.Proofs.Outcomes
import Reckon.Proofs.Passes
import Reckon.Proofs.Runs
import Reckon.Proofs.Answers
import Reckon.Proofs.Spacing
import Reckon.Proofs.Resumption
import Reckon.Proofs.Magnitude
import Reckon.Proofs.Window
import Reckon.Proofs.Messages
import Reckon.Proofs.LineIdentity
import Reckon.Proofs.Encoding
import Reckon.Proofs.Frames
import Reckon.Proofs.Unpacking
import Reckon.Proofs.Storage
import Reckon.Proofs.FileLines
import Reckon.Proofs.Completion
import Reckon.Proofs.ExitCodes
import Reckon.Proofs.IllegalCharacters
import Reckon.Proofs.Rendering
import Reckon.Proofs.Formats
import Reckon.Proofs.LineValues
import Reckon.Proofs.Queue
import Reckon.Proofs.Stages
import Reckon.Proofs.Places
import Reckon.Proofs.Order
import Reckon.Proofs.Trace
import Reckon.Proofs.ContentLines
import Reckon.Proofs.Rewriting
import Reckon.Proofs.Appending
import Reckon.Proofs.Delivery
import Reckon.Proofs.Crews
import Reckon.Proofs.Quotients
import Reckon.Proofs.Removal
import Reckon.Proofs.Suffixes
import Reckon.Proofs.Readers
import Reckon.Proofs.ResultsPaths
