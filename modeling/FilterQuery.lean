import FilterQuery.Main
import FilterQuery.Proofs.Composition
import FilterQuery.Proofs.Lossless
import FilterQuery.Proofs.Marking
import FilterQuery.Proofs.Nesting
import FilterQuery.Proofs.Session.LastWrite
import FilterQuery.Proofs.Session.Submission
import FilterQuery.Proofs.Shape
import FilterQuery.Proofs.Spelling
import FilterQuery.Proofs.Suggestion
import FilterQuery.Proofs.Survival
import FilterQuery.Proofs.Blindness
import FilterQuery.Proofs.Evaluation
import FilterQuery.Proofs.Json.Numeral
import FilterQuery.Proofs.Json.Written
import FilterQuery.Proofs.Json.Depth
import FilterQuery.Proofs.Wire
import FilterQuery.Proofs.Backslash
import FilterQuery.Proofs.Finality
import FilterQuery.Proofs.Balance
import FilterQuery.Proofs.Replacement
import FilterQuery.Proofs.CursorBehind
import FilterQuery.Proofs.Separation
import FilterQuery.Proofs.ReadBack
import FilterQuery.Proofs.Lookup
import FilterQuery.Proofs.PrintedCursor
import FilterQuery.Proofs.Division
import FilterQuery.Proofs.Respacing
import FilterQuery.Proofs.DateCall
import FilterQuery.Proofs.Request
import FilterQuery.Proofs.Validation
import FilterQuery.Proofs.SameShape
import FilterQuery.Proofs.Recovery
import FilterQuery.Proofs.GroupDepth
import FilterQuery.Proofs.Call
