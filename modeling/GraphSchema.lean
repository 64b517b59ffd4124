import GraphSchema.Fragment.Builder
import GraphSchema.Main
import GraphSchema.Proofs.Abort
import GraphSchema.Proofs.Assignment
import GraphSchema.Proofs.Categories
import GraphSchema.Proofs.Containment.Shared
import GraphSchema.Proofs.Containment.Stack
import GraphSchema.Proofs.Descent.Progress
import GraphSchema.Proofs.Export.Alphabet
import GraphSchema.Proofs.Export.Injective
import GraphSchema.Proofs.Impurity
import GraphSchema.Proofs.Order.Independence
import GraphSchema.Proofs.Redeclared
import GraphSchema.Proofs.Resolution
import GraphSchema.Proofs.RoundTrip
import GraphSchema.Proofs.Scan.Followed
import GraphSchema.Proofs.Scan.Rejected
import GraphSchema.Proofs.Schedule
import GraphSchema.Proofs.Types.Agreement
import GraphSchema.Proofs.Unions
import GraphSchema.Proofs.Unread
import GraphSchema.Proofs.Validate.Columns
import GraphSchema.Proofs.Validate.Exported
import GraphSchema.Text.Quoted
