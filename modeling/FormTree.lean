import FormTree.Branch
import FormTree.Config
import FormTree.Config.Document
import FormTree.Config.Fields
import FormTree.Cursor
import FormTree.Cursor.Comparison
import FormTree.Cursor.DocumentOrder
import FormTree.Cursor.Edit
import FormTree.Cursor.Trail
import FormTree.Failure
import FormTree.Json
import FormTree.Json.Reading
import FormTree.Json.Token
import FormTree.Literal
import FormTree.Literal.Order
import FormTree.Moves
import FormTree.Node
import FormTree.Number.Binary64
import FormTree.Number.Numeral
import FormTree.Number.Shortest
import FormTree.Proofs.Bearings
import FormTree.Proofs.Commuting
import FormTree.Proofs.Editor
import FormTree.Proofs.Enumeration
import FormTree.Proofs.Faults
import FormTree.Proofs.Formatting
import FormTree.Proofs.Forms
import FormTree.Proofs.Frames
import FormTree.Proofs.Guises
import FormTree.Proofs.Invariants
import FormTree.Proofs.KeyOrder
import FormTree.Proofs.Layout
import FormTree.Proofs.Likeness
import FormTree.Proofs.Lockstep
import FormTree.Proofs.Matching
import FormTree.Proofs.Mirror
import FormTree.Proofs.Place
import FormTree.Proofs.Positions
import FormTree.Proofs.Readings
import FormTree.Proofs.Renaming
import FormTree.Proofs.Reordering
import FormTree.Proofs.Repetition
import FormTree.Proofs.Retracing
import FormTree.Proofs.Rewriting
import FormTree.Proofs.RoundTrip
import FormTree.Proofs.Routes
import FormTree.Proofs.Runs
import FormTree.Proofs.Searching
import FormTree.Proofs.Separators
import FormTree.Proofs.Siblings
import FormTree.Proofs.Skeleton
import FormTree.Proofs.Splicing
import FormTree.Proofs.Standing
import FormTree.Proofs.Strays
import FormTree.Proofs.Surface
import FormTree.Proofs.Trails
import FormTree.Proofs.Walk
import FormTree.Proofs.Wandering
import FormTree.Proofs.WellSpaced
import FormTree.Row
import FormTree.Search
import FormTree.Session
import FormTree.Shapes
import FormTree.Spacing
import FormTree.Text
import FormTree.Text.Blank
import FormTree.Text.Capital
import FormTree.Text.Printable
import FormTree.Text.Quoted
import FormTree.Value
import FormTree.Value.Equality
import FormTree.Value.Membership
import FormTree.Value.Placed
import FormTree.Value.Printed
