import Raml.Main
import Raml.Proofs.Load.LineBreaks
import Raml.Proofs.Load.Spliced
import Raml.Proofs.Merge.Accumulated
import Raml.Proofs.Merge.Again
import Raml.Proofs.Merge.Qualified
import Raml.Proofs.Merge.Standing
import Raml.Proofs.Merge.Turns
import Raml.Proofs.Normal.Fold
import Raml.Proofs.Resolution.Captured
import Raml.Proofs.Resolution.Inner
import Raml.Proofs.Resolution.Keyed
import Raml.Proofs.Resolution.Normal
import Raml.Proofs.Resolution.Optional
import Raml.Proofs.Resolution.Own
import Raml.Proofs.Resolution.Undeclared
import Raml.Proofs.Load.Requests
import Raml.Proofs.Decimal.Rounding
import Raml.Proofs.Decimal.Packed
import Raml.Proofs.Decimal.Shortest
import Raml.Proofs.Json.Number
import Raml.Proofs.Json.Quoted
import Raml.Proofs.Json.Written
import Raml.Proofs.Text.Utf8
import Raml.Proofs.Store.Disk
import Raml.Proofs.Value.Mapping
import Raml.Proofs.Settings.Key
import Raml.Proofs.Session.Steps
import Raml.Proofs.Shape.Printed
import Raml.Proofs.Shape.Unions
import Raml.Proofs.Document.Paths
import Raml.Proofs.Template.Stages
import Raml.Proofs.Settings.File
import Raml.Proofs.Session.Kept
import Raml.Proofs.Settings.Effective
import Raml.Proofs.Settings.Layers
import Raml.Proofs.Settings.Reported
import Raml.Proofs.Command.Lines
import Raml.Proofs.Command.Given
import Raml.Proofs.Command.Failed
import Raml.Proofs.Command.Accepted
import Raml.Proofs.Command.Tables
import Raml.Proofs.Command.Dumped
import Raml.Proofs.Command.Stored
