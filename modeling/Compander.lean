import Compander.Arithmetic
import Compander.Binary
import Compander.Bisection
import Compander.Buffer
import Compander.Clock
import Compander.Command
import Compander.Command.Catalogue
import Compander.Command.Reading
import Compander.Command.Report
import Compander.Command.Running
import Compander.Command.Tables
import Compander.Command.Words
import Compander.Decibel
import Compander.Decimal.Reader
import Compander.Decimal.Shortest
import Compander.Decimal.Spelling
import Compander.Device
import Compander.Elementary.Angle
import Compander.Elementary.Exponential
import Compander.Elementary.Logarithm
import Compander.Fault
import Compander.Files
import Compander.Files.Folder
import Compander.Floating
import Compander.Follower
import Compander.Lookahead
import Compander.Loudness
import Compander.Memory
import Compander.Main
import Compander.Parameters
import Compander.Parameters.OptionText
import Compander.Preset
import Compander.Preset.Document
import Compander.Preset.Factory
import Compander.Preset.Library
import Compander.Proofs.Clock.Drift
import Compander.Proofs.Device.Queues
import Compander.Proofs.Device.Range
import Compander.Proofs.Device.Run
import Compander.Proofs.Device.Signal
import Compander.Proofs.Device.Stamps
import Compander.Proofs.Device.Step
import Compander.Proofs.Exact.Reals
import Compander.Proofs.Floating.Single
import Compander.Proofs.Follower.History
import Compander.Proofs.Lookahead.Queue
import Compander.Proofs.Session.Balance
import Compander.Proofs.Transfer.Corners
import Compander.Proofs.Transfer.Knots
import Compander.Proofs.Transfer.Search
import Compander.Session
import Compander.SetupError
import Compander.Sink
import Compander.Text.Blank
import Compander.Text.Json
import Compander.Toml.Document
import Compander.Toml.Quoted
import Compander.Toml.Reader
import Compander.Toml.Scalar
import Compander.Toml.Value
import Compander.Transfer
import Compander.Transfer.Corner
import Compander.Transfer.Knot
import Compander.Transfer.Piece
import Compander.Wave.Container
import Compander.Wave.Format
import Compander.Wave.Reader
import Compander.Wave.Sample
import Compander.Wave.Writer
import Compander.Proofs.Floating.Order
import Compander.Proofs.Transfer.Order
import Compander.Proofs.Transfer.Legs
import Compander.Proofs.Transfer.Continuity
import Compander.Proofs.Transfer.Monotone
import Compander.Proofs.Transfer.Interpolation
import Compander.Proofs.Transfer.Accuracy
import Compander.Proofs.Floating.Double
import Compander.Proofs.Parameters.Checks
import Compander.Proofs.Device.History
import Compander.Proofs.Device.Setup
import Compander.Proofs.Device.Channels
import Compander.Proofs.Floating.Bits
import Compander.Proofs.Floating.Nearest
import Compander.Proofs.Decimal.Reader
import Compander.Proofs.Decimal.Shortest
import Compander.Proofs.Decimal.Spelling
import Compander.Proofs.Text.Pieces
import Compander.Proofs.Parameters.OptionText
import Compander.Proofs.Parameters.Layers
import Compander.Proofs.Device.Sources
import Compander.Proofs.Toml.Quoted
import Compander.Proofs.Toml.Scalar
import Compander.Proofs.Toml.Lines
import Compander.Proofs.Preset.Document
import Compander.Proofs.Lookahead.Fifo
import Compander.Proofs.Session.Faults
import Compander.Proofs.Buffer.Interleaving
import Compander.Proofs.Session.Render
import Compander.Proofs.Command.Processing
import Compander.Proofs.Floating.Packing
import Compander.Proofs.Floating.Values
import Compander.Proofs.Wave.Samples
import Compander.Proofs.Wave.Container
import Compander.Proofs.Wave.Header
import Compander.Proofs.Wave.RoundTrip
import Compander.Proofs.Device.Drain
import Compander.Proofs.Transfer.Raised
import Compander.Proofs.Transfer.Merging
import Compander.Proofs.Floating.Rounding
import Compander.Proofs.Floating.Bounds
import Compander.Proofs.Floating.Angles
import Compander.Proofs.Floating.Narrow
import Compander.Proofs.Transfer.Finite
import Compander.Proofs.Parameters.LastValues
import Compander.Proofs.Parameters.BareItems
import Compander.Proofs.Clock.Words
import Compander.Proofs.Follower.Response
import Compander.Proofs.Buffer.Frames
import Compander.Proofs.Transfer.Readings
