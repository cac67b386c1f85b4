import CoSimBridge.Bus.IpAddress
import CoSimBridge.Bus.Memory
import CoSimBridge.Bus.Nats
import CoSimBridge.Bus.Url
import CoSimBridge.Can.Record
import CoSimBridge.Cli.Command
import CoSimBridge.Cli.Execute
import CoSimBridge.Cli.Files
import CoSimBridge.Cli.Flags
import CoSimBridge.Config.Basic
import CoSimBridge.Config.Check
import CoSimBridge.Config.Layout
import CoSimBridge.Config.Read
import CoSimBridge.Delivery.Buffer
import CoSimBridge.Delivery.Heap
import CoSimBridge.Delivery.Outbox
import CoSimBridge.Delivery.Window
import CoSimBridge.Duration
import CoSimBridge.Fault
import CoSimBridge.Fmu.Binding
import CoSimBridge.Fmu.Loopback
import CoSimBridge.Fmu.Model
import CoSimBridge.Fmu.Model.Xml
import CoSimBridge.Fmu.Native
import CoSimBridge.Fmu.Status
import CoSimBridge.Layout.Assembly
import CoSimBridge.Layout.Configure
import CoSimBridge.Layout.Pipeline
import CoSimBridge.Layout.Variable
import CoSimBridge.Log
import CoSimBridge.Main
import CoSimBridge.Metrics
import CoSimBridge.Name.Path
import CoSimBridge.Number.Binary
import CoSimBridge.Number.Convert
import CoSimBridge.Number.Read
import CoSimBridge.Number.Shortest
import CoSimBridge.Number.Text
import CoSimBridge.Session.Basic
import CoSimBridge.Session.Monitor
import CoSimBridge.Session.World
import CoSimBridge.Text.Base64
import CoSimBridge.Text.Case
import CoSimBridge.Text.Printable
import CoSimBridge.Text.Quote
import CoSimBridge.Text.Space
import CoSimBridge.Text.Utf8
import CoSimBridge.Transform
import CoSimBridge.Types.Descriptor
import CoSimBridge.Types.Kind
import CoSimBridge.Types.Registry
import CoSimBridge.Value
import CoSimBridge.Value.Cast
import CoSimBridge.Value.Shape
import CoSimBridge.Wire.Codec
import CoSimBridge.Wire.Reader
import CoSimBridge.Wire.Writer
import CoSimBridge.Xml.NameChar
import CoSimBridge.Xml.Token
import CoSimBridge.Xml.Tree
import CoSimBridge.Yaml.Decode
import CoSimBridge.Yaml.Document
import CoSimBridge.Yaml.Resolve
import CoSimBridge.Yaml.Scanner
import CoSimBridge.Proofs.Wire.Primitives
import CoSimBridge.Proofs.Wire.Conformance
import CoSimBridge.Proofs.Wire.RoundTrip
import CoSimBridge.Proofs.Number.Order
import CoSimBridge.Proofs.Delivery.HeapOrder
import CoSimBridge.Proofs.Delivery.Buckets
import CoSimBridge.Proofs.Delivery.LastPerKey
import CoSimBridge.Proofs.Delivery.Stage
import CoSimBridge.Proofs.Delivery.Stepped
import CoSimBridge.Proofs.Name.RoundTrip
import CoSimBridge.Proofs.Types.Canonical
import CoSimBridge.Proofs.Delivery.Representation
import CoSimBridge.Proofs.Wire.Reencode
import CoSimBridge.Proofs.Wire.Delimiting
import CoSimBridge.Proofs.Can.RoundTrip
import CoSimBridge.Proofs.Fmu.Packing
import CoSimBridge.Proofs.Delivery.Accounting
import CoSimBridge.Proofs.Session.Frame
import CoSimBridge.Proofs.Session.Serving
import CoSimBridge.Proofs.Session.Step
import CoSimBridge.Proofs.Session.AtMostOnce
import CoSimBridge.Proofs.Except
import CoSimBridge.Proofs.Types.Resolution
import CoSimBridge.Proofs.Fmu.Shapes
import CoSimBridge.Proofs.Layout.Placement
import CoSimBridge.Proofs.Session.Moves
import CoSimBridge.Proofs.Session.Courses
import CoSimBridge.Proofs.Session.Lifecycle
import CoSimBridge.Proofs.Layout.Description
import CoSimBridge.Proofs.Layout.Payload
import CoSimBridge.Proofs.Layout.Topics
import CoSimBridge.Proofs.Can.Framing
import CoSimBridge.Proofs.Cast.Integers
import CoSimBridge.Proofs.Number.Rational
import CoSimBridge.Proofs.Cast.Rounding
import CoSimBridge.Proofs.Layout.Writes
import CoSimBridge.Proofs.Layout.Subscriptions
import CoSimBridge.Proofs.Value.Nesting
import CoSimBridge.Proofs.Fmu.Slicing
import CoSimBridge.Proofs.Fmu.Dimensions
import CoSimBridge.Proofs.Layout.Effects
import CoSimBridge.Proofs.Session.Wiring
import CoSimBridge.Proofs.Session.CanReceive
import CoSimBridge.Proofs.Types.Binding
import CoSimBridge.Proofs.Delivery.FirstPutOrder
import CoSimBridge.Proofs.Delivery.Lockstep
import CoSimBridge.Proofs.Session.Offer
import CoSimBridge.Proofs.Session.Sample
import CoSimBridge.Proofs.Session.Publisher
import CoSimBridge.Proofs.Session.Subscriber
import CoSimBridge.Proofs.Session.Lockstep
