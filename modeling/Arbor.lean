import Arbor.Failure
import Arbor.Json.Reader
import Arbor.Json.Writer
import Arbor.Literal.Text
import Arbor.Proxy.Sorting
import Arbor.Query.Reader
import Arbor.Remote.Script
import Arbor.Settings.File
import Arbor.Settings.LogFilter
import Arbor.Yaml.Layer
import Arbor.Text.Shown
import Arbor.Text.Utf8
import Arbor.Value.Calendar
import Arbor.Value.Order
import Arbor.Proofs.Literal.RoundTrip
import Arbor.Proofs.Literal.Quoted
import Arbor.Proofs.Literal.Scan
import Arbor.Proofs.Literal.Length
import Arbor.Proofs.Literal.Writable
import Arbor.Proofs.Query.Written
import Arbor.Proofs.Query.RoundTrip
import Arbor.Proofs.Query.Reachable
import Arbor.Proofs.Query.Accepted
import Arbor.Proofs.Query.Respelled
import Arbor.Proofs.Query.Undecorated
import Arbor.Proofs.Query.Canonical
import Arbor.Proofs.Query.Growth
import Arbor.Proofs.Query.History
import Arbor.Proofs.Keyed
import Arbor.Proofs.Result
import Arbor.Proofs.Value.Order
import Arbor.Proofs.Value.Wire
import Arbor.Proofs.Value.Tagged
import Arbor.Proofs.Literal.Tagged
import Arbor.Proofs.Node
import Arbor.Proofs.Entry
import Arbor.Proofs.Action
import Arbor.Proofs.Session.Filtering
import Arbor.Proofs.Session.Wire
import Arbor.Proofs.Session.Rounds
import Arbor.Proofs.Session.Operations
import Arbor.Proofs.Session.VersionFirst
import Arbor.Proofs.Session.Sent
import Arbor.Proofs.Session.Waiting
import Arbor.Proofs.Session.Attempts
import Arbor.Proofs.Session.Destroyed
import Arbor.Proofs.Session.Attribute
import Arbor.Proofs.Session.Malformed
import Arbor.Proofs.Session.Binding
import Arbor.Proofs.Session.Cardinality
import Arbor.Proofs.Session.Schedule
import Arbor.Proofs.Session.Watching
import Arbor.Proofs.Proxy.Sorting
import Arbor.Proofs.Proxy.Registry
import Arbor.Proofs.Path
import Arbor.Proofs.Query.Address
import Arbor.Proofs.Proxy.Refresh
import Arbor.Proofs.Proxy.TypeName
import Arbor.Proofs.Session.Holding
import Arbor.Proofs.Proxy.Navigation
import Arbor.Proofs.Proxy.Ancestors
import Arbor.Proofs.Proxy.Properties
import Arbor.Proofs.Literal.Integer
import Arbor.Proofs.Settings.Completion
import Arbor.Proofs.Settings.Document
import Arbor.Proofs.Settings.Findings
import Arbor.Proofs.Settings.Version
import Arbor.Proofs.Yaml.Number
import Arbor.Proofs.Yaml.Line
import Arbor.Proofs.Yaml.Quoted
import Arbor.Proofs.Yaml.Plain
import Arbor.Proofs.Yaml.Block
import Arbor.Proofs.Yaml.Cut
import Arbor.Proofs.Yaml.Mapping
import Arbor.Proofs.Yaml.Document
import Arbor.Proofs.Yaml.Layer
import Arbor.Proofs.FileTree
import Arbor.Proofs.Settings.Storing
