import Schematic.Component.Kind
import Schematic.Http.Service
import Schematic.Main
import Schematic.Session
import Schematic.Proofs.Json.Every
import Schematic.Proofs.Pod.Congruence
import Schematic.Proofs.Pod.Rendering
import Schematic.Proofs.Component.Contract
import Schematic.Proofs.Component.Resolution
import Schematic.Proofs.Component.Seen
import Schematic.Proofs.Component.YamlRoundTrip
import Schematic.Proofs.FileTree.Tree
import Schematic.Proofs.FileTree.Workspace
import Schematic.Proofs.CommandLine.Delivery
import Schematic.Proofs.CommandLine.Ending
import Schematic.Proofs.Component.Reading
import Schematic.Proofs.Http.Answering
import Schematic.Proofs.Component.Schema
import Schematic.Proofs.Component.Edit
import Schematic.Proofs.Component.Violation
import Schematic.Proofs.Component.Report
import Schematic.Proofs.Json.StrictData
import Schematic.Proofs.Value.Normal
import Schematic.Proofs.Yaml.Binding
import Schematic.Proofs.Component.Normal
import Schematic.Proofs.Component.Reload
import Schematic.Proofs.Component.Interference
import Schematic.Proofs.Component.Declarations
import Schematic.Proofs.Component.Failure
import Schematic.Proofs.CommandLine.Assignment
import Schematic.Proofs.Value.Decoding
import Schematic.Proofs.Component.Superset
