import NodeBootstrap.CloudConfig
import NodeBootstrap.Clock
import NodeBootstrap.CommandLine.Invocation
import NodeBootstrap.CommandLine.Option
import NodeBootstrap.DataUri
import NodeBootstrap.Decimal.Binary64
import NodeBootstrap.Decimal.Shortest
import NodeBootstrap.Failure
import NodeBootstrap.FileTree
import NodeBootstrap.Flag.Basic
import NodeBootstrap.Flag.Command
import NodeBootstrap.Flag.ShellWords
import NodeBootstrap.Health
import NodeBootstrap.Host
import NodeBootstrap.Ignition.Document
import NodeBootstrap.Ignition.Rule
import NodeBootstrap.Ignition.Walk
import NodeBootstrap.InstallLayout
import NodeBootstrap.IpAddress
import NodeBootstrap.Json.Basic
import NodeBootstrap.Json.Document
import NodeBootstrap.Json.Reader
import NodeBootstrap.Json.Writer
import NodeBootstrap.KubeletConfig.Fault
import NodeBootstrap.KubeletConfig.Members
import NodeBootstrap.KubeletConfig.Patch
import NodeBootstrap.KubeletConfig.Windows
import NodeBootstrap.Main
import NodeBootstrap.Node.Basic
import NodeBootstrap.Node.Cni
import NodeBootstrap.Node.Kubelet
import NodeBootstrap.OrderedMap
import NodeBootstrap.Path.Drive
import NodeBootstrap.Path.Slash
import NodeBootstrap.Program
import NodeBootstrap.Service.Control
import NodeBootstrap.Service.Manager
import NodeBootstrap.Service.Output
import NodeBootstrap.Settings.Basic
import NodeBootstrap.Settings.File
import NodeBootstrap.Text.Basic
import NodeBootstrap.Text.Blank
import NodeBootstrap.Text.Case
import NodeBootstrap.Text.Printable
import NodeBootstrap.Text.Quoted
import NodeBootstrap.Text.Utf8
import NodeBootstrap.Text.Word
import NodeBootstrap.Timestamp
import NodeBootstrap.UnitFile
import NodeBootstrap.Value
import NodeBootstrap.Value.Order
import NodeBootstrap.Yaml.Block
import NodeBootstrap.Yaml.Document
import NodeBootstrap.Yaml.Fault
import NodeBootstrap.Yaml.Layout
import NodeBootstrap.Yaml.Node
import NodeBootstrap.Yaml.Place
import NodeBootstrap.Yaml.Plain
import NodeBootstrap.Yaml.Quoted
import NodeBootstrap.Yaml.Scalar
import NodeBootstrap.Yaml.Token
import NodeBootstrap.Proofs.Outcome
import NodeBootstrap.Proofs.OrderedMap
import NodeBootstrap.Proofs.Text.Utf8
import NodeBootstrap.Proofs.Json.Strings
import NodeBootstrap.Proofs.Json.Numbers
import NodeBootstrap.Proofs.Json.Values
import NodeBootstrap.Proofs.Json.Locality
import NodeBootstrap.Proofs.Json.Written
import NodeBootstrap.Proofs.KubeletConfig.Substitution
import NodeBootstrap.Proofs.KubeletConfig.Pieces
import NodeBootstrap.Proofs.KubeletConfig.ObjectText
import NodeBootstrap.Proofs.KubeletConfig.Edit
import NodeBootstrap.Proofs.KubeletConfig.Scan
import NodeBootstrap.Proofs.KubeletConfig.Table
import NodeBootstrap.Proofs.KubeletConfig.Rewrite
import NodeBootstrap.Proofs.KubeletConfig.Meaning
import NodeBootstrap.Proofs.DrivePath
import NodeBootstrap.Proofs.KubeletConfig.Again
import NodeBootstrap.Proofs.KubeletConfig.Agreement
import NodeBootstrap.Proofs.Text.Blank
import NodeBootstrap.Proofs.Flag.Command
import NodeBootstrap.Proofs.Flag.ArgumentLine
import NodeBootstrap.Proofs.Path
import NodeBootstrap.Proofs.Step
import NodeBootstrap.Proofs.FileTree
import NodeBootstrap.Proofs.Ignition.Effects
import NodeBootstrap.Proofs.Ignition.Materialized
import NodeBootstrap.Proofs.Ignition.CollectedFlags
import NodeBootstrap.Proofs.Service.Output
import NodeBootstrap.Proofs.Service.Manager
import NodeBootstrap.Proofs.Service.Registration
import NodeBootstrap.Proofs.Service.Disturbance
import NodeBootstrap.Proofs.Service.Dialogue
import NodeBootstrap.Proofs.Node.CniFlags
import NodeBootstrap.Proofs.Node.CniArguments
import NodeBootstrap.Proofs.Node.CniFiles
import NodeBootstrap.Proofs.Node.CniInstall
import NodeBootstrap.Proofs.Node.CniConvergence
import NodeBootstrap.Proofs.Node.CniDialogue
import NodeBootstrap.Proofs.Program
import NodeBootstrap.Proofs.Keeps
import NodeBootstrap.Proofs.Pairs
import NodeBootstrap.Proofs.Service.Management
import NodeBootstrap.Proofs.FileTree.Operations
import NodeBootstrap.Proofs.FileTree.Changes
import NodeBootstrap.Proofs.FileTree.Beside
import NodeBootstrap.Proofs.Node.CniPlacing
import NodeBootstrap.Proofs.Node.CniPrecedence
import NodeBootstrap.Proofs.Ignition.Keeping
import NodeBootstrap.Proofs.Node.KubeletOrder
import NodeBootstrap.Proofs.Node.KubeletFiles
import NodeBootstrap.Proofs.Node.KubeletService
import NodeBootstrap.Proofs.Node.KubeletConvergence
import NodeBootstrap.Proofs.Node.KubeletFlags
import NodeBootstrap.Proofs.Node.KubeletLine
import NodeBootstrap.Proofs.Ignition.Kinds
import NodeBootstrap.Proofs.Ignition.Again
import NodeBootstrap.Proofs.Program.Installation
import NodeBootstrap.Proofs.DataUri
import NodeBootstrap.Proofs.Json.Ascii
import NodeBootstrap.Proofs.Ignition.CloudConfigFlag
import NodeBootstrap.Proofs.Ignition.UnitValidation
import NodeBootstrap.Proofs.KubeletConfig.Acceptance
import NodeBootstrap.Proofs.Flag.Words
import NodeBootstrap.Proofs.UnitFile
import NodeBootstrap.Proofs.Flag.RoundTrip
import NodeBootstrap.Proofs.Json.Parts
import NodeBootstrap.Proofs.Json.RoundTrip
import NodeBootstrap.Proofs.CloudConfig
import NodeBootstrap.Proofs.Health
import NodeBootstrap.Proofs.Service.Runs
import NodeBootstrap.Proofs.Service.Polling
import NodeBootstrap.Proofs.Service.ReadBack
import NodeBootstrap.Proofs.Node.CniCopies
