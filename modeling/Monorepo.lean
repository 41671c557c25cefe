import Monorepo.Command.Arguments
import Monorepo.Command.Report
import Monorepo.Command.Run
import Monorepo.Config.Basic
import Monorepo.Config.Decode
import Monorepo.Environment
import Monorepo.FileSystem.Basic
import Monorepo.FileSystem.Query
import Monorepo.FileSystem.Walk
import Monorepo.Glob.Pattern
import Monorepo.Glob.Walk
import Monorepo.Json.Basic
import Monorepo.Json.Guided
import Monorepo.Json.Printer
import Monorepo.Json.Reader
import Monorepo.Json.Record
import Monorepo.Json.Scan
import Monorepo.Manifest
import Monorepo.Package
import Monorepo.Path.Basic
import Monorepo.Path.Normal
import Monorepo.Project
import Monorepo.Proofs.Command.Arguments
import Monorepo.Proofs.Command.Directory
import Monorepo.Proofs.Config
import Monorepo.Proofs.Config.BareList
import Monorepo.Proofs.Config.Decode
import Monorepo.Proofs.Config.Written
import Monorepo.Proofs.FileSystem.Children
import Monorepo.Proofs.FileSystem.Course
import Monorepo.Proofs.FileSystem.Directory
import Monorepo.Proofs.FileSystem.Missing
import Monorepo.Proofs.FileSystem.RealPath
import Monorepo.Proofs.FileSystem.Standpoint
import Monorepo.Proofs.FileSystem.Trimmed
import Monorepo.Proofs.FileSystem.Walk
import Monorepo.Proofs.Glob
import Monorepo.Proofs.Glob.Children
import Monorepo.Proofs.Glob.Quoted
import Monorepo.Proofs.Json.Printer
import Monorepo.Proofs.Json.Reader
import Monorepo.Proofs.Json.Record
import Monorepo.Proofs.Json.Repeats
import Monorepo.Proofs.Json.Scan
import Monorepo.Proofs.Outcome
import Monorepo.Proofs.Path.Below
import Monorepo.Proofs.Path.Component
import Monorepo.Proofs.Path.Location
import Monorepo.Proofs.Path.Lossy
import Monorepo.Proofs.Path.Normal
import Monorepo.Proofs.Path.NormalForm
import Monorepo.Proofs.Path.Parent
import Monorepo.Proofs.Path.Place
import Monorepo.Proofs.Path.Route
import Monorepo.Proofs.Path.Segment
import Monorepo.Proofs.Path.Shortest
import Monorepo.Proofs.Path.Within
import Monorepo.Proofs.Project
import Monorepo.Proofs.Project.Directory
import Monorepo.Proofs.Project.Nearest
import Monorepo.Proofs.Project.Place
import Monorepo.Proofs.Project.Precedence
import Monorepo.Proofs.Project.Standpoint
import Monorepo.Proofs.Project.Workspace
import Monorepo.Proofs.Registry
import Monorepo.Proofs.Registry.Listing
import Monorepo.Proofs.Registry.Manifest
import Monorepo.Proofs.Registry.Standpoint
import Monorepo.Proofs.Resolver.Agreement
import Monorepo.Proofs.Resolver.AliasRequest
import Monorepo.Proofs.Resolver.BareImport
import Monorepo.Proofs.Resolver.Between
import Monorepo.Proofs.Resolver.Canonical
import Monorepo.Proofs.Resolver.Containment
import Monorepo.Proofs.Resolver.Destination
import Monorepo.Proofs.Resolver.Finding
import Monorepo.Proofs.Resolver.LinkedRoot
import Monorepo.Proofs.Resolver.Malformed
import Monorepo.Proofs.Resolver.Mode
import Monorepo.Proofs.Resolver.Order
import Monorepo.Proofs.Resolver.OwnName
import Monorepo.Proofs.Resolver.PackageAlias
import Monorepo.Proofs.Resolver.Questions
import Monorepo.Proofs.Resolver.RealFile
import Monorepo.Proofs.Resolver.Record
import Monorepo.Proofs.Resolver.RelativeTarget
import Monorepo.Proofs.Resolver.Relocation
import Monorepo.Proofs.Resolver.Spelling
import Monorepo.Proofs.Resolver.Standpoint
import Monorepo.Proofs.Resolver.TrailingSlash
import Monorepo.Proofs.Resolver.Warning
import Monorepo.Proofs.Specifier
import Monorepo.Proofs.Text.Utf8
import Monorepo.Registry
import Monorepo.Resolver.Basic
import Monorepo.Resolver.Probe
import Monorepo.Resolver.Tools
import Monorepo.Resolver.Trace
import Monorepo.Settings
import Monorepo.Specifier
import Monorepo.Text.Quoted
import Monorepo.Text.Unprintable
import Monorepo.Text.Utf8
