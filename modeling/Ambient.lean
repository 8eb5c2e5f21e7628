import Ambient.Main
import Ambient.Json.Tree
import Ambient.Source.Held
import Ambient.Workspace.Snapshot
import Ambient.Proofs.Catalogue.Ingest
import Ambient.Proofs.Document.Imports
import Ambient.Proofs.Refresh.Offers
import Ambient.Proofs.Refresh.Session
import Ambient.Proofs.Refresh.FirstRead
import Ambient.Proofs.Scanner.Ledger
import Ambient.Proofs.Scanner.Canonical
import Ambient.Proofs.ReExport.Entries
import Ambient.Proofs.ReExport.Together
import Ambient.Proofs.Scanner.Trace
import Ambient.Proofs.Scanner.Indent
import Ambient.Proofs.Content.Block
import Ambient.Proofs.Content.Standalone
import Ambient.Proofs.Content.Shared
import Ambient.Proofs.Catalogue.Representation
import Ambient.Proofs.Catalogue.SourceOrder
import Ambient.Proofs.Refresh.Balance
import Ambient.Proofs.ReExport.Namespaces
import Ambient.Proofs.Declaration.Markup
import Ambient.Proofs.Declaration.CallSkeleton
import Ambient.Proofs.Scanner.Wrapping
import Ambient.Proofs.Discovery.Contract
import Ambient.Proofs.Discovery.Depth
import Ambient.Proofs.Discovery.Skipped
import Ambient.Proofs.Document.Placement
import Ambient.Proofs.Scanner.OneLine
import Ambient.Proofs.Scanner.Boundary
import Ambient.Proofs.Scanner.States
import Ambient.Proofs.Advisor.Fixes
import Ambient.Proofs.ReExport.EmptyGroup
import Ambient.Proofs.Declaration.BareName
import Ambient.Proofs.Declaration.GenericList
import Ambient.Proofs.Declaration.Named
import Ambient.Proofs.Scanner.Bodies
import Ambient.Proofs.Advisor.Words
import Ambient.Proofs.Declaration.ParameterList
import Ambient.Proofs.Content.LineNumber
import Ambient.Proofs.Config.Kept
import Ambient.Proofs.Text.Slice
import Ambient.Proofs.Declaration.Annotations
import Ambient.Proofs.Declaration.Bounds
import Ambient.Proofs.Scanner.Offsets
import Ambient.Proofs.Advisor.Indices
