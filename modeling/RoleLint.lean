import RoleLint.Main
import RoleLint.Json.Reader
import RoleLint.Proofs.Place
import RoleLint.Proofs.Unwrap
import RoleLint.Proofs.Sites
import RoleLint.Proofs.Spans
import RoleLint.Proofs.Exactness
import RoleLint.Proofs.Editor
import RoleLint.Proofs.Ownership
import RoleLint.Proofs.Attribution
import RoleLint.Proofs.JsonText
import RoleLint.Proofs.WireForms
import RoleLint.Proofs.Agreement
import RoleLint.Proofs.RoundTrip
import RoleLint.Proofs.Comments
import RoleLint.Proofs.ConfigChoice
import RoleLint.Proofs.Outcomes
import RoleLint.Proofs.Position
import RoleLint.Proofs.Files
import RoleLint.Proofs.Init
import RoleLint.Proofs.Addresses
import RoleLint.Proofs.Scans
import RoleLint.Proofs.SiteOrder
import RoleLint.Proofs.Unshared
import RoleLint.Proofs.ByteOrder
import RoleLint.Proofs.ReportOrder
import RoleLint.Proofs.Declarations
import RoleLint.Proofs.Transparency
import RoleLint.Proofs.Faults
import RoleLint.Proofs.CompactLines
import RoleLint.Proofs.Layouts
import RoleLint.Proofs.DialectChoice
import RoleLint.Proofs.LineIndex
import RoleLint.Proofs.Columns
import RoleLint.Proofs.Traversal
import RoleLint.Proofs.ScopePartition
