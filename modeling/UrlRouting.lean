import UrlRouting.RouteTable.Config
import UrlRouting.RouteTable.Draft
import UrlRouting.Proofs.Pattern.Search
import UrlRouting.Proofs.Pattern.Rendering
import UrlRouting.Proofs.Pattern.TrailingSlash
import UrlRouting.Proofs.Pattern.Origin
import UrlRouting.Proofs.Pattern.Spelling
import UrlRouting.Proofs.Pattern.OwnSource
import UrlRouting.Proofs.Pattern.Alternatives
import UrlRouting.Proofs.Url.Href
import UrlRouting.Proofs.Url.Hostless
import UrlRouting.Proofs.Url.Skipped
import UrlRouting.Proofs.Url.NormalForm
import UrlRouting.Proofs.Url.DotSegments
import UrlRouting.Proofs.RouteTable.Leaves
import UrlRouting.Proofs.RouteTable.Runs
import UrlRouting.Proofs.RouteTable.Construction
import UrlRouting.Proofs.Pattern.WrittenForm
import UrlRouting.Proofs.Pattern.SourceSpelling
import UrlRouting.Proofs.Pattern.Parameters
import UrlRouting.Proofs.Url.BehindPath
import UrlRouting.Proofs.Pattern.QueryRoundTrip
import UrlRouting.Proofs.Pattern.BehindPath
import UrlRouting.Proofs.Url.Base
import UrlRouting.Proofs.Url.HostSpelling
import UrlRouting.Proofs.RouteTable.FirstBad
import UrlRouting.Proofs.RouteTable.Document
import UrlRouting.Proofs.RouteTable.Consistency
import UrlRouting.Proofs.RouteTable.Diagnostics
