import SecurityScan.Scan
import SecurityScan.Source.Report
import SecurityScan.Config.Load
import SecurityScan.Config.LogFilter
import SecurityScan.Text.Utf8
import SecurityScan.Http.Status
import SecurityScan.Http.Header
import SecurityScan.Review.Client
import SecurityScan.Service.Answer
import SecurityScan.Proofs.Expansion
import SecurityScan.Proofs.Cache
import SecurityScan.Proofs.Listing
import SecurityScan.Proofs.Reach
import SecurityScan.Proofs.Exposure
import SecurityScan.Proofs.RootFindings
import SecurityScan.Proofs.Calls
import SecurityScan.Proofs.Grammar
import SecurityScan.Proofs.Concatenation
import SecurityScan.Proofs.LineEnds
import SecurityScan.Proofs.Silence
import SecurityScan.Proofs.Collaborators
import SecurityScan.Proofs.CompactForm
import SecurityScan.Proofs.Lossless
import SecurityScan.Proofs.Layering
import SecurityScan.Proofs.Configured
import SecurityScan.Proofs.Provenance
import SecurityScan.Proofs.Bookkeeping
import SecurityScan.Proofs.Unsecured
import SecurityScan.Proofs.MatchedText
import SecurityScan.Proofs.ReportedLine
import SecurityScan.Proofs.Enumeration
import SecurityScan.Proofs.RateLimits
import SecurityScan.Proofs.Filling
import SecurityScan.Proofs.FailureText
import SecurityScan.Proofs.Unsendable
import SecurityScan.Proofs.ExampleChoice
import SecurityScan.Proofs.WordsInLine
import SecurityScan.Proofs.Suggestions
import SecurityScan.Proofs.Untagged
