import ClusterClient.Loopback
import ClusterClient.Proofs.Convergence
import ClusterClient.Proofs.Lone
import ClusterClient.Routing.Session
import ClusterClient.Proofs.Exhaustion
import ClusterClient.Proofs.Overtaking
import ClusterClient.Proofs.Withdrawal
import ClusterClient.Proofs.Requests
import ClusterClient.Proofs.Utf8
import ClusterClient.Proofs.Addressing
import ClusterClient.Proofs.Receipts
import ClusterClient.Proofs.Separation
import ClusterClient.Proofs.Building
import ClusterClient.Proofs.Grammar
import ClusterClient.Proofs.Numerals
import ClusterClient.Proofs.Lexing
import ClusterClient.Proofs.Strings
import ClusterClient.Proofs.Parsing
import ClusterClient.Proofs.Members
import ClusterClient.Proofs.Classification
import ClusterClient.Proofs.DotSegments
import ClusterClient.Proofs.Digits
import ClusterClient.Proofs.Rounding
import ClusterClient.Proofs.Precision
import ClusterClient.Proofs.ShortestDecimal
import ClusterClient.Proofs.NumberText
import ClusterClient.Proofs.Singles
import ClusterClient.Proofs.Writing
import ClusterClient.Proofs.Replies
import ClusterClient.Proofs.Records
import ClusterClient.Proofs.Events
import ClusterClient.Proofs.Dates
import ClusterClient.Proofs.Timestamps
import ClusterClient.Proofs.Queries
import ClusterClient.Proofs.Layout
import ClusterClient.Proofs.MemberOrder
import ClusterClient.Proofs.Compatibility
import ClusterClient.Proofs.Complaints
import ClusterClient.Proofs.Hits
import ClusterClient.Proofs.Construction
import ClusterClient.Proofs.TimeLimits
import ClusterClient.Proofs.Endpoints
import ClusterClient.Proofs.Journal
import ClusterClient.Proofs.Spellings
