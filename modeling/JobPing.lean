import JobPing.SameUpToIds
import JobPing.PathAgreement
import JobPing.Redelivery
import JobPing.LocationProvenance
import JobPing.Batching
import JobPing.ClosureRace
import JobPing.Discovery
import JobPing.StatusHistory
import JobPing.Repetition
import JobPing.CachePreview
import JobPing.ContentHashes
import JobPing.ReportedOutcomes
import JobPing.RowProvenance
import JobPing.CommitOrder
import JobPing.CacheTransparency
import JobPing.DeliveryStatus
import JobPing.BounceReports
import JobPing.RecapBook
import JobPing.SendIdempotency
import JobPing.ProviderQuota
import JobPing.SharedCapacity
import JobPing.WindowEnds
import JobPing.RecapCompleteness
import JobPing.ScreeningAgreement
import JobPing.VerificationGate
import JobPing.EvidenceFencing
import JobPing.StreamCapacity
import JobPing.MigrationRoundTrip
import JobPing.DocumentReconciliation
import JobPing.LatestStatements
import JobPing.PolledDetails
import JobPing.EvidenceSpans
import JobPing.PayConflicts
import JobPing.LineEvidence
import JobPing.HashInputs
import JobPing.LocationConvergence
import JobPing.UrlSelection
import JobPing.RecapCutoffs
import JobPing.ClaimProgress
import JobPing.PatchRoundTrip
import JobPing.RowSurvival
import JobPing.SourceDates
import JobPing.SponsorshipMarkers
import JobPing.ContinuationCompanies
import JobPing.RequestRates
import JobPing.DomainRates
import JobPing.NetworkInterceptor
import JobPing.EmployerHistory
import JobPing.CompanyMatching
import JobPing.ProtectedQuestions
import JobPing.RepositorySessions
import JobPing.ExtractionReturns
import JobPing.IncrementalSync
import JobPing.LosslessRows
import JobPing.RowCells
import JobPing.LinkLabels
import JobPing.TrackerHistory
import JobPing.DirectoryCounts
import JobPing.HiddenContent
import JobPing.CanonicalUrls
import JobPing.ProxyPool
import JobPing.OutboundFetch
import JobPing.ResponseCache
import JobPing.LiveFeed
import JobPing.Pages
import JobPing.JobListing
import JobPing.StreamSupervision
import JobPing.StreamMessages
import JobPing.JsonText
import JobPing.JsonLoaded
import JobPing.EventStream
import JobPing.Directories
import JobPing.TrackerFiles
import JobPing.TrackerMoves
import JobPing.TrackerRefinement
