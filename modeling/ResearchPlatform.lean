import ResearchPlatform.Library.Machines
import ResearchPlatform.Library.RowVersions
import ResearchPlatform.DocumentService
import ResearchPlatform.JobService
import ResearchPlatform.WorkerMachine
import ResearchPlatform.WorkerInvariants
import ResearchPlatform.WorkerRuns
import ResearchPlatform.ExactlyOnce
import ResearchPlatform.Stranding
import ResearchPlatform.Reuploads
import ResearchPlatform.UploadRaces
import ResearchPlatform.TenantService
import ResearchPlatform.TokenRotation
import ResearchPlatform.LastAdmin
import ResearchPlatform.RetrievalService
import ResearchPlatform.EvaluationService
import ResearchPlatform.Library.OwnedRows
import ResearchPlatform.ParallelRetrieval
import ResearchPlatform.TenantPlane
import ResearchPlatform.FrontEnds
import ResearchPlatform.JobHistories
import ResearchPlatform.LiveClaims
import ResearchPlatform.Deletions
import ResearchPlatform.Ownership
import ResearchPlatform.Retries
import ResearchPlatform.UploadConvergence
import ResearchPlatform.TenantContexts
import ResearchPlatform.StoredFiles
import ResearchPlatform.SoftDeletion
import ResearchPlatform.CircuitBreaker
import ResearchPlatform.LlmGateway
import ResearchPlatform.GatewayCircuit
import ResearchPlatform.GatewayBounds
import ResearchPlatform.InviteProvenance
import ResearchPlatform.Invitations
import ResearchPlatform.TextChunker
import ResearchPlatform.ChunkSlices
import ResearchPlatform.ChunkWords
import ResearchPlatform.ChunkOverlap
import ResearchPlatform.SemanticChunker
import ResearchPlatform.Library.FixedWindows
import ResearchPlatform.RateLimit
import ResearchPlatform.Library.KeysetPages
import ResearchPlatform.Pagination
import ResearchPlatform.SearchFrontEnds
import ResearchPlatform.Library.Joins
import ResearchPlatform.Migration
import ResearchPlatform.Library.Base64
import ResearchPlatform.Library.Json
import ResearchPlatform.Cursors
import ResearchPlatform.ListingRoutes
import ResearchPlatform.FailedUploads
import ResearchPlatform.LiveAnswers
import ResearchPlatform.InviteOutcomes
import ResearchPlatform.Library.Cuttings
import ResearchPlatform.Library.Percentiles
import ResearchPlatform.SemanticGroups
import ResearchPlatform.SemanticThresholds
import ResearchPlatform.Library.Tallies
import ResearchPlatform.RankFusion
import ResearchPlatform.OverlapRanks
import ResearchPlatform.HardSplit
import ResearchPlatform.Library.CaseMappings
import ResearchPlatform.AuthService
import ResearchPlatform.ApiKeyAuthentication
import ResearchPlatform.ExpiredTokens
import ResearchPlatform.Library.Runs
import ResearchPlatform.OrganizationCreation
import ResearchPlatform.StringMethods
import ResearchPlatform.EvaluatorVerdict
import ResearchPlatform.GradeParsing
import ResearchPlatform.Platform
import ResearchPlatform.MigrationRollback
import ResearchPlatform.ClaimMetadata
import ResearchPlatform.SlugNormalForm
import ResearchPlatform.Credentials
import ResearchPlatform.CredentialRuns
import ResearchPlatform.FirstLogins
import ResearchPlatform.CredentialChains
import ResearchPlatform.Library.Backlogs
import ResearchPlatform.ChunkProvenance
import ResearchPlatform.QueueDrain
import ResearchPlatform.Library.Utf8
import ResearchPlatform.TenantAccess
import ResearchPlatform.TextExtraction
import ResearchPlatform.TenantPolicies
import ResearchPlatform.Observability
