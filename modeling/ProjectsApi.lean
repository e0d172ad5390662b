import ProjectsApi.Foundation.ThreadPool
import ProjectsApi.Api.CursorTokens
import ProjectsApi.Api.EditedTokens
import ProjectsApi.Registry.NameKeys
import ProjectsApi.System.Reservations
import ProjectsApi.System.Sequential
import ProjectsApi.System.Listing
import ProjectsApi.System.Isolation
import ProjectsApi.System.Records
import ProjectsApi.System.Linearizability
import ProjectsApi.System.Race
import ProjectsApi.System.Walks
import ProjectsApi.Provisioner.Delivery
import ProjectsApi.Provisioner.Expressions
import ProjectsApi.Provisioner.Replay
import ProjectsApi.Lifecycle.Safety
import ProjectsApi.Lifecycle.Retries
import ProjectsApi.OpenApi.PostProcessing
import ProjectsApi.Rollback.Default
import ProjectsApi.Http.Validation
import ProjectsApi.Stream.Redrive
import ProjectsApi.Stream.Pipeline
import ProjectsApi.Lifecycle.Metrics
import ProjectsApi.Lifecycle.Sessions
import ProjectsApi.Rollback.Walk
import ProjectsApi.Http.Identity
import ProjectsApi.OpenApi.Document
import ProjectsApi.OpenApi.Resolution
import ProjectsApi.Http.Contract
import ProjectsApi.Seeding.Idempotence
