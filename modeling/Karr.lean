import Karr.ContainerIds
import Karr.AgentDelete
import Karr.Leftovers
import Karr.LostContainers
import Karr.Invariants.InFlight
import Karr.Registrations
import Karr.StatusAgreement
import Karr.StatusMessage
import Karr.Chunking
import Karr.Truncation
import Karr.Reconcile
import Karr.ForcedDelete
import Karr.ErrorContract
import Karr.DeleteOutcome
import Karr.Registering
import Karr.RelayOutput
import Karr.OpenStreams
import Karr.StreamCaps
import Karr.Api.RateLimit
import Karr.RateBounds
import Karr.RateLimits
import Karr.RetryAfter
import Karr.Api.Middleware
import Karr.BodyLimit
import Karr.AgentUrls
import Karr.Services.AgentCreate
import Karr.AgentOutcomes
import Karr.Frontend.Reader
import Karr.Abort
import Karr.ErrorDetail
import Karr.Removable
import Karr.CanonicalUrls
import Karr.ReconcilerHealth
import Karr.RelayedLog
import Karr.Reconnecting
import Karr.Sessions
import Karr.SecuredResponses
import Karr.ErrorEnvelope
import Karr.WireFormat
import Karr.SignInGuesses
import Karr.ProjectEdits
import Karr.AgentTokens
import Karr.CalledRoutes
import Karr.ShownToasts
import Karr.ConfirmedCalls
import Karr.Api.Spa
import Karr.ServedFiles
