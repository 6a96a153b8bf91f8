import Quackapi.Library.FirstMatch
import Quackapi.Library.KeyedTable
import Quackapi.Library.Machine
import Quackapi.Util.Str
import Quackapi.Util.Json
import Quackapi.Queue.Jobs
import Quackapi.Queue.Steps
import Quackapi.Queue.Fencing
import Quackapi.Queue.Lifecycle
import Quackapi.Queue.Selection
import Quackapi.Queue.Timing
import Quackapi.Policy.Registry
import Quackapi.Policy.SecureQuery
import Quackapi.Policy.Arity
import Quackapi.Library.ExceptRules
import Quackapi.Policy.Rewrite
import Quackapi.Policy.Completeness
import Quackapi.Policy.Enforcement
import Quackapi.Policy.Interleaved
import Quackapi.Policy.Tokens
import Quackapi.Policy.Substitution
import Quackapi.Policy.SecureView
import Quackapi.Policy.Resolution
import Quackapi.Auth.Registry
import Quackapi.Library.Since
import Quackapi.Library.Base64
import Quackapi.Auth.Verify
import Quackapi.Auth.KeyLifetime
import Quackapi.Auth.Token
import Quackapi.Auth.Base64Url
import Quackapi.Params.Values
import Quackapi.Params.Declared
import Quackapi.Params.Binding
import Quackapi.Params.Sources
import Quackapi.Params.Precedence
import Quackapi.Params.Slot
import Quackapi.Params.Contract
import Quackapi.Params.Handlers
import Quackapi.Params.Claims
import Quackapi.Library.Upsert
import Quackapi.Library.Uri
import Quackapi.Http.Pattern
import Quackapi.Http.Routes
import Quackapi.Http.Registration
import Quackapi.Http.Dispatch
import Quackapi.Http.Redirect
import Quackapi.Http.Limits
import Quackapi.Graphql.Registry
import Quackapi.Graphql.Mounts
import Quackapi.Graphql.Allowlist
import Quackapi.Graphql.Document
import Quackapi.Graphql.Execute
import Quackapi.Graphql.Grammar
import Quackapi.Graphql.Gates
import Quackapi.Exec.Result
import Quackapi.Exec.Operation
import Quackapi.Exec.Refinement
import Quackapi.Library.Slots
import Quackapi.Exec.Call
import Quackapi.Exec.CallSteps
import Quackapi.Exec.AtMostOnce
import Quackapi.Http.Response
import Quackapi.Http.ControlColumns
import Quackapi.Http.ResponseCap
import Quackapi.Http.CountedBytes
import Quackapi.Exec.Serializer
import Quackapi.Telemetry.Sink
import Quackapi.Telemetry.Record
import Quackapi.Telemetry.Redaction
import Quackapi.Telemetry.Batch
import Quackapi.Telemetry.RecordText
import Quackapi.Telemetry.RequestRing
import Quackapi.Http.RateLimit
import Quackapi.Http.RateWindows
import Quackapi.Http.RateRetry
import Quackapi.Library.EventStream
import Quackapi.Http.RowEvents
import Quackapi.Http.StreamSessions
import Quackapi.Http.StaticFiles
import Quackapi.Library.Until
import Quackapi.Library.Lexemes
import Quackapi.Library.ReadProgram
import Quackapi.Middleware.Registry
import Quackapi.Middleware.Execute
import Quackapi.Middleware.Chain
import Quackapi.Outbound.Pool
import Quackapi.Outbound.Idle
import Quackapi.Outbound.Steps
import Quackapi.Outbound.Ownership
import Quackapi.Validation.Reader
import Quackapi.Validation.RoundTrip
import Quackapi.Validation.Grammar
import Quackapi.Library.JsonText
import Quackapi.Library.JsonReading
import Quackapi.Library.Grouping
import Quackapi.Openapi.Text
import Quackapi.Telemetry.ErrorMessage
import Quackapi.Validation.VariantLeaves
import Quackapi.Validation.PointerLoc
import Quackapi.Openapi.Schema
import Quackapi.Openapi.Parameters
import Quackapi.Openapi.Body
import Quackapi.Openapi.Operation
import Quackapi.Openapi.Document
import Quackapi.Openapi.Agreement
import Quackapi.Library.Reorder
import Quackapi.Middleware.RowOrder
import Quackapi.Exec.TypedBudget
import Quackapi.Library.Csv
import Quackapi.Library.QuotedWords
import Quackapi.Library.QualityList
import Quackapi.Util.Decimal
import Quackapi.Http.BodyNegotiation
import Quackapi.Http.ContentCoding
import Quackapi.Ddl.RouteParse
import Quackapi.Ddl.Statement
import Quackapi.Ddl.HeadReading
import Quackapi.Ddl.ParamReading
import Quackapi.Ddl.TailReading
import Quackapi.Ddl.ClauseOrder
import Quackapi.Http.CsvRoundTrip
import Quackapi.Http.RowJson
import Quackapi.Params.FlatJson
import Quackapi.Limits.Deadline
import Quackapi.Limits.Nesting
import Quackapi.Ddl.GroupPrefix
import Quackapi.Ddl.RoutePlan
import Quackapi.Ddl.PatternReaders
import Quackapi.Ddl.NumberReaders
import Quackapi.Ddl.NumberClauses
import Quackapi.Outbound.FanOutSafety
import Quackapi.WebSocket.SessionWire
import Quackapi.Http.SseStream
import Quackapi.Ddl.TableApi
import Quackapi.Ddl.TokenText
import Quackapi.Http.QueryText
import Quackapi.Server.Lifecycle
import Quackapi.Server.Ownership
import Quackapi.Server.Sockets
import Quackapi.Server.Teardown
