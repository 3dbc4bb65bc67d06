import LmsBackend.Async.Prog
import LmsBackend.Async.Pool
import LmsBackend.Async.Monitor
import LmsBackend.Async.Alone
import LmsBackend.Store.Table
import LmsBackend.Store.Ttl
import LmsBackend.Exams.Entities
import LmsBackend.Exams.Scoring
import LmsBackend.Exams.World
import LmsBackend.Exams.TestSessionService
import LmsBackend.Exams.ExamService
import LmsBackend.Auth.AccessToken
import LmsBackend.Exams.ExamController
import LmsBackend.Exams.System
import LmsBackend.Exams.Transactions
import LmsBackend.Exams.Phase
import LmsBackend.Exams.Keeps
import LmsBackend.Exams.Database
import LmsBackend.Exams.OwnStep
import LmsBackend.Exams.Base
import LmsBackend.Exams.OneAttempt
import LmsBackend.Exams.Codes
import LmsBackend.Exams.Terminal
import LmsBackend.Exams.ExamGateway
import LmsBackend.Exams.Graded
import LmsBackend.Exams.RedisSteps
import LmsBackend.Exams.KeySteps
import LmsBackend.Exams.Origin
import LmsBackend.Exams.Deadline
import LmsBackend.Exams.Grace
import LmsBackend.Exams.SessionKeys
import LmsBackend.Exams.LastSaved
import LmsBackend.Exams.Autosaves
import LmsBackend.Exams.Attended
import LmsBackend.Exams.Ownership
import LmsBackend.Exams.Executions
import LmsBackend.Exams.AllOrNothing
import LmsBackend.Exams.Rejected
import LmsBackend.Exams.SingleFailure
import LmsBackend.Exams.Access
import LmsBackend.Auth.Reuse
import LmsBackend.Auth.PasswordChange
import LmsBackend.Auth.Strategies
import LmsBackend.Auth.Errand
import LmsBackend.Auth.Steps
import LmsBackend.Auth.Moves
import LmsBackend.Auth.Signed
import LmsBackend.Auth.Rotation
import LmsBackend.Auth.AuthTokens
import LmsBackend.Auth.OneTime
import LmsBackend.Auth.Subjects
import LmsBackend.Auth.Dtos
import LmsBackend.Auth.PasswordPolicy
import LmsBackend.Auth.Settling
import LmsBackend.Auth.LastPassword
import LmsBackend.Auth.Newest
import LmsBackend.Auth.Stranded
import LmsBackend.Async.Total
import LmsBackend.Exams.OneActive
import LmsBackend.Exams.SatOnce
import LmsBackend.Exams.Outstanding
import LmsBackend.Exams.NextExam
import LmsBackend.Exams.StoredScores
import LmsBackend.Exams.Countdown
import LmsBackend.Async.TwoRuns
import LmsBackend.Exams.AnswerKey
import LmsBackend.Exams.Students
import LmsBackend.Exams.GradeBook
import LmsBackend.Async.History
import LmsBackend.Auth.Sessions
import LmsBackend.Auth.DeadTokens
import LmsBackend.Http.Routes
import LmsBackend.Http.Access
import LmsBackend.Async.Raises
import LmsBackend.Exams.Errors
import LmsBackend.Http.ExceptionFilter
import LmsBackend.Http.Problems
import LmsBackend.Text.JsonWriter
import LmsBackend.I18n.UserPreferenceResolver
import LmsBackend.I18n.SessionLocale
import LmsBackend.Async.Shells
import LmsBackend.Web.WebController
import LmsBackend.Catalog.Filters
import LmsBackend.Catalog.Cursors
import LmsBackend.Catalog.QueryDto
import LmsBackend.Catalog.Visibility
import LmsBackend.Content.LessonAccess
import LmsBackend.Content.Completions
import LmsBackend.Content.Progress
import LmsBackend.Content.StoredLocales
import LmsBackend.Content.EnglishText
import LmsBackend.Content.Fallback
import LmsBackend.Content.AdminUpdates
import LmsBackend.Content.ProgramCodes
import LmsBackend.Content.LostUpdates
import LmsBackend.Rls.Audit
import LmsBackend.Rls.Deadlock
import LmsBackend.Rls.Release
import LmsBackend.Auth.HashedTokens
import LmsBackend.Auth.FailedRefresh
import LmsBackend.Auth.OneUnused
import LmsBackend.Auth.Registration
import LmsBackend.Exams.Timers
import LmsBackend.Mail.Templates
import LmsBackend.Text.Holes
import LmsBackend.Mail.Markup
import LmsBackend.Profile.Changes
import LmsBackend.Requests.DatabaseErrors
import LmsBackend.Schema.AuditLog
import LmsBackend.Schema.CertIds
import LmsBackend.Schema.Protected
import LmsBackend.Storage.Keys
import LmsBackend.Seeder.Bootstrap
