import ChatRelay.Relay
import ChatRelay.Proofs.OpenAIBlocks
import ChatRelay.Proofs.GeminiBlocks
import ChatRelay.Proofs.Answers
import ChatRelay.Proofs.Streamed
import ChatRelay.Proofs.Cancelling
import ChatRelay.Proofs.StreamedBlocks
import ChatRelay.Proofs.Lifecycle
import ChatRelay.Proofs.ToolTurns
import ChatRelay.Proofs.Objects
import ChatRelay.Proofs.RequestRoundTrip
import ChatRelay.Proofs.Assembling
import ChatRelay.Proofs.Rounding
import ChatRelay.Proofs.DecimalDigits
import ChatRelay.Proofs.NumberRoundTrip
import ChatRelay.Proofs.JsonRoundTrip
import ChatRelay.Proofs.GeminiAnswers
import ChatRelay.Proofs.StreamedGemini
import ChatRelay.Proofs.UsageReports
import ChatRelay.Proofs.Sessions
import ChatRelay.Proofs.Recordings
import ChatRelay.Proofs.SharedSessions
import ChatRelay.Proofs.ReplyObjects
import ChatRelay.Proofs.RepliesBridge
import ChatRelay.Proofs.Forwarding
import ChatRelay.Proofs.Conversations
import ChatRelay.Proofs.ModelTurns
import ChatRelay.Proofs.AssistantTurns
import ChatRelay.Proofs.OutboundHeaders
import ChatRelay.Proofs.ReadingLines
import ChatRelay.Proofs.Framing
import ChatRelay.Proofs.Endings
import ChatRelay.Proofs.Completions
import ChatRelay.Proofs.PassingThrough
import ChatRelay.Proofs.ToolUseStops
import ChatRelay.Proofs.BlockIndices
import ChatRelay.Proofs.GeminiContents
import ChatRelay.Proofs.GeminiToolTurns
import ChatRelay.Proofs.FollowUps
import ChatRelay.Proofs.SessionHistories
import ChatRelay.Proofs.UnreadReplies
import ChatRelay.Proofs.ThoughtSignatures
import ChatRelay.Proofs.PayloadTexts
import ChatRelay.Proofs.RedactedValues
import ChatRelay.Proofs.ObliviousSteps
import ChatRelay.Proofs.LoggedStreams
import ChatRelay.Proofs.LineCalls
import ChatRelay.Proofs.LineLimits
import ChatRelay.Proofs.BlockForms
import ChatRelay.Proofs.FunctionNames
import ChatRelay.Proofs.SchemaPaths
import ChatRelay.Proofs.DeclaredParameters
import ChatRelay.Proofs.SessionTotals
import ChatRelay.Proofs.ConversationTurns
import ChatRelay.Proofs.GeminiRoutes
import ChatRelay.Proofs.BackendSettings
import ChatRelay.Proofs.Redirection
import ChatRelay.Proofs.TargetUrls
import ChatRelay.Proofs.SettingsFiles
import ChatRelay.Proofs.NumberSettings
import ChatRelay.Proofs.BufferBounds
