import N8n.Agents.MessageTimestamps
import N8n.Agents.ObservationLogObserver
import N8n.Agents.ToolCallRuns
import N8n.Codegen.GraphConnections
import N8n.Codegen.GraphRoots
import N8n.Codegen.SlotIndexes
import N8n.Codegen.StringUtils
import N8n.Codegen.VariableClashes
import N8n.Concurrency.ActiveExecutionsShutdown
import N8n.Concurrency.CapacityReservations
import N8n.Crdt.NestedValue
import N8n.Crdt.Protocol
import N8n.Crdt.SyncProvidersRuns
import N8n.Crdt.WebSocketTransportRuns
import N8n.Engine.EndlessLoop
import N8n.Engine.InputData
import N8n.Engine.OldestFirst
import N8n.Engine.RequestTraces
import N8n.Engine.Retries
import N8n.Engine.TreeOrder
import N8n.Executions.ExecutionRecovery
import N8n.ExpressionRuntime.IsolatePoolRuns
import N8n.Expressions.ChainMeaning
import N8n.Expressions.FromAIAgreement
import N8n.Expressions.FromAIEscapes
import N8n.Expressions.FromAILiterals
import N8n.Expressions.JoinedCode
import N8n.Expressions.SplitterInvariant
import N8n.Insights.BlockedInsights
import N8n.Insights.InsightsShutdown
import N8n.InstanceAi.WorkflowLoopRuns
import N8n.PartialExecution.CleanRunData
import N8n.PartialExecution.ComponentStack
import N8n.PartialExecution.FilterDisabledNodes
import N8n.PartialExecution.FindStartNodes
import N8n.PartialExecution.FindSubgraph
import N8n.PartialExecution.MaximalGroups
import N8n.PartialExecution.Provenance
import N8n.Publication.LifecycleLockRuns
import N8n.Publication.PublicationApplierRuns
import N8n.Publication.PublicationOutboxRuns
import N8n.Scaling.MultiMainSetupRuns
import N8n.Scaling.WaitTracker
import N8n.TaskRunners.IdlePairs
import N8n.TaskRunners.OfferMatching
import N8n.TaskRunners.RequestExpiry
import N8n.TaskRunners.TaskRunnerRuns
import N8n.TaskRunners.TerminalMessages
import N8n.Triggers.PollersRuns
import N8n.Webhooks.DynamicWebhook
import N8n.Webhooks.WebhookCache
import N8n.Workflow.AugmentedRuns
import N8n.Workflow.DestinationIndex
import N8n.Workflow.ExtractableSubgraph
import N8n.Workflow.FilterParameter
import N8n.Workflow.HistoryCompaction
import N8n.Workflow.ObservableObject
import N8n.Workflow.ParameterResolveOrder
import N8n.Workflow.WholeReferences
import N8n.Workflow.WorkflowChecksum
