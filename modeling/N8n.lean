import N8n.RenameNodeProofs
import N8n.WaitingTableProofs
import N8n.RequestAtomicityProofs
import N8n.TaskRequestProofs
import N8n.TaskOutcomeProofs
import N8n.TaskAcceptProofs
import N8n.TaskLifecycleProofs
import N8n.RunnerDisconnectProofs
import N8n.ActiveWorkflowsProofs
import N8n.QueueRecoveryProofs
import N8n.StaticDataProofs
import N8n.RetryActivationProofs
import N8n.WebhookCacheProofs
import N8n.TaskAnalyzerProofs
import N8n.ThisSanitizerProofs
import N8n.PrototypeSanitizerProofs
import N8n.PythonOffersProofs
import N8n.PythonCancelProofs
import N8n.MultiMainSetupProofs
import N8n.SSHClientsProofs
import N8n.SubscriberProofs
import N8n.WaitResumptionProofs
import N8n.ChildResultsProofs
import N8n.WorkflowRunnerProofs
import N8n.ExecutionSavingProofs
import N8n.ExecutionProgressProofs
import N8n.ScheduleIntervalsProofs
import N8n.ToolInvocationProofs
import N8n.CacheServiceProofs
import N8n.RunPartialWorkflowProofs
import N8n.ChunkRecoveryProofs
import N8n.NodeEnumerationProofs
import N8n.WaitingAttributionProofs
import N8n.PromotionOrderProofs
import N8n.ItemLineageProofs
import N8n.ErrorOutputProofs
import N8n.BranchOrderProofs
import N8n.ToolLineageProofs
import N8n.TransposeProofs
import N8n.ExtractableSelectionProofs
import N8n.WorkflowChecksumProofs
import N8n.FromAICallsProofs
import N8n.VersionGroupingProofs
import N8n.DeepCopyProofs
import N8n.AugmentObjectProofs
import N8n.DataRequestProofs
import N8n.TaskMatchingProofs
import N8n.WebhookRoutingProofs
import N8n.ExecutionRecoveryProofs
import N8n.TestWebhooksProofs
import N8n.InsightsProofs
import N8n.PipeMessageProofs
import N8n.BuiltInsParserProofs
import N8n.FilterParameterProofs
import N8n.DisplayParameterProofs
import N8n.RemoveDuplicatesProofs
import N8n.HighestNodeProofs
import N8n.MatchFieldsProofs
import N8n.CompareDatasetsProofs
import N8n.RemoveDuplicateItemsProofs
import N8n.SplitInBatchesProofs
import N8n.SizeValidatorProofs
import N8n.OffsetPaginationProofs
import N8n.BreadthFirstProofs
import N8n.DataTableCsvProofs
