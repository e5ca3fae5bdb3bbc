import OwnMinutes.Quota.Fencing
import OwnMinutes.Postgres.Quota
import OwnMinutes.Lib.Fence
import OwnMinutes.Local.QuotaSafety
import OwnMinutes.Lib.Runs
import OwnMinutes.Local.Fencing
import OwnMinutes.Postgres.Fencing
import OwnMinutes.Backends.ProviderCalls
import OwnMinutes.Auth.Apple
import OwnMinutes.Local.Apple
import OwnMinutes.Postgres.Apple
import OwnMinutes.Backends.AppleFamily
import OwnMinutes.Finalization.QueueSafety
import OwnMinutes.Deletion.Permanence
import OwnMinutes.Finalization.Identity
import OwnMinutes.Finalization.FailingJobs
import OwnMinutes.Backends.PaidStages
import OwnMinutes.Audio.Revisions
import OwnMinutes.Audio.LeaseSteps
import OwnMinutes.Audio.UploadBudget
import OwnMinutes.Audio.StagedUploads
import OwnMinutes.Audio.CommittedUploads
import OwnMinutes.Mobile.SurvivingIndex
import OwnMinutes.Backends.LoginLimits
import OwnMinutes.Deletion.ProviderCost
import OwnMinutes.Mobile.DamagedIndex
import OwnMinutes.Apple.Decoders
import OwnMinutes.Uploads.Resumption
import OwnMinutes.Mobile.IapTransactions
import OwnMinutes.Mobile.UploadQueueRuns
import OwnMinutes.Quota.UsageNotes
import OwnMinutes.Backends.UsageRecording
import OwnMinutes.VolcanoAsr.Speakers
import OwnMinutes.Realtime.Codec
import OwnMinutes.Lib.Dialogue
import OwnMinutes.VolcanoAsr.Config
import OwnMinutes.Auth.OldCredentials
import OwnMinutes.Locks.MeetingLocks
import OwnMinutes.Locks.LockRuns
import OwnMinutes.Speakers.Renaming
import OwnMinutes.Lib.Endings
import OwnMinutes.AuditLog.LogFiles
import OwnMinutes.AuditLog.RotationRuns
import OwnMinutes.VolcanoAsr.PaidOnce
import OwnMinutes.AsrTransient.CleanupRuns
import OwnMinutes.Ark.KeyConfinement
import OwnMinutes.ObjectStore.PrefixDeleted
import OwnMinutes.Deletion.AccountCleanupRuns
import OwnMinutes.Share.Published
import OwnMinutes.Backends.Streams
import OwnMinutes.Backends.RealtimeChunks
import OwnMinutes.Backends.SameRuns
