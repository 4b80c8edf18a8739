import Stemcell.Backup.Patterns
import Stemcell.Backup.Capture
import Stemcell.Backup.LegacyManifest
import Stemcell.Backup.Resume
import Stemcell.Backup.Retention
import Stemcell.Backup.RoundTrip
import Stemcell.Cron.Cache
import Stemcell.Cron.Checkbacks
import Stemcell.Cron.Standard
import Stemcell.Cron.Sweeps
import Stemcell.Diagnostics.Recovery
import Stemcell.Dispatch.Accounts
import Stemcell.Dispatch.Injection
import Stemcell.Dispatch.Commands
import Stemcell.Interface.Anchoring
import Stemcell.Interface.Delivery
import Stemcell.Interface.Scanning
import Stemcell.Interface.Redelivery
import Stemcell.Glass.Frames
import Stemcell.Glass.LogTail
import Stemcell.Glass.Reconciler
import Stemcell.Iwantto.Actors
import Stemcell.Iwantto.LiveRuns
import Stemcell.Iwantto.Reminders
import Stemcell.Iwantto.Trail
import Stemcell.Iwantto.WorkTree
import Stemcell.LongTasks.FinalReply
import Stemcell.LongTasks.Instances
import Stemcell.LongTasks.WorkerFacts
import Stemcell.LongTasks.AccuracyReviews
import Stemcell.Loop.Schedule
import Stemcell.Loop.Tick
import Stemcell.Maintenance.Continuations
import Stemcell.Maintenance.Fence
import Stemcell.Maintenance.Notices
import Stemcell.Maintenance.Quiescence
import Stemcell.Maintenance.RootLedger
import Stemcell.Manager.Reception
import Stemcell.Manager.Rounds
import Stemcell.Manager.AppServer
import Stemcell.Messages.ExactlyOnce
import Stemcell.Progress.Claude
import Stemcell.Progress.Recognition
import Stemcell.Storage.StateStore
import Stemcell.Storage.FileLockSteps
import Stemcell.TeamContext.Overwrites
import Stemcell.Trust.Policy
import Stemcell.Update.Checks
import Stemcell.Update.Rotation
import Stemcell.Worker.Completions
import Stemcell.Worker.Exclusion
import Stemcell.Background.Outbox
import Stemcell.WorkUpdates.Frames
import Stemcell.WorkUpdates.Journal
import Stemcell.WorkUpdates.Lanes
import Stemcell.WorkUpdates.Prune
import Stemcell.WorkUpdates.LaneRuns
