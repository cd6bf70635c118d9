import S4Drive.Metadata.Isolation
import S4Drive.Metadata.AtMostOnce
import S4Drive.Metadata.Superseded
import S4Drive.Metadata.CompactionResumes
import S4Drive.Sync.SeenDeletes
import S4Drive.Sync.TombstoneRetirement
import S4Drive.Sync.FolderDeletes
import S4Drive.Sync.RestoredFiles
import S4Drive.Sync.TombstoneWrites
import S4Drive.Sync.RecoveryPrompts
import S4Drive.Sync.ConfirmedDeletes
import S4Drive.Sync.EnsuredFolders
import S4Drive.Sync.PlacementProjections
import S4Drive.Sync.Fingerprints
import S4Drive.Sync.TransparentMaintenance
import S4Drive.Metadata.BlobAddresses
import S4Drive.Notes.RoundTrip
import S4Drive.Notes.KeptEdits
import S4Drive.Notes.EditedRanges
import S4Drive.Sync.RestoredFolders
import S4Drive.Recovery.Replay
import S4Drive.Conflicts.LostVersions
import S4Drive.Conflicts.Terminators
import S4Drive.Sync.KeptContents
import S4Drive.Sync.ResumedRestores
import S4Drive.Sync.AutoMerge
import S4Drive.Notes.SyncRequests
import S4Drive.Notes.SafeExits
import S4Drive.Sync.FolderRoundTrip
import S4Drive.Sync.EntryWrites
import S4Drive.Watch.RenameHalves
import S4Drive.Watch.DroppedDeletes
import S4Drive.Sync.NotesMarks
import S4Drive.Metadata.LegacyCommits
import S4Drive.Metadata.VersionedReads
import S4Drive.Sync.MovedSubtrees
import S4Drive.Sync.FolderPaths
import S4Drive.S3.ErrorCodes
import S4Drive.Sync.RevisionPruning
import S4Drive.Sync.PendingChanges
import S4Drive.Conflicts.LongestDiffs
import S4Drive.Metadata.RevisionGraph
import S4Drive.Sync.BlobDiscovery
import S4Drive.Metadata.LogRuns
import S4Drive.Notes.Paths
