import WorktreeTracker.Branch
import WorktreeTracker.Catalog
import WorktreeTracker.CommandLine
import WorktreeTracker.Digest.Block
import WorktreeTracker.Digest.Sha1
import WorktreeTracker.Digest.Sha256
import WorktreeTracker.EventBus
import WorktreeTracker.Failure
import WorktreeTracker.FileTree
import WorktreeTracker.Fingerprint
import WorktreeTracker.GitConfig
import WorktreeTracker.Identifier
import WorktreeTracker.Instant
import WorktreeTracker.JsonText
import WorktreeTracker.Layout
import WorktreeTracker.Listing
import WorktreeTracker.Locate
import WorktreeTracker.Main
import WorktreeTracker.MemoryStore
import WorktreeTracker.Name
import WorktreeTracker.ObjectId
import WorktreeTracker.OrderedMap
import WorktreeTracker.Path
import WorktreeTracker.PlainReader
import WorktreeTracker.Program
import WorktreeTracker.Proofs.Catalog
import WorktreeTracker.Proofs.Catalog.Conflict
import WorktreeTracker.Proofs.Catalog.Lookup
import WorktreeTracker.Proofs.Catalog.Order
import WorktreeTracker.Proofs.Catalog.Restriction
import WorktreeTracker.Proofs.EventBus
import WorktreeTracker.Proofs.FileTree
import WorktreeTracker.Proofs.FileTree.Below
import WorktreeTracker.Proofs.FileTree.Canonical
import WorktreeTracker.Proofs.FileTree.Components
import WorktreeTracker.Proofs.FileTree.Refusal
import WorktreeTracker.Proofs.FileTree.Walked
import WorktreeTracker.Proofs.FileTree.Without
import WorktreeTracker.Proofs.Fingerprint
import WorktreeTracker.Proofs.Locate
import WorktreeTracker.Proofs.Locate.Directories
import WorktreeTracker.Proofs.Locate.Failure
import WorktreeTracker.Proofs.Locate.NamedDirectories
import WorktreeTracker.Proofs.MemoryStore.Calls
import WorktreeTracker.Proofs.MemoryStore.History
import WorktreeTracker.Proofs.MemoryStore.Isolation
import WorktreeTracker.Proofs.MemoryStore.Refresh
import WorktreeTracker.Proofs.MemoryStore.Session
import WorktreeTracker.Proofs.MemoryStore.Told
import WorktreeTracker.Proofs.Name
import WorktreeTracker.Proofs.OperationMarkers
import WorktreeTracker.Proofs.OrderedMap
import WorktreeTracker.Proofs.Path
import WorktreeTracker.Proofs.Path.Collapse
import WorktreeTracker.Proofs.Path.Plain
import WorktreeTracker.Proofs.PlainReader.Agreement
import WorktreeTracker.Proofs.PlainReader.Confinement
import WorktreeTracker.Proofs.PlainReader.Exactness
import WorktreeTracker.Proofs.PlainReader.Fingerprint
import WorktreeTracker.Proofs.PlainReader.Head
import WorktreeTracker.Proofs.PlainReader.HeadFailure
import WorktreeTracker.Proofs.PlainReader.Listing
import WorktreeTracker.Proofs.PlainReader.LooseFile
import WorktreeTracker.Proofs.PlainReader.Obstruction
import WorktreeTracker.Proofs.PlainReader.References
import WorktreeTracker.Proofs.PlainReader.Stored
import WorktreeTracker.Proofs.PlainReader.StrayFile
import WorktreeTracker.Proofs.PlainReader.SymbolicChain
import WorktreeTracker.Proofs.ReadBack
import WorktreeTracker.Proofs.ReaderAgreement
import WorktreeTracker.Proofs.RefFile
import WorktreeTracker.Proofs.RefFormat
import WorktreeTracker.Proofs.RefNamespace
import WorktreeTracker.Proofs.Remotes
import WorktreeTracker.Proofs.Repository.Listing
import WorktreeTracker.Proofs.Repository.References
import WorktreeTracker.Proofs.Repository.Sharing
import WorktreeTracker.Proofs.Resolution
import WorktreeTracker.Proofs.Results
import WorktreeTracker.Proofs.Snapshot
import WorktreeTracker.Proofs.StatusReport
import WorktreeTracker.Proofs.Store
import WorktreeTracker.Proofs.Table
import WorktreeTracker.Proofs.Tracker.Anchored
import WorktreeTracker.Proofs.Tracker.Backend
import WorktreeTracker.Proofs.Tracker.ChangeFlag
import WorktreeTracker.Proofs.Tracker.Deepest
import WorktreeTracker.Proofs.Tracker.Naming
import WorktreeTracker.Proofs.Tracker.Origin
import WorktreeTracker.Proofs.Tracker.RefreshAll
import WorktreeTracker.Proofs.Tracker.Registration
import WorktreeTracker.Proofs.Tracker.RegistrationFailure
import WorktreeTracker.Proofs.Tracker.RegistrationRace
import WorktreeTracker.Proofs.Tracker.RootName
import WorktreeTracker.Proofs.Tracker.Run
import WorktreeTracker.Proofs.Tracker.Schedule
import WorktreeTracker.Proofs.Tracker.SharedStore
import WorktreeTracker.Proofs.Tracker.Sharing
import WorktreeTracker.Proofs.Tracker.Updates
import WorktreeTracker.Proofs.Tracker.Visibility
import WorktreeTracker.Proofs.WrittenNames
import WorktreeTracker.Proofs.WrittenRefs
import WorktreeTracker.RefFile
import WorktreeTracker.Report
import WorktreeTracker.Repository.Inflate
import WorktreeTracker.Repository.Library
import WorktreeTracker.Repository.Object
import WorktreeTracker.Repository.Open
import WorktreeTracker.Repository.Pack
import WorktreeTracker.Repository.Reader
import WorktreeTracker.Repository.RefDatabase
import WorktreeTracker.Repository.RemoteTable
import WorktreeTracker.Settings
import WorktreeTracker.SettingsText
import WorktreeTracker.Snapshot
import WorktreeTracker.Store
import WorktreeTracker.StoreKind
import WorktreeTracker.Table
import WorktreeTracker.Text
import WorktreeTracker.Tracker
import WorktreeTracker.Value
