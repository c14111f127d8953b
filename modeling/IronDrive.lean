import IronDrive.AccessAgreement
import IronDrive.AccessLevels
import IronDrive.AccessQueries
import IronDrive.AccountEffects
import IronDrive.Addressable
import IronDrive.AuthService
import IronDrive.BulkEntries
import IronDrive.CalendarDates
import IronDrive.ChunkCleanup
import IronDrive.ChunkConfigs
import IronDrive.ChunkPanics
import IronDrive.ChunkPlan
import IronDrive.ChunkProgress
import IronDrive.ChunkResend
import IronDrive.ChunkService
import IronDrive.ChunkUpload
import IronDrive.ChunkedDownload
import IronDrive.CreationFailures
import IronDrive.CryptoAgreement
import IronDrive.CryptoFormat
import IronDrive.CryptoPrimitives
import IronDrive.CryptoReaders
import IronDrive.CryptoRoundTrip
import IronDrive.CryptoService
import IronDrive.CryptoTamper
import IronDrive.Database
import IronDrive.DatabaseSteps
import IronDrive.Disk
import IronDrive.DiskCalls
import IronDrive.DiskSteps
import IronDrive.DownloadRevocation
import IronDrive.DownloadRoutes
import IronDrive.DownloadTokens
import IronDrive.DriveRefinement
import IronDrive.DriveServer
import IronDrive.EntryCalls
import IronDrive.EntryEffects
import IronDrive.EntryInfo
import IronDrive.EntryMoves
import IronDrive.EntryRefusals
import IronDrive.EntryReports
import IronDrive.Errors
import IronDrive.ExpiryAgreement
import IronDrive.FileRequests
import IronDrive.FsService
import IronDrive.FsUploads
import IronDrive.GroupEffects
import IronDrive.GroupOwnership
import IronDrive.GroupService
import IronDrive.IntegrityEvents
import IronDrive.InterleavedGroups
import IronDrive.InterleavedRights
import IronDrive.KeyRestart
import IronDrive.KeyWrap
import IronDrive.LibBranching
import IronDrive.LibBytes
import IronDrive.LibCalendar
import IronDrive.LibFileTree
import IronDrive.LibHistory
import IronDrive.LibProgram
import IronDrive.LibRelation
import IronDrive.LibRun
import IronDrive.LibServer
import IronDrive.LibStamps
import IronDrive.LibSubtree
import IronDrive.LibTimestamps
import IronDrive.LibVault
import IronDrive.LibraryService
import IronDrive.ListingLookup
import IronDrive.LoginSessions
import IronDrive.MasterKeyBoot
import IronDrive.Migrations
import IronDrive.NoEscalation
import IronDrive.Operations
import IronDrive.PagePaths
import IronDrive.PathContainment
import IronDrive.PathGrammar
import IronDrive.PathSafety
import IronDrive.RateLimiter
import IronDrive.RegisterRace
import IronDrive.Registry
import IronDrive.RegistryServices
import IronDrive.ReportedSize
import IronDrive.RequestGuards
import IronDrive.ScanReports
import IronDrive.SegmentHeaders
import IronDrive.ServerCalls
import IronDrive.ServiceLicences
import IronDrive.SingleFault
import IronDrive.SpaceDeletion
import IronDrive.SpaceEffects
import IronDrive.SpaceOwners
import IronDrive.SpaceRoutes
import IronDrive.SpaceService
import IronDrive.StagingArea
import IronDrive.StagingLeaks
import IronDrive.StoreCalls
import IronDrive.StreamParser
import IronDrive.TokenBinding
import IronDrive.TreeEffects
import IronDrive.TreeWalkers
import IronDrive.UnlockState
import IronDrive.UploadClient
import IronDrive.UploadContents
import IronDrive.UploadFailure
import IronDrive.UploadProtocol
import IronDrive.UploadRace
import IronDrive.UploadRequests
import IronDrive.UploadRivals
import IronDrive.VaultRefinement
import IronDrive.VaultSteps
import IronDrive.VisibleWalk
import IronDrive.WalkerAgreement
import IronDrive.WriterRace
