import PgxBackup.DepClosure
import PgxBackup.Base128
import PgxBackup.Runs
import PgxBackup.Chunks
import PgxBackup.Text
import PgxBackup.Convert
import PgxBackup.Manifest
import PgxBackup.BackupLabel
import PgxBackup.InfoBackup
import PgxBackup.Expire
import PgxBackup.ExpireClosed
import PgxBackup.ExpireArchive
import PgxBackup.ExpireArchiveSafe
import PgxBackup.ExpireRepo
import PgxBackup.ExpireSurvive
import PgxBackup.ExpirePhases
import PgxBackup.Reconstruct
import PgxBackup.ExpireCrash
import PgxBackup.ExpireCrashSafe
import PgxBackup.VarInt
import PgxBackup.BlockMap
import PgxBackup.BlockMapSuperBlock
import PgxBackup.BlockMapRoundTrip
import PgxBackup.BlockIncr
import PgxBackup.BlockIncrRun
import PgxBackup.BlockIncrMap
import PgxBackup.BlockIncrProcess
import PgxBackup.BlockChain
import PgxBackup.BlockDelta
import PgxBackup.BlockRestore
import PgxBackup.Pack
import PgxBackup.PackTag
import PgxBackup.PackCalls
import PgxBackup.PackRoundTrip
import PgxBackup.Steps
import PgxBackup.Lock
import PgxBackup.LockSafe
import PgxBackup.Parallel
import PgxBackup.ParallelSafe
import PgxBackup.ArchiveGetAsync
import PgxBackup.ArchiveGetAsyncSafe
import PgxBackup.BackupJob
import PgxBackup.BackupJobSafe
import PgxBackup.PackReader
import PgxBackup.RestoreProtocol
import PgxBackup.RestoreJob
import PgxBackup.RestoreJobSafe
import PgxBackup.CfgParse
import PgxBackup.CfgParseSafe
import PgxBackup.ProtocolClient
import PgxBackup.Keyed
import PgxBackup.ProtocolServerSafe
import PgxBackup.ProtocolClientSafe
import PgxBackup.ProtocolSafe
import PgxBackup.PackSkip
import PgxBackup.BlockDeltaPlan
import PgxBackup.BlockIncrBuffers
import PgxBackup.KeyValue
import PgxBackup.RepoFiles
import PgxBackup.Annotate
import PgxBackup.StorageIterator
import PgxBackup.StorageTraversal
import PgxBackup.StorageTree
import PgxBackup.PathOrder
import PgxBackup.StorageObject
import PgxBackup.StoragePages
import PgxBackup.StorageObjectTree
import PgxBackup.StorageObjectOrder
import PgxBackup.StoragePushdown
import PgxBackup.FilterContract
import PgxBackup.FilterChain
import PgxBackup.FilterEnds
import PgxBackup.FilterStream
import PgxBackup.ExpireExact
import PgxBackup.ExpireHistory
import PgxBackup.PackId
import PgxBackup.PackIdExact
import PgxBackup.ReadStream
import PgxBackup.PackStreamRead
import PgxBackup.PackStreamSame
import PgxBackup.JsonRead
import PgxBackup.JsonVar
import PgxBackup.JsonSkip
import PgxBackup.JsonWrite
import PgxBackup.JsonText
import PgxBackup.JsonRoundTrip
import PgxBackup.JsonKeyExpect
import PgxBackup.ArchivePush
import PgxBackup.ArchiveAsync
import PgxBackup.FixedWidth
import PgxBackup.WalSegmentName
import PgxBackup.QueueNeed
import PgxBackup.Cursor
import PgxBackup.WalSegmentFind
import PgxBackup.CvtDiv
import PgxBackup.ArchivePushList
import PgxBackup.CvtTime
import PgxBackup.ArchiveGetCached
import PgxBackup.ArchiveGetDuplicate
import PgxBackup.BinarySearch
import PgxBackup.ManifestUnlogged
import PgxBackup.Nearest
import PgxBackup.PathResolve
import PgxBackup.ManifestLink
import PgxBackup.ManifestLinkSafe
import PgxBackup.Flags
import PgxBackup.ManifestFilePack
import PgxBackup.ManifestFileStore
import PgxBackup.BitDigits
import PgxBackup.StringId
import PgxBackup.WordLoop
import PgxBackup.Encode
import PgxBackup.EncodeSafe
import PgxBackup.EncodeRoundTrip
import PgxBackup.Blocks
import PgxBackup.ListObject
import PgxBackup.ListRefine
import PgxBackup.PageChecksum
import PgxBackup.Ranges
import PgxBackup.PageChecksumPack
import PgxBackup.PageChecksumExact
import PgxBackup.BackupLabelCreate
import PgxBackup.BackupLabelShape
import PgxBackup.BackupLabelFresh
import PgxBackup.LockCommand
import PgxBackup.WriteStream
import PgxBackup.CfgOptionName
import PgxBackup.CfgOptionNameSafe
import PgxBackup.CfgOptionResolve
import PgxBackup.PackNext
import PgxBackup.StorageRemoteList
import PgxBackup.StorageRemoteSame
import PgxBackup.Timeline
import PgxBackup.TimelineVerify
import PgxBackup.Select
import PgxBackup.SelectFound
import PgxBackup.SelectRemove
import PgxBackup.RestoreMap
import PgxBackup.SelectExact
import PgxBackup.RestoreMapSafe
import PgxBackup.RestoreMapExact
import PgxBackup.ChunkWrite
import PgxBackup.HttpUri
import PgxBackup.VarIntSame
import PgxBackup.RegExpPrefix
import PgxBackup.StopStart
