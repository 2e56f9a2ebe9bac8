import Atlas.CacheRuns
import Atlas.Exclusion
import Atlas.Credentials
import Atlas.UpdateChain
import Atlas.LeafBlame
import Atlas.AnnounceClient
import Atlas.TrackerKeys
import Atlas.LenientParse
import Atlas.Planner
import Atlas.WorldwideShare
import Atlas.StripeJournal
import Atlas.LaterRuns
import Atlas.DownloadQueue
import Atlas.SeedRuns
import Atlas.StoreRestart
import Atlas.InstallRuns
import Atlas.BlobRuns
import Atlas.VerifyPaths
import Atlas.SearchResults
import Atlas.InstalledModels
import Atlas.ContentManifest
import Atlas.UploadAccounting
import Atlas.HubBundles
import Atlas.Discarding
import Atlas.SeedUploads
import Atlas.CrashConsistency
import Atlas.MerkleBinding
import Atlas.SegmentTiling
import Atlas.StripeTiling
import Atlas.PlanRanking
import Atlas.PeerDiscovery
import Atlas.MagnetTrackers
import Atlas.HubListing
import Atlas.GgufRoundTrip
import Atlas.IrohOverlap
import Atlas.DownloadPolicy
import Atlas.UpdateLeftovers
import Atlas.ShareLinks
import Atlas.GgufQuants
import Atlas.InstallPaths
import Atlas.ReleaseDocument
import Atlas.Reconciling
import Atlas.Quarantining
import Atlas.BanCycle
import Atlas.ShareChoice
import Atlas.Base32
import Atlas.Slugs
import Atlas.Readme
import Atlas.PieceRuns
import Atlas.ReleaseChannel
import Atlas.MirrorDownloads
import Atlas.TorrentDisk
