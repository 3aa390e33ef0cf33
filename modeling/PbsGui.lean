import PbsGui.Client.IndexLayout
import PbsGui.Client.FixedImage
import PbsGui.Client.ChunkedBody
import PbsGui.Client.Repository
import PbsGui.Engine.CancelledRuns
import PbsGui.Engine.CatalogRestore
import PbsGui.Engine.ChainHealth
import PbsGui.Ad.Capture
import PbsGui.Ad.ResolveFiles
import PbsGui.Engine.UnbrokenChain
import PbsGui.Engine.NoChainEpisodes
import PbsGui.Engine.Occurrences
import PbsGui.Engine.RestoreWindow
import PbsGui.Engine.ExportFiles
import PbsGui.Engine.DeviceFill
import PbsGui.Engine.ScanTargets
import PbsGui.Engine.ChannelWriters
import PbsGui.Engine.Fingerprints
import PbsGui.Engine.ArchiveReport
import PbsGui.Engine.ConcurrentSaves
import PbsGui.Engine.HeldCopies
import PbsGui.Engine.KeyGeneration
import PbsGui.Engine.MetricSeries
import PbsGui.Engine.RunGuards
import PbsGui.Relay.PendingSlots
import PbsGui.Relay.Restore
import PbsGui.Relay.FrameStream
