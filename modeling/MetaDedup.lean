import MetaDedup.Client.CDCodec.MatrixArrays
import MetaDedup.Client.ChunkIdentity
import MetaDedup.Client.CodecUsers
import MetaDedup.Client.DecoderFailures
import MetaDedup.Client.FileRoundTrip
import MetaDedup.Client.KeyRecipeUpload
import MetaDedup.Client.NameShares
import MetaDedup.Client.RingBuffer
import MetaDedup.Server.ConcurrentUpdates
import MetaDedup.Server.ContainerCache
import MetaDedup.Server.ExactCounts
import MetaDedup.Server.ExactStorage
import MetaDedup.Server.FailedRounds
import MetaDedup.Server.InterleavedRounds
import MetaDedup.Server.Keystore
import MetaDedup.Server.LastingRestores
import MetaDedup.Server.NodeLifetimes
import MetaDedup.Server.NodeLink
import MetaDedup.Server.RecipeBytes
import MetaDedup.Server.Restart
import MetaDedup.Server.StorerSafety
import MetaDedup.Server.UserView
import MetaDedup.Upload.Agreement
import MetaDedup.Upload.EndOfFile
import MetaDedup.Upload.Fingerprints
import MetaDedup.Upload.PackageSizes
import MetaDedup.Connections.Segmentation
import MetaDedup.Download.Framing
import MetaDedup.Download.ServerLists
