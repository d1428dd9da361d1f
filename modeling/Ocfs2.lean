import Ocfs2.Shared.ByteBuffer
import Ocfs2.Shared.Crc
import Ocfs2.Libocfs2.Bitops
import Ocfs2.Libocfs2.Crc32
import Ocfs2.Shared.HammingCode
import Ocfs2.Shared.Popcount
import Ocfs2.Libocfs2.Hamming
import Ocfs2.Libocfs2.Common
import Ocfs2.Libocfs2.BlockCheck
import Ocfs2.Libocfs2.BlockCheckFlips
import Ocfs2.Libocfs2.KernelRbtree
import Ocfs2.Libocfs2.UnixIo
import Ocfs2.Libocfs2.IoCache
import Ocfs2.Libocfs2.IoRefinement
import Ocfs2.Libocfs2.HoleSearch
import Ocfs2.Libocfs2.ChainRun
import Ocfs2.Fsck.ReplayJournals
import Ocfs2.Libocfs2.DirLink
import Ocfs2.Fsck.Connectivity
import Ocfs2.Fsck.Pass0Counts
import Ocfs2.Fsck.Pass1Clear
import Ocfs2.Fsck.Pass1d
import Ocfs2.O2image.ImageLoad
import Ocfs2.Tunefs.FeaturesRun
import Ocfs2.Tunefs.Resize
import Ocfs2.Tunefs.SparseFiles
import Ocfs2.Tunefs.JournalSize
import Ocfs2.Libocfs2.InodeScanRun
import Ocfs2.Mkfs.BitmapExact
import Ocfs2.O2cb.ConfigRoundTrip
import Ocfs2.Libocfs2.ExtentBranch
import Ocfs2.Libocfs2.ExtentAtomic
import Ocfs2.Libocfs2.ExtentLookup
import Ocfs2.Libocfs2.ExtentKept
import Ocfs2.Libocfs2.ClusterCount
import Ocfs2.Libocfs2.ChainAddGroup
import Ocfs2.Libocfs2.HammingEncoders
import Ocfs2.Fsck.RevokeQuery
import Ocfs2.Libocfs2.IoPartial
import Ocfs2.Shared.CountDown
import Ocfs2.Fsck.JournalScan
import Ocfs2.Fsck.JournalAgree
import Ocfs2.Fsck.JournalSound
import Ocfs2.Fsck.Pass2Loop
import Ocfs2.Fsck.Pass2Names
import Ocfs2.Fsck.Pass4
import Ocfs2.Fsck.Pass1Clusters
import Ocfs2.Fsck.Pass0Cycle
import Ocfs2.Fsck.Pass1Legal
import Ocfs2.Libocfs2.FeatureString
import Ocfs2.Libocfs2.InlineData
import Ocfs2.O2cb.CreateNodes
import Ocfs2.Controld.Connections
import Ocfs2.Controld.Members
