import SharedSlab.Allocator
import SharedSlab.Describe
import SharedSlab.Proofs.Attaching
import SharedSlab.Proofs.BackoffPeriods
import SharedSlab.Proofs.ChunkSizes
import SharedSlab.Proofs.Conservation
import SharedSlab.Proofs.CreationFailures
import SharedSlab.Proofs.Exhaustion
import SharedSlab.Proofs.FreshStart
import SharedSlab.Proofs.HandleCalls
import SharedSlab.Proofs.LargestLayout
import SharedSlab.Proofs.LiveSnapshot
import SharedSlab.Proofs.LockObservers
import SharedSlab.Proofs.Moving
import SharedSlab.Proofs.MutualExclusion
import SharedSlab.Proofs.NameLife
import SharedSlab.Proofs.NoFaults
import SharedSlab.Proofs.PageFilling
import SharedSlab.Proofs.RingCalls
import SharedSlab.Proofs.SmallBitmaps
import SharedSlab.Proofs.Statistics
import SharedSlab.Proofs.Zeroing
