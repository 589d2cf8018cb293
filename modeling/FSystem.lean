import FSystem.Abi.Deadline
import FSystem.Abi.Reserve
import FSystem.Blob.Feeding
import FSystem.Blob.RoundTrip
import FSystem.Compositor.Pacing
import FSystem.Generation.Divergence
import FSystem.Hash.Standard
import FSystem.Index.Durability
import FSystem.Interface.Share
import FSystem.Kernel.FrameSafety
import FSystem.Kernel.Mapping
import FSystem.Kernel.Promises
import FSystem.Kernel.Remapping
import FSystem.Ring.Heap
import FSystem.Ring.Wakeup
import FSystem.Scene.Degrade
import FSystem.Scene.DirtyWalk
import FSystem.Semantic.Wholeness
import FSystem.Semantic.Restate
import FSystem.Supervisor.Restarts
import FSystem.Supervisor.Stops
import FSystem.Text.Grapheme
import FSystem.Text.VisualOrder
import FSystem.Zone.Collection
import FSystem.Zone.Leaks
import FSystem.Zone.Rollback
import FSystem.Zone.RootHistory
import FSystem.Zone.Safety
import FSystem.Zone.Stored
import FSystem.Zone.Urgency
import FSystem.Zone.Victims
