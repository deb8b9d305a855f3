import PRacer.Foundations.TransitionSystem
import PRacer.Foundations.PlanarOrder
import PRacer.Foundations.Simulation
import PRacer.Foundations.RaiseMax
import PRacer.MemAccess.Serial
import PRacer.MemAccess.Concurrent
import PRacer.MemAccess.Undisturbed
import PRacer.Foundations.InsertionOrder
import PRacer.Foundations.Address
import PRacer.Foundations.AddressedOrder
import PRacer.Pipeline.Correctness
import PRacer.Pipeline.LeftDependency
import PRacer.Pipeline.RingRefinement
import PRacer.Omrd.SlowPath
import PRacer.Omrd.QueryCorrectness
import PRacer.ShadowStack.Correctness
import PRacer.Piper.Throttling
import PRacer.Piper.StageWait
import PRacer.Piper.Handoff
import PRacer.Piper.LockOrder
import PRacer.Piper.Restoration
import PRacer.Foundations.LockTable
import PRacer.MemAccess.Coverage
import PRacer.MemAccess.ConcurrentReads
import PRacer.Piper.SuspendIter
import PRacer.OrderMaint.Height
import PRacer.ShadowTable.Insertion
import PRacer.ShadowTable.Clearing
import PRacer.FrameStack.Correctness
import PRacer.WorkStealing.Correctness
