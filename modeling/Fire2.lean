import Fire2.AssignLoop
import Fire2.Auth
import Fire2.Boots
import Fire2.Capacity
import Fire2.Cleanups
import Fire2.Confinement
import Fire2.Convergence
import Fire2.CreateJob
import Fire2.DeviceMapper
import Fire2.Divergence
import Fire2.FirstInventory
import Fire2.Heartbeat
import Fire2.Inactivity
import Fire2.Incarnations
import Fire2.Listing
import Fire2.Locking
import Fire2.LoneWorker
import Fire2.ManagerSafety
import Fire2.Orphans
import Fire2.Placement
import Fire2.Quiescence
import Fire2.ReaperPass
import Fire2.Regressions
import Fire2.Remnants
import Fire2.Replies
import Fire2.Restarts
import Fire2.River
import Fire2.ShimExits
import Fire2.Slots
import Fire2.StateChanges
import Fire2.VolumeRollback
