import NetworkOs.Ecommerce.Capacity
import NetworkOs.Ecommerce.WaitTimes
import NetworkOs.Ecommerce.Arrivals
import NetworkOs.Ecommerce.Priorities
import NetworkOs.Ecommerce.Statistics
import NetworkOs.Ecommerce.Turnaround
import NetworkOs.Reservation.Sequential
import NetworkOs.Reservation.Exclusion
import NetworkOs.Reservation.FreeRows
import NetworkOs.Reservation.Settled
import NetworkOs.Restaurant.Wakeups
import NetworkOs.Restaurant.Spurious
import NetworkOs.Restaurant.Batches
import NetworkOs.Exam.Deadlock
import NetworkOs.Exam.Grades
import NetworkOs.Exam.Printing
import NetworkOs.Pipes.Blocking
import NetworkOs.Pipes.Errors
import NetworkOs.Pipes.SetUp
import NetworkOs.Lru.Refinement
import NetworkOs.Lru.Consistency
import NetworkOs.Lru.Inclusion
import NetworkOs.Lru.Bounds
import NetworkOs.Lru.Compositions
import NetworkOs.Ospf.Weights
import NetworkOs.Ospf.Integrity
import NetworkOs.Ospf.Destinations
import NetworkOs.Ospf.NullSafety
import NetworkOs.Ospf.Undo
import NetworkOs.Csma.Contention
import NetworkOs.Csma.Unset
import NetworkOs.Csma.Exactness
import NetworkOs.Ftp.Segmentation
import NetworkOs.Ftp.ListedNames
import NetworkOs.Ftp.Scratch
import NetworkOs.Ftp.Closes
import NetworkOs.Ftp.RoundTrips
import NetworkOs.Tcp.Fairness
import NetworkOs.Bridge.Completion
import NetworkOs.Lru.Fetches
import NetworkOs.Lru.Printing
import NetworkOs.Csma.Timeline
import NetworkOs.Ospf.Rounds
import NetworkOs.Tcp.Applications
import NetworkOs.Ftp.Sessions
