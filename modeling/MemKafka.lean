import MemKafka.Abandonment
import MemKafka.Addresses
import MemKafka.Allocation
import MemKafka.Calls
import MemKafka.Connection
import MemKafka.Departures
import MemKafka.Discovery
import MemKafka.ExactlyOnce
import MemKafka.Expiry
import MemKafka.Fencing
import MemKafka.FetchBudget
import MemKafka.FetchWakeups
import MemKafka.Frames
import MemKafka.Grammar
import MemKafka.HandOver
import MemKafka.Identities
import MemKafka.Independence
import MemKafka.Offsets
import MemKafka.Panics
import MemKafka.RegistryIdentity
import MemKafka.Rejection
import MemKafka.Unwrapped
import MemKafka.Wakeups
