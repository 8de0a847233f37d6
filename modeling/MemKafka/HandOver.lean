import MemKafka.Tailing

/-!
# Handing over a partition (`kafka/offset_commit.rs`, `kafka/offset_fetch.rs`)

A consumer commits how far it has got, and the next one of its group fetches that offset and goes on from there. The first one's
offset is a boundary of the log, and boundaries last; so between the two of them every batch is got once.
-/

namespace MemKafka
open Kit

/-! ### The handlers -/

section
variable {s s' : Coordinator} {tr : List CoordinatorEvent}

end

/-! ### One offset in the steps between -/

section
variable {s s' : Coordinator} {before tr : List CoordinatorEvent} {groupId : String} {key : TopicPartition} {offset : Int}

end

end MemKafka
