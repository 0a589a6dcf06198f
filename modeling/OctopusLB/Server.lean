/-
# Servers and the balancer (`octopus.h`)

The shared part of the state: the `SERVER` records, the `BALANCER` that holds
the two server tables, and the constants both are declared with.

`float` fields are kept over an arbitrary type `L` with the few operations the
code applies to them (`LoadArith`), so results that do not depend on how loads
compare hold for IEEE floats as well as for exact rationals.

`members[]` and `clones[]` are adjacent arrays of the same struct, so both are
views of one array `servers`: slot `i` of `members` is entry `i` and slot `i` of
`clones` is entry `maxServers + i`.  A pointer to a server is its entry number,
and an index past the end of `members` lands in `clones`, as it does in memory.
-/
import Mathlib.Algebra.Order.Ring.Int
import Mathlib.Logic.Function.Basic
import Mathlib.Tactic.Common

namespace OctopusLB

/-! ## Constants -/

/-- `MAXSERVERS`: capacity of each of the two server tables. -/
def maxServers : ℕ := 512

/-- `HASHTABLESIZE`: number of entries of the URI hash table. -/
def hashTableSize : ℕ := 65535

/-- `MESSAGE_SIZE_LIMIT`: size of each of the three buffers of a session. -/
def messageSizeLimit : ℕ := 4096

/-- `URI_LINE_LEN`: how much of a request is looked at for its URI. -/
def uriLineLen : ℕ := 200

theorem maxServers_pos : 0 < maxServers := by decide

theorem messageSizeLimit_pos : 0 < messageSizeLimit := by decide

/-! ## Enumerations -/

/-- `SERVER_STATE_*`. -/
inductive ServerStatus
  | free
  | deleted
  | failed
  | disabled
  | enabled
  deriving DecidableEq, Repr

/-- `CLONE_MODE_*`. -/
inductive CloneMode
  | off
  | on
  | failed
  deriving DecidableEq, Repr

/-- `OVERLOAD_MODE_*`. -/
inductive OverloadMode
  | relaxed
  | strict
  deriving DecidableEq, Repr

/-- `ALGORITHM_*`. -/
inductive Algorithm
  | rr
  | lc
  | ll
  | hash
  | static
  deriving DecidableEq, Repr

/-- The two kinds of servers (`SERVER_CLONE_FALSE`, `SERVER_CLONE_TRUE`). -/
inductive ServerKind
  | member
  | clone
  deriving DecidableEq, Repr

/-! ## Load arithmetic -/

/-- What the code does with the `float` values `load`, `maxl` and
`session_weight`: add, multiply, convert an `int`, compare. -/
class LoadArith (L : Type) extends Add L, Mul L, IntCast L where
  less : L → L → Bool

/-- Exact loads in an ordered type compare by its order. -/
instance {L : Type} [LinearOrder L] [Add L] [Mul L] [IntCast L] : LoadArith L where
  less a b := decide (a < b)

/-! ## Servers -/

/-- `SERVER`.  `standbyState` is `true` for `STANDBY_STATE_TRUE`; of `myaddr`
the address and the port are kept. -/
structure Server (L : Type) where
  id : ℕ
  name : List UInt8
  status : ServerStatus
  standbyState : Bool
  port : ℤ
  sinAddr : UInt32
  sinPort : UInt16
  c : ℤ
  maxc : ℤ
  completedC : UInt64
  bsent : UInt64
  brecv : UInt64
  load : L
  maxl : L
  eLoad : ℤ
  hashTableUsage : UInt16

/-- A server record after `memset(.., '\0', sizeof(SERVER))`: every field zero,
which reads as `SERVER_STATE_FREE` and `STANDBY_STATE_TRUE`. -/
def Server.zero (L : Type) [IntCast L] : Server L where
  id := 0
  name := []
  status := .free
  standbyState := true
  port := 0
  sinAddr := 0
  sinPort := 0
  c := 0
  maxc := 0
  completedC := 0
  bsent := 0
  brecv := 0
  load := ((0 : ℤ) : L)
  maxl := ((0 : ℤ) : L)
  eLoad := 0
  hashTableUsage := 0

/-- A sample: an enabled server with room for ten connections. -/
def sampleServer (i : ℕ) (standby : Bool) : Server ℤ :=
  { Server.zero ℤ with id := i, status := .enabled, standbyState := standby, maxc := 10 }

/-! ## The balancer -/

/-- `BALANCER`, with the fields that the modelled functions use.  A hash table
entry is `none` for `HASH_VAL_FREE`.  `servers` is the memory from the member table
on, by records: `MAXSERVERS` members, as many clones behind them, and from slot
`2 * MAXSERVERS` on what lies behind both tables, where no record is ever written
(`PastTables`). -/
structure Balancer (L : Type) where
  hashTable : ℕ → Option ℕ
  nmembers : ℕ
  nclones : ℕ
  algorithm : Algorithm
  cloneMode : CloneMode
  overloadMode : OverloadMode
  servers : ℕ → Server L
  sessionWeight : L
  defaultMaxc : ℤ
  defaultMaxl : L

namespace Balancer

variable {L : Type}

/-- `&balancer->members[i]`. -/
def memberSlot (i : ℕ) : ℕ := i

/-- `&balancer->clones[i]`. -/
def cloneSlot (i : ℕ) : ℕ := maxServers + i

/-- `balancer->members[i]`. -/
def members (b : Balancer L) (i : ℕ) : Server L := b.servers (memberSlot i)

/-- `balancer->clones[i]`. -/
def clones (b : Balancer L) (i : ℕ) : Server L := b.servers (cloneSlot i)

/-- Write through a pointer to a server. -/
def modifyServer (b : Balancer L) (p : ℕ) (f : Server L → Server L) : Balancer L :=
  { b with servers := Function.update b.servers p (f (b.servers p)) }

theorem servers_modifyServer (b : Balancer L) (p q : ℕ) (f : Server L → Server L) :
    (b.modifyServer p f).servers q = if q = p then f (b.servers q) else b.servers q := by
  show Function.update b.servers p (f (b.servers p)) q = _
  by_cases h : q = p
  · rw [h, if_pos rfl, Function.update_self]
  · rw [if_neg h, Function.update_of_ne h]

@[simp] theorem servers_modifyServer_self (b : Balancer L) (p : ℕ) (f : Server L → Server L) :
    (b.modifyServer p f).servers p = f (b.servers p) := by
  rw [servers_modifyServer, if_pos rfl]

@[simp] theorem hashTable_modifyServer (b : Balancer L) (p : ℕ) (f : Server L → Server L) :
    (b.modifyServer p f).hashTable = b.hashTable := rfl

@[simp] theorem nmembers_modifyServer (b : Balancer L) (p : ℕ) (f : Server L → Server L) :
    (b.modifyServer p f).nmembers = b.nmembers := rfl

@[simp] theorem nclones_modifyServer (b : Balancer L) (p : ℕ) (f : Server L → Server L) :
    (b.modifyServer p f).nclones = b.nclones := rfl

@[simp] theorem algorithm_modifyServer (b : Balancer L) (p : ℕ) (f : Server L → Server L) :
    (b.modifyServer p f).algorithm = b.algorithm := rfl

@[simp] theorem overloadMode_modifyServer (b : Balancer L) (p : ℕ) (f : Server L → Server L) :
    (b.modifyServer p f).overloadMode = b.overloadMode := rfl

/-- A field that a write does not change is unchanged in every server. -/
theorem servers_modifyServer_eq {α : Type*} (g : Server L → α) (b : Balancer L) (p q : ℕ)
    (f : Server L → Server L) (hf : g (f (b.servers p)) = g (b.servers p)) :
    g ((b.modifyServer p f).servers q) = g (b.servers q) := by
  rw [servers_modifyServer]
  by_cases h : q = p
  · rw [if_pos h, h, hf]
  · rw [if_neg h]

end Balancer

end OctopusLB
