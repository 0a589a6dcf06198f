/-
# Choosing a server (`algorithms.c`)

The selection half of `choose_server`: `get_available_servers` lists the
servers that may be used, and one of five algorithms moves the cursors
`next_member` and `next_clone`.  Everything here works on a `Chooser`: the
balancer together with the global variables of `octopus.h` that the algorithms
share and that survive from one request to the next.

The member and clone halves of the source repeat each other; where they do the
same thing they are one definition here, applied to `members` or `clones`.
-/
import OctopusLB.CString
import OctopusLB.Scan
import OctopusLB.Server

namespace OctopusLB

/-- The balancer and the globals of the selection algorithms.  The lengths of
the two lists are `available_members_count` and `available_clones_count`. -/
structure Chooser (L : Type) where
  balancer : Balancer L
  nextMember : ℕ
  nextClone : ℕ
  availableMembers : List ℕ
  availableClones : List ℕ
  useClone : Bool
  usingMemberStandby : Bool
  usingCloneStandby : Bool

variable {L : Type}

/-! ## Available servers -/

/-- The two `continue` tests of the first scan. -/
def skipNormal (mode : OverloadMode) (s : Server L) : Bool :=
  (s.c ≥ s.maxc || s.status ≠ .enabled || s.standbyState)
    || (mode = .strict && s.eLoad > 100)

/-- The two `continue` tests of the second scan, which admits standby servers. -/
def skipAny (mode : OverloadMode) (s : Server L) : Bool :=
  (s.c ≥ s.maxc || s.status ≠ .enabled) || (mode = .strict && s.eLoad > 100)

/-- One scan over the first `n` slots of a table. -/
def scanServers (skip : Server L → Bool) (servers : ℕ → Server L) (n : ℕ) : List ℕ :=
  (List.range n).filter fun i => !skip (servers i)

/-- Both scans: standby servers are listed only if there is no other. -/
def availableServers (mode : OverloadMode) (servers : ℕ → Server L) (n : ℕ) : List ℕ :=
  if scanServers (skipNormal mode) servers n = [] then scanServers (skipAny mode) servers n
  else scanServers (skipNormal mode) servers n

/-- `verify_server`: -1 for an invalid server, 1 for a valid standby, else 0. -/
def verifyServer (mode : OverloadMode) (s : Server L) : ℤ :=
  if mode = .strict ∧ (s.status ≠ .enabled ∨ s.eLoad > 100 ∨ s.c ≥ s.maxc) then -1
  else if s.status ≠ .enabled ∨ s.c ≥ s.maxc then -1
  else if s.standbyState then 1
  else 0

/-- The scans over the members, with the flags that `get_available_servers`
resets first. -/
def scanMembers (x : Chooser L) : Chooser L :=
  let b := x.balancer
  let members := availableServers b.overloadMode b.members b.nmembers
  { x with
    usingMemberStandby :=
      (scanServers (skipNormal b.overloadMode) b.members b.nmembers).isEmpty && !members.isEmpty
    usingCloneStandby := false
    availableMembers := members
    availableClones := []
    useClone := false }

/-- Move a member cursor that is invalid, or a standby while others are
available, to the first available member. -/
def validateMember (x : Chooser L) : Chooser L :=
  let status := verifyServer x.balancer.overloadMode (x.balancer.members x.nextMember)
  let next := if status = -1 then x.availableMembers.headD 0 else x.nextMember
  let next :=
    if status = 1 ∧ x.usingMemberStandby = false then x.availableMembers.headD 0 else next
  { x with nextMember := next }

/-- The scans over the clones. -/
def scanClones (x : Chooser L) : Chooser L :=
  let b := x.balancer
  let clones := availableServers b.overloadMode b.clones b.nclones
  { x with
    availableClones := clones
    usingCloneStandby :=
      (scanServers (skipNormal b.overloadMode) b.clones b.nclones).isEmpty && !clones.isEmpty }

/-- Move an invalid clone cursor to the first available clone.  The test for a
standby clone assigns the member cursor, as the source does. -/
def validateClone (x : Chooser L) : Chooser L :=
  let status := verifyServer x.balancer.overloadMode (x.balancer.clones x.nextClone)
  { x with
    useClone := true
    nextClone := if status = -1 then x.availableClones.headD 0 else x.nextClone
    nextMember :=
      if status = 1 ∧ x.usingMemberStandby = false then x.availableMembers.headD 0
      else x.nextMember }

/-- The clone half of `get_available_servers`. -/
def availableClonesHalf (x : Chooser L) : Chooser L :=
  if x.balancer.cloneMode = .on then
    if (scanClones x).availableClones = [] then scanClones x else validateClone (scanClones x)
  else x

/-- `get_available_servers`, with its return value. -/
def getAvailableServers (x : Chooser L) : Chooser L × ℤ :=
  if (scanMembers x).availableMembers = [] then (scanMembers x, -1)
  else (availableClonesHalf (validateMember (scanMembers x)), 0)

/-! ## The five algorithms -/

/-- Round robin over one table: the server listed after the one the cursor
names; a cursor that is not listed stays. -/
def roundRobin (servers : ℕ → Server L) (available : List ℕ) (cursor : ℕ) : ℕ :=
  if cursor ∈ available then (servers (Scan.cyclicNext available cursor)).id else cursor

/-- One pass over the available servers that moves the cursor to every
candidate that is `less` than the server it names. -/
def lowest (less : Server L → Server L → Bool) (servers : ℕ → Server L) (available : List ℕ)
    (cursor : ℕ) : ℕ :=
  available.foldl
    (fun cursor i => if less (servers i) (servers cursor) then (servers i).id else cursor) cursor

/-- The comparison of `set_lc_server`. -/
def fewerConnections (s t : Server L) : Bool := decide (s.c < t.c)

/-- The comparison of `set_ll_server`. -/
def lessLoad [LoadArith L] (weight : L) (s t : Server L) : Bool :=
  LoadArith.less (s.load + ((s.c : ℤ) : L) * weight) (t.load + ((t.c : ℤ) : L) * weight)

/-- Move the member cursor, and the clone cursor if clones are in use, by the
same rule over their tables. -/
def moveCursors (rule : (ℕ → Server L) → List ℕ → ℕ → ℕ) (x : Chooser L) : Chooser L :=
  let x := { x with nextMember := rule x.balancer.members x.availableMembers x.nextMember }
  if x.useClone then
    { x with nextClone := rule x.balancer.clones x.availableClones x.nextClone }
  else x

/-- `set_rr_server`. -/
def setRrServer (x : Chooser L) : Chooser L := moveCursors roundRobin x

/-- `set_lc_server`: round robin first, then the pass for fewer connections. -/
def setLcServer (x : Chooser L) : Chooser L :=
  moveCursors (lowest fewerConnections) (setRrServer x)

/-- `set_ll_server`. -/
def setLlServer [LoadArith L] (x : Chooser L) : Chooser L :=
  moveCursors (lowest (lessLoad x.balancer.sessionWeight)) x

/-- One round of `DJBHash`; `char` is signed. -/
def djbStep (hash : UInt32) (c : UInt8) : UInt32 :=
  ((hash <<< 5) + hash) + (if c < 128 then c.toUInt32 else c.toUInt32 - 256)

/-- `DJBHash`, cut to `unsigned short int`. -/
def djbHash (str : List UInt8) : UInt16 := (str.foldl djbStep 5381).toUInt16

/-- `request_line` after `memset` and `memccpy`. -/
def requestLine (clientReadBuffer : List UInt8) : List UInt8 :=
  let line := CString.memccpy 10 uriLineLen clientReadBuffer
  line ++ List.replicate (uriLineLen - line.length) 0

/-- The URI part shared by `set_static_server` and `set_hash_server`: the table
index of the request, `null` if the request is not of the form "VERB NOUN",
`fault` if the scan leaves `request_line` or the URI has nothing but question
marks (`strlen(NULL)`). -/
def uriIndex (clientReadBuffer : List UInt8) : CString.Result ℕ :=
  match CString.strchr 32 (requestLine clientReadBuffer) with
  | .fault => .fault
  | .null => .null
  | .found uriStart =>
      match CString.strtok 32 uriStart with
      | .fault => .fault
      | .null => .null
      | .found uri =>
          if (63 : UInt8) ∈ uri then
            match CString.strtok 63 (uri ++ [0]) with
            | .found result => .found ((djbHash result).toNat % (hashTableSize - 1))
            | _ => .fault
          else .found ((djbHash uri).toNat % (hashTableSize - 1))

/-- `next_clone=available_clones[hash % available_clones_count]` where clones
are in use. -/
def hashClone (hash : ℕ) (x : Chooser L) : Chooser L :=
  if x.useClone then
    { x with nextClone := x.availableClones.getD (hash % x.availableClones.length) 0 }
  else x

/-- `set_static_server`; `none` if the URI scan faults. -/
def setStaticServer (clientReadBuffer : List UInt8) (x : Chooser L) : Option (Chooser L) :=
  match uriIndex clientReadBuffer with
  | .fault => none
  | .null => some (setLcServer x)
  | .found hash =>
      some (hashClone hash
        { x with nextMember := x.availableMembers.getD (hash % x.availableMembers.length) 0 })

/-- `balancer->hash_table[hash]=next_member`, counted in the member's usage. -/
def assignHash (hash : ℕ) (x : Chooser L) : Chooser L :=
  let b := x.balancer.modifyServer (Balancer.memberSlot x.nextMember)
    fun s => { s with hashTableUsage := s.hashTableUsage + 1 }
  { x with balancer :=
      { b with hashTable := Function.update b.hashTable hash (some x.nextMember) } }

/-- The part of `set_hash_server` that has found a table index. -/
def hashLookup (hash : ℕ) (x : Chooser L) : Chooser L :=
  match x.balancer.hashTable hash with
  | some k =>
      let candidate := x.balancer.members k
      let status := verifyServer x.balancer.overloadMode candidate
      if status = 0 ∨ (status = 1 ∧ x.usingMemberStandby = true) then
        hashClone hash { x with nextMember := candidate.id }
      else
        -- the hash is moved to another server for good
        let x := setLcServer x
        let b := x.balancer.modifyServer (Balancer.memberSlot k)
          fun s => { s with hashTableUsage := s.hashTableUsage - 1 }
        assignHash hash { x with balancer := b }
  | none => assignHash hash (setLcServer x)

/-- `set_hash_server`; `none` if the URI scan faults. -/
def setHashServer (clientReadBuffer : List UInt8) (x : Chooser L) : Option (Chooser L) :=
  match uriIndex clientReadBuffer with
  | .fault => none
  | .null => some (setLcServer x)
  | .found hash => some (hashLookup hash x)

/-- The dispatch of `choose_server` on the algorithm. -/
def selectServer [LoadArith L] (clientReadBuffer : List UInt8) (x : Chooser L) :
    Option (Chooser L) :=
  match x.balancer.algorithm with
  | .rr => some (setRrServer x)
  | .ll => some (setLlServer x)
  | .lc => some (setLcServer x)
  | .hash => setHashServer clientReadBuffer x
  | .static => setStaticServer clientReadBuffer x

/-- `choose_server` up to its call of `connect_server`, with the status that it
returns if it gives up before. -/
def chooseCandidate [LoadArith L] (clientReadBuffer : List UInt8) (x : Chooser L) :
    Option (Chooser L × ℤ) :=
  if (getAvailableServers x).2 ≠ 0 then some ((getAvailableServers x).1, -1)
  else (selectServer clientReadBuffer (getAvailableServers x).1).map fun y => (y, 0)

end OctopusLB
