/-
# The server tables (`octopus.h`, `init.c`, `monitor.c`)

What is done to the two tables as a whole: `initialize_balancer`,
`create_balancer_server`, `set_cloned_state` and `handle_delete_servers`.  The
member and the clone half of each are one definition, taken at the kind.

Each operation comes with what it does to the table: `createBalancerServer_cases`
and `released_handleDeleteServers` (through `Released`, one kind at a time).
-/
import OctopusLB.CString
import OctopusLB.Server

namespace OctopusLB

variable {L : Type}

/-! ## One table of the two -/

/-- `SERVERNAME_MAX_LENGTH`. -/
def serverNameMaxLength : ℕ := 16

/-- `DEFAULT_MAXC`. -/
def defaultMaxc : ℤ := 500

namespace Balancer

/-- `&balancer->members[i]` or `&balancer->clones[i]`. -/
def slot : ServerKind → ℕ → ℕ
  | .member, i => memberSlot i
  | .clone, i => cloneSlot i

/-- `balancer->nmembers` or `balancer->nclones`. -/
def count (b : Balancer L) : ServerKind → ℕ
  | .member => b.nmembers
  | .clone => b.nclones

/-- Set the number of servers of a table. -/
def setCount (b : Balancer L) (kind : ServerKind) (k : ℕ) : Balancer L :=
  match kind with
  | .member => { b with nmembers := k }
  | .clone => { b with nclones := k }

/-- `balancer->members[i]` or `balancer->clones[i]`. -/
def table (b : Balancer L) (kind : ServerKind) (i : ℕ) : Server L := b.servers (slot kind i)

@[simp] theorem table_member (b : Balancer L) : b.table .member = b.members := rfl

@[simp] theorem table_clone (b : Balancer L) : b.table .clone = b.clones := rfl

/-- Slots of one table are told apart by their index. -/
theorem slot_injective (kind : ServerKind) : Function.Injective (slot kind) := by
  intro i j h
  cases kind with
  | member => exact h
  | clone => exact Nat.add_left_cancel h

/-- Slots within the two arrays are told apart by table and index. -/
theorem slot_inj {kind kind' : ServerKind} {i j : ℕ} (hi : i < maxServers) (hj : j < maxServers)
    (h : slot kind i = slot kind' j) : kind = kind' ∧ i = j := by
  cases kind with
  | member =>
      cases kind' with
      | member => exact ⟨rfl, h⟩
      | clone =>
          have h' : i = maxServers + j := h
          omega
  | clone =>
      cases kind' with
      | member =>
          have h' : maxServers + i = j := h
          omega
      | clone => exact ⟨rfl, slot_injective .clone h⟩

section SetCount

variable (b : Balancer L) (kind : ServerKind) (k : ℕ)

@[simp] theorem servers_setCount : (b.setCount kind k).servers = b.servers := by
  cases kind <;> rfl

@[simp] theorem hashTable_setCount : (b.setCount kind k).hashTable = b.hashTable := by
  cases kind <;> rfl

@[simp] theorem algorithm_setCount : (b.setCount kind k).algorithm = b.algorithm := by
  cases kind <;> rfl

@[simp] theorem cloneMode_setCount : (b.setCount kind k).cloneMode = b.cloneMode := by
  cases kind <;> rfl

@[simp] theorem overloadMode_setCount : (b.setCount kind k).overloadMode = b.overloadMode := by
  cases kind <;> rfl

theorem count_setCount (kind' : ServerKind) :
    (b.setCount kind k).count kind' = if kind' = kind then k else b.count kind' := by
  cases kind <;> cases kind' <;> rfl

@[simp] theorem count_setCount_self : (b.setCount kind k).count kind = k := by
  rw [count_setCount, if_pos rfl]

@[simp] theorem count_modifyServer (p : ℕ) (f : Server L → Server L) :
    (b.modifyServer p f).count = b.count := by
  funext kind
  cases kind <;> rfl

@[simp] theorem cloneMode_modifyServer (p : ℕ) (f : Server L → Server L) :
    (b.modifyServer p f).cloneMode = b.cloneMode := rfl

theorem servers_modifyServer_of_ne {p q : ℕ} (h : q ≠ p) (f : Server L → Server L) :
    (b.modifyServer p f).servers q = b.servers q := by
  rw [servers_modifyServer, if_neg h]

end SetCount

end Balancer

open Balancer

/-! ## `initialize_balancer` -/

/-- `initialize_balancer`; the two default loads are given. -/
def initializeBalancer [IntCast L] (defaultMaxl sessionWeight : L) : Balancer L where
  hashTable := fun _ => none
  nmembers := 0
  nclones := 0
  algorithm := .lc
  cloneMode := .off
  overloadMode := .relaxed
  servers := fun _ => .zero L
  sessionWeight := sessionWeight
  defaultMaxc := defaultMaxc
  defaultMaxl := defaultMaxl

/-! ## `create_balancer_server` -/

/-- `htons`. -/
def htons (port : UInt16) : UInt16 := port <<< 8 ||| port >>> 8

/-- The arguments of `create_balancer_server` other than the kind. -/
structure CreateRequest (L : Type) where
  serverName : List UInt8
  serverStatus : ServerStatus
  standbyState : Bool
  serverPort : ℤ
  serverIP : UInt32
  serverMaxc : ℤ
  servermaxl : L

/-- The record that `create_balancer_server` fills in before it looks for a
slot; `SNMP_LOAD_NOT_INIT` is -1. -/
def CreateRequest.record [IntCast L] (r : CreateRequest L) : Server L :=
  { Server.zero L with
    name := CString.strncpy serverNameMaxLength r.serverName
    status := r.serverStatus
    standbyState := r.standbyState
    port := r.serverPort
    maxc := r.serverMaxc
    load := ((-1 : ℤ) : L)
    maxl := r.servermaxl
    sinPort := htons (.ofInt r.serverPort)
    sinAddr := r.serverIP }

/-- The first free slot of a table. -/
def firstFree (kind : ServerKind) (b : Balancer L) : Option ℕ :=
  (List.range (b.count kind)).find? fun i => (b.table kind i).status = .free

/-- Copy a record into a slot and give it the id of the slot. -/
def writeServer (kind : ServerKind) (i : ℕ) (s : Server L) (b : Balancer L) : Balancer L :=
  b.modifyServer (slot kind i) fun _ => { s with id := i }

/-- `create_balancer_server`, with its return value; `malloc` is `false` if the
record cannot be allocated.  Its callers end where the record would overwrite what
lies behind both tables (`PastTables`). -/
def createBalancerServer [IntCast L] (malloc : Bool) (kind : ServerKind) (r : CreateRequest L)
    (b : Balancer L) : Balancer L × ℤ :=
  if !malloc then (b, -1)
  else if htons (.ofInt r.serverPort) = 0 then (b, -2)
  else
    match firstFree kind b with
    | some i => (writeServer kind i r.record b, 0)
    | none =>
        ((writeServer kind (b.count kind) r.record b).setCount kind (b.count kind + 1), 0)

/-- The arguments with which `create_balancer_server` gets as far as writing a
record. -/
def CreateRequest.Valid (malloc : Bool) (r : CreateRequest L) : Prop :=
  malloc = true ∧ htons (.ofInt r.serverPort) ≠ 0

instance (malloc : Bool) (r : CreateRequest L) : Decidable (r.Valid malloc) := by
  unfold CreateRequest.Valid
  infer_instance

/-- The index of the slot that gets written: the first free one, or the one
past the end. -/
def newIndex (kind : ServerKind) (b : Balancer L) : ℕ := (firstFree kind b).getD (b.count kind)

/-- The slot that gets written lies behind both tables, where `BALANCER` has its
settings. -/
def PastTables (kind : ServerKind) (b : Balancer L) : Prop :=
  2 * maxServers ≤ slot kind (newIndex kind b)

instance (kind : ServerKind) (b : Balancer L) : Decidable (PastTables kind b) :=
  inferInstanceAs (Decidable (_ ≤ _))

/-- A call of `create_balancer_server` writes its record behind both tables. -/
def Overruns (b : Balancer L) (call : Option (Bool × ServerKind × CreateRequest L)) : Prop :=
  ∃ malloc kind r, call = some (malloc, kind, r) ∧ r.Valid malloc ∧ PastTables kind b

instance (b : Balancer L) (call : Option (Bool × ServerKind × CreateRequest L)) :
    Decidable (Overruns b call) :=
  match call with
  | none => isFalse fun ⟨_, _, _, h, _⟩ => by cases h
  | some (malloc, kind, r) => decidable_of_iff (r.Valid malloc ∧ PastTables kind b)
      ⟨fun h => ⟨malloc, kind, r, rfl, h⟩, fun ⟨_, _, _, h, hover⟩ => by
        cases h
        exact hover⟩

theorem not_overruns_none (b : Balancer L) : ¬ Overruns b none := by
  rintro ⟨malloc, kind, r, hcall, -⟩
  cases hcall

theorem not_overruns {b : Balancer L} {malloc : Bool} {kind : ServerKind} {r : CreateRequest L}
    (h : r.Valid malloc → ¬ PastTables kind b) : ¬ Overruns b (some (malloc, kind, r)) := by
  rintro ⟨malloc', kind', r', hcall, hvalid, hpast⟩
  cases hcall
  exact h hvalid hpast

/-- All slots of the tables lie in front of the settings. -/
def InTables (b : Balancer L) : Prop := ∀ kind, ∀ i < b.count kind, slot kind i < 2 * maxServers

/-- A slot found free is one of the table, and free. -/
theorem firstFree_spec {kind : ServerKind} {b : Balancer L} {i : ℕ}
    (h : firstFree kind b = some i) : i < b.count kind ∧ (b.table kind i).status = .free := by
  have hmem := List.mem_of_find?_eq_some h
  have hfree := List.find?_some h
  exact ⟨List.mem_range.mp hmem, of_decide_eq_true hfree⟩

/-- No slot is found exactly if none is free. -/
theorem firstFree_eq_none_iff {kind : ServerKind} {b : Balancer L} :
    firstFree kind b = none ↔ ∀ i < b.count kind, (b.table kind i).status ≠ .free := by
  rw [firstFree, List.find?_eq_none]
  constructor
  · intro h i hi hfree
    exact h i (List.mem_range.mpr hi) (decide_eq_true hfree)
  · intro h i hi hfree
    exact h i (List.mem_range.mp hi) (of_decide_eq_true hfree)

theorem newIndex_le (kind : ServerKind) (b : Balancer L) : newIndex kind b ≤ b.count kind := by
  unfold newIndex
  cases h : firstFree kind b with
  | none => exact Nat.le_refl _
  | some i => exact Nat.le_of_lt (firstFree_spec h).1

/-- The slot written is free unless it is the one past the end. -/
theorem newIndex_free {kind : ServerKind} {b : Balancer L} (h : newIndex kind b < b.count kind) :
    (b.table kind (newIndex kind b)).status = .free := by
  unfold newIndex at h ⊢
  cases hf : firstFree kind b with
  | none =>
      rw [hf] at h
      exact absurd h (Nat.lt_irrefl _)
  | some i => exact (firstFree_spec hf).2

/-- What a creation that gets as far as writing a record does. -/
structure Creates [IntCast L] (kind : ServerKind) (r : CreateRequest L) (b b' : Balancer L) :
    Prop where
  written : b'.table kind (newIndex kind b) = { r.record with id := newIndex kind b }
  others : ∀ p, p ≠ slot kind (newIndex kind b) → b'.servers p = b.servers p
  count : b'.count kind = max (b.count kind) (newIndex kind b + 1)
  otherCount : ∀ kind', kind' ≠ kind → b'.count kind' = b.count kind'
  hashTable : b'.hashTable = b.hashTable
  algorithm : b'.algorithm = b.algorithm
  cloneMode : b'.cloneMode = b.cloneMode
  overloadMode : b'.overloadMode = b.overloadMode

/-- **Creation.**  Either nothing changes and an error is returned, or exactly
one slot is written. -/
theorem createBalancerServer_cases [IntCast L] (malloc : Bool) (kind : ServerKind)
    (r : CreateRequest L) (b : Balancer L) :
    (¬ r.Valid malloc ∧ (createBalancerServer malloc kind r b).1 = b ∧
        (createBalancerServer malloc kind r b).2 < 0) ∨
      (r.Valid malloc ∧ (createBalancerServer malloc kind r b).2 = 0 ∧
        Creates kind r b (createBalancerServer malloc kind r b).1) := by
  unfold createBalancerServer
  by_cases hmalloc : malloc = true
  · by_cases hport : htons (.ofInt r.serverPort) = 0
    · rw [hmalloc, if_neg (by simp), if_pos hport]
      exact Or.inl ⟨fun h => h.2 hport, rfl, show (-2 : ℤ) < 0 by decide⟩
    · rw [hmalloc, if_neg (by simp), if_neg hport]
      refine Or.inr ⟨⟨rfl, hport⟩, ?_⟩
      cases hf : firstFree kind b with
      | some i =>
          have hnew : newIndex kind b = i := by rw [newIndex, hf, Option.getD_some]
          have hlt := (firstFree_spec hf).1
          refine ⟨rfl, ?_⟩
          show Creates kind r b (writeServer kind i r.record b)
          constructor
          · rw [hnew]
            exact servers_modifyServer_self _ _ _
          · intro p hp
            rw [hnew] at hp
            exact servers_modifyServer_of_ne _ hp _
          · rw [hnew, Nat.max_eq_left hlt]
            exact congrFun (count_modifyServer b _ _) kind
          · intro kind' _
            exact congrFun (count_modifyServer b _ _) kind'
          all_goals rfl
      | none =>
          have hnew : newIndex kind b = b.count kind := by rw [newIndex, hf, Option.getD_none]
          refine ⟨rfl, ?_⟩
          show Creates kind r b ((writeServer kind (b.count kind) r.record b).setCount kind _)
          constructor
          · rw [hnew, table, servers_setCount]
            exact servers_modifyServer_self _ _ _
          · intro p hp
            rw [hnew] at hp
            rw [servers_setCount]
            exact servers_modifyServer_of_ne _ hp _
          · rw [hnew, count_setCount_self]
            omega
          · intro kind' hne
            rw [count_setCount, if_neg hne]
            exact congrFun (count_modifyServer b _ _) kind'
          · exact hashTable_setCount _ _ _
          · exact algorithm_setCount _ _ _
          · exact cloneMode_setCount _ _ _
          · exact overloadMode_setCount _ _ _
  · rw [if_pos (by simpa using hmalloc)]
    exact Or.inl ⟨fun h => hmalloc h.1, rfl, show (-1 : ℤ) < 0 by decide⟩

/-- A slot within the array of its kind is in the tables. -/
theorem not_pastTables_of_lt {kind : ServerKind} {b : Balancer L}
    (h : newIndex kind b < maxServers) : ¬ PastTables kind b := by
  unfold PastTables
  cases kind with
  | member =>
      show ¬ 2 * maxServers ≤ newIndex .member b
      omega
  | clone =>
      show ¬ 2 * maxServers ≤ maxServers + newIndex .clone b
      omega

/-- There is room as long as the array of the kind is not used up. -/
theorem not_overruns_of_count_lt {kind : ServerKind} {b : Balancer L} (h : b.count kind < maxServers)
    (malloc : Bool) (r : CreateRequest L) : ¬ Overruns b (some (malloc, kind, r)) :=
  not_overruns fun _ => not_pastTables_of_lt (lt_of_le_of_lt (newIndex_le kind b) h)

/-- A creation that does not go past both tables. -/
theorem InTables.create [IntCast L] {b : Balancer L} (h : InTables b) {malloc : Bool}
    {kind : ServerKind} {r : CreateRequest L} (hroom : r.Valid malloc → ¬ PastTables kind b) :
    InTables (createBalancerServer malloc kind r b).1 := by
  rcases createBalancerServer_cases malloc kind r b with ⟨-, heq, -⟩ | ⟨hvalid, -, hc⟩
  · rw [heq]
    exact h
  · intro kind' i hi
    by_cases hk : kind' = kind
    · subst hk
      rw [hc.count] at hi
      rcases Nat.lt_or_ge i (b.count kind') with hlt | hge
      · exact h kind' i hlt
      · have hle := newIndex_le kind' b
        obtain rfl : i = newIndex kind' b := by omega
        exact not_le.mp (hroom hvalid)
    · rw [hc.otherCount kind' hk] at hi
      exact h kind' i hi

theorem InTables.of_count_le {b b' : Balancer L} (h : InTables b)
    (hcount : ∀ kind, b'.count kind ≤ b.count kind) : InTables b' :=
  fun kind i hi => h kind i (Nat.lt_of_lt_of_le hi (hcount kind))

/-- A creation shortens no table. -/
theorem count_le_create [IntCast L] (malloc : Bool) (kind : ServerKind) (r : CreateRequest L)
    (b : Balancer L) (kind' : ServerKind) :
    b.count kind' ≤ (createBalancerServer malloc kind r b).1.count kind' := by
  rcases createBalancerServer_cases malloc kind r b with ⟨-, heq, -⟩ | ⟨-, -, hc⟩
  · rw [heq]
  · by_cases hk : kind' = kind
    · rw [hk, hc.count]
      exact Nat.le_max_left _ _
    · rw [hc.otherCount kind' hk]

/-! ## `set_cloned_state` -/

/-- `set_cloned_state`. -/
def setClonedState (b : Balancer L) : Balancer L :=
  let someEnabled := (List.range b.nclones).any fun i => (b.clones i).status = .enabled
  match b.cloneMode with
  | .on => if someEnabled then b else { b with cloneMode := .failed }
  | .failed => if someEnabled then { b with cloneMode := .on } else b
  | .off => b

/-- Nothing but the clone mode changes. -/
theorem setClonedState_eq (b : Balancer L) :
    ∃ mode, setClonedState b = { b with cloneMode := mode } := by
  unfold setClonedState
  cases hmode : b.cloneMode with
  | off => exact ⟨b.cloneMode, rfl⟩
  | on =>
      dsimp only
      split_ifs
      · exact ⟨b.cloneMode, rfl⟩
      · exact ⟨_, rfl⟩
  | failed =>
      dsimp only
      split_ifs
      · exact ⟨_, rfl⟩
      · exact ⟨b.cloneMode, rfl⟩

/-! ## `handle_delete_servers` -/

/-- A server that may be released: deleted, and without connections. -/
def Server.Drained (s : Server L) : Prop := s.status = .deleted ∧ s.c = 0

instance (s : Server L) : Decidable s.Drained := by
  unfold Server.Drained
  infer_instance

/-- Free all entries of the hash table that name a member. -/
def clearHash (i : ℕ) (b : Balancer L) : Balancer L :=
  { b with hashTable := fun j =>
      if j < hashTableSize ∧ b.hashTable j = some i then none else b.hashTable j }

/-- Only members are named by the hash table. -/
def clearUses (kind : ServerKind) (i : ℕ) (b : Balancer L) : Balancer L :=
  match kind with
  | .member => clearHash i b
  | .clone => b

/-- One round of the loops of `handle_delete_servers`; the bound of the loop is
read again in every round. -/
def releaseSlot [IntCast L] (kind : ServerKind) (b : Balancer L) (i : ℕ) : Balancer L :=
  if i < b.count kind ∧ (b.table kind i).Drained then
    let b := (clearUses kind i b).modifyServer (slot kind i) fun _ => .zero L
    if i = b.count kind - 1 then b.setCount kind (b.count kind - 1)
    else b.modifyServer (slot kind i) fun s => { s with status := .free }
  else b

/-- One of the two loops. -/
def releaseServers [IntCast L] (kind : ServerKind) (b : Balancer L) : Balancer L :=
  (List.range (b.count kind)).foldl (releaseSlot kind) b

/-- `handle_delete_servers`. -/
def handleDeleteServers [IntCast L] (b : Balancer L) : Balancer L :=
  releaseServers .clone (releaseServers .member b)

/-- What the first `m` rounds of one loop do. -/
structure Released [IntCast L] (kind : ServerKind) (m : ℕ) (b b' : Balancer L) : Prop where
  zeroed : ∀ i < m, (b.table kind i).Drained → b'.table kind i = .zero L
  kept : ∀ p, (∀ i < m, p = slot kind i → ¬ (b.servers p).Drained) → b'.servers p = b.servers p
  cleared : kind = .member → ∀ j < hashTableSize, ∀ i < m, b.hashTable j = some i →
    (b.members i).Drained → b'.hashTable j = none
  hashKept : ∀ j, (kind = .member → j < hashTableSize → ∀ i < m, b.hashTable j = some i →
    ¬ (b.members i).Drained) → b'.hashTable j = b.hashTable j
  count : b'.count kind = if m = b.count kind ∧ 0 < m ∧ (b.table kind (m - 1)).Drained then m - 1
    else b.count kind
  otherCount : ∀ kind', kind' ≠ kind → b'.count kind' = b.count kind'
  algorithm : b'.algorithm = b.algorithm
  cloneMode : b'.cloneMode = b.cloneMode
  overloadMode : b'.overloadMode = b.overloadMode

section Release

variable [IntCast L]

/-- A slot that is not drained is passed over. -/
theorem releaseSlot_of_not_drained {kind : ServerKind} {b : Balancer L} {i : ℕ}
    (h : ¬ (b.table kind i).Drained) : releaseSlot kind b i = b := by
  rw [releaseSlot, if_neg fun hc => h hc.2]

/-- A drained slot is zeroed; the table ends before it if it was the last. -/
theorem releaseSlot_of_drained {kind : ServerKind} {b : Balancer L} {i : ℕ}
    (hi : i < b.count kind) (h : (b.table kind i).Drained) :
    releaseSlot kind b i = ((clearUses kind i b).modifyServer (slot kind i) fun _ => .zero L).setCount
      kind (if i = b.count kind - 1 then b.count kind - 1 else b.count kind) := by
  have hcount : (clearUses kind i b).count kind = b.count kind := by
    cases kind <;> rfl
  rw [releaseSlot, if_pos ⟨hi, h⟩]
  dsimp only
  rw [count_modifyServer, hcount]
  split_ifs
  · rfl
  · -- the status written is the one that zeroing has left
    have hfree : ∀ x : Balancer L,
        ((x.modifyServer (slot kind i) fun _ => .zero L).modifyServer (slot kind i)
          fun s => { s with status := .free }) = x.modifyServer (slot kind i) fun _ => .zero L := by
      intro x
      unfold modifyServer
      dsimp only
      rw [Function.update_idem, Function.update_self]
      rfl
    rw [hfree]
    cases kind <;> rfl

omit [IntCast L] in
@[simp] theorem servers_clearUses (kind : ServerKind) (i : ℕ) (b : Balancer L) :
    (clearUses kind i b).servers = b.servers := by
  cases kind <;> rfl

omit [IntCast L] in
theorem hashTable_clearUses (kind : ServerKind) (i : ℕ) (b : Balancer L) (j : ℕ) :
    (clearUses kind i b).hashTable j
      = if kind = .member ∧ j < hashTableSize ∧ b.hashTable j = some i then none
        else b.hashTable j := by
  cases kind with
  | member => simp [clearUses, clearHash]
  | clone => simp [clearUses]

/-- No round has been made. -/
theorem Released.zero (kind : ServerKind) (b : Balancer L) : Released kind 0 b b where
  zeroed := nofun
  kept := fun _ _ => rfl
  cleared := fun _ _ _ => nofun
  hashKept := fun _ _ => rfl
  count := by rw [if_neg fun h => Nat.lt_irrefl 0 h.2.1]
  otherCount := fun _ _ => rfl
  algorithm := rfl
  cloneMode := rfl
  overloadMode := rfl

/-- A round that passes over its slot. -/
theorem Released.skip {kind : ServerKind} {m : ℕ} {b b' : Balancer L} (h : Released kind m b b')
    (hcount : b'.count kind = b.count kind) (hd : ¬ (b.table kind m).Drained) :
    Released kind (m + 1) b b' where
  zeroed := by
    intro i hi hdi
    by_cases him : i = m
    · exact absurd (him ▸ hdi) hd
    · exact h.zeroed i (by omega) hdi
  kept := fun p hp => h.kept p fun i hi => hp i (Nat.lt_succ_of_lt hi)
  cleared := by
    intro hk j hj i hi hji hdi
    by_cases him : i = m
    · rw [him] at hdi
      subst hk
      exact absurd hdi hd
    · exact h.cleared hk j hj i (by omega) hji hdi
  hashKept := fun j hj => h.hashKept j fun hk hjs i hi => hj hk hjs i (Nat.lt_succ_of_lt hi)
  count := by rw [hcount, Nat.add_sub_cancel, if_neg fun hc => hd hc.2.2]
  otherCount := h.otherCount
  algorithm := h.algorithm
  cloneMode := h.cloneMode
  overloadMode := h.overloadMode

/-- A round that zeroes its slot. -/
theorem Released.zeroSlot {kind : ServerKind} {m : ℕ} {b b' : Balancer L} (h : Released kind m b b')
    (hm : m < b.count kind) (hd : (b.table kind m).Drained) :
    Released kind (m + 1) b
      (((clearUses kind m b').modifyServer (slot kind m) fun _ => .zero L).setCount kind
        (if m = b.count kind - 1 then b.count kind - 1 else b.count kind)) where
  zeroed := by
    intro i hi hdi
    rw [table, servers_setCount, servers_modifyServer, servers_clearUses]
    by_cases him : i = m
    · rw [him, if_pos rfl]
    · rw [if_neg fun hp => him (slot_injective kind hp)]
      exact h.zeroed i (by omega) hdi
  kept := by
    intro p hp
    have hne : p ≠ slot kind m := fun heq => hp m (Nat.lt_succ_self m) heq (heq ▸ hd)
    rw [servers_setCount, servers_modifyServer_of_ne _ hne, servers_clearUses]
    exact h.kept p fun i hi => hp i (Nat.lt_succ_of_lt hi)
  cleared := by
    rintro rfl j hj i hi hji hdi
    rw [hashTable_setCount]
    show (clearUses .member m b').hashTable j = none
    rw [hashTable_clearUses]
    split_ifs with hc
    · rfl
    · by_cases him : i = m
      · -- an entry of this slot was left by the rounds so far, so it is cleared now
        rw [h.hashKept j fun _ _ i' hi' hji' _ => ?_, hji, him] at hc
        · exact absurd ⟨rfl, hj, rfl⟩ hc
        · rw [hji, him] at hji'
          exact absurd (Option.some.inj hji') (Nat.ne_of_gt hi')
      · exact h.cleared rfl j hj i (by omega) hji hdi
  hashKept := by
    intro j hj
    rw [hashTable_setCount]
    show (clearUses kind m b').hashTable j = b.hashTable j
    have hkeep := h.hashKept j fun hk hjs i hi => hj hk hjs i (Nat.lt_succ_of_lt hi)
    rw [hashTable_clearUses, if_neg, hkeep]
    rintro ⟨rfl, hjs, hjm⟩
    rw [hkeep] at hjm
    exact hj rfl hjs m (Nat.lt_succ_self m) hjm hd
  count := by
    rw [count_setCount_self, Nat.add_sub_cancel]
    by_cases hlast : m + 1 = b.count kind
    · rw [if_pos (show m = b.count kind - 1 by omega),
        if_pos ⟨hlast, Nat.succ_pos m, hd⟩]
      omega
    · rw [if_neg (show ¬ m = b.count kind - 1 by omega), if_neg fun hc => hlast hc.1]
  otherCount := by
    intro kind' hne
    rw [count_setCount, if_neg hne, count_modifyServer]
    refine Eq.trans ?_ (h.otherCount kind' hne)
    cases kind <;> rfl
  algorithm := by
    rw [algorithm_setCount, ← h.algorithm]
    cases kind <;> rfl
  cloneMode := by
    rw [cloneMode_setCount, ← h.cloneMode]
    cases kind <;> rfl
  overloadMode := by
    rw [overloadMode_setCount, ← h.overloadMode]
    cases kind <;> rfl

/-- One more round. -/
theorem Released.succ {kind : ServerKind} {m : ℕ} {b b' : Balancer L} (h : Released kind m b b')
    (hm : m < b.count kind) : Released kind (m + 1) b (releaseSlot kind b' m) := by
  -- the rounds so far have left the slot that comes next, and the count
  have hslot : b'.table kind m = b.table kind m := by
    refine h.kept _ fun i hi hp => ?_
    exact absurd (slot_injective kind hp) (Nat.ne_of_gt hi)
  have hcount : b'.count kind = b.count kind := by
    rw [h.count, if_neg fun hc => Nat.ne_of_lt hm hc.1]
  by_cases hd : (b.table kind m).Drained
  · rw [releaseSlot_of_drained (hcount.symm ▸ hm) (hslot.symm ▸ hd), hcount]
    exact h.zeroSlot hm hd
  · rw [releaseSlot_of_not_drained (hslot.symm ▸ hd)]
    exact h.skip hcount hd

/-- The first `m` rounds. -/
theorem released_foldl {kind : ServerKind} {b : Balancer L} {m : ℕ} (hm : m ≤ b.count kind) :
    Released kind m b ((List.range m).foldl (releaseSlot kind) b) := by
  induction m with
  | zero => exact .zero kind b
  | succ m ih =>
      rw [List.range_succ, List.foldl_append]
      exact (ih (by omega)).succ hm

/-- **One loop** zeroes the drained slots of its table and nothing else. -/
theorem released_releaseServers (kind : ServerKind) (b : Balancer L) :
    Released kind (b.count kind) b (releaseServers kind b) :=
  released_foldl (Nat.le_refl _)

/-- A zeroed slot is not drained. -/
theorem not_drained_zero : ¬ (Server.zero L).Drained := fun h => nomatch h.1

/-- A slot that a pass of `handle_delete_servers` releases. -/
def Balancer.Releases (b : Balancer L) (p : ℕ) : Prop :=
  ∃ kind, ∃ i < b.count kind, p = slot kind i ∧ (b.servers p).Drained

/-- What one pass of `handle_delete_servers` does. -/
structure Passed (b b' : Balancer L) : Prop where
  zeroed : ∀ p, b.Releases p → b'.servers p = .zero L
  kept : ∀ p, ¬ b.Releases p → b'.servers p = b.servers p
  cleared : ∀ j < hashTableSize, ∀ i < b.nmembers, b.hashTable j = some i →
    (b.members i).Drained → b'.hashTable j = none
  hashKept : ∀ j, (j < hashTableSize → ∀ i < b.nmembers, b.hashTable j = some i →
    ¬ (b.members i).Drained) → b'.hashTable j = b.hashTable j
  count_le : ∀ kind, b'.count kind ≤ b.count kind
  count_lt : ∀ kind, ∀ i < b.count kind, ¬ (b.table kind i).Drained → i < b'.count kind
  trimmed : ∀ kind, ∀ i < b.count kind, b'.count kind ≤ i → (b.table kind i).Drained
  algorithm : b'.algorithm = b.algorithm
  cloneMode : b'.cloneMode = b.cloneMode
  overloadMode : b'.overloadMode = b.overloadMode

section Loop

variable {kind : ServerKind} {b b' : Balancer L}

theorem Released.count_le (h : Released kind (b.count kind) b b') :
    ∀ kind', b'.count kind' ≤ b.count kind' := by
  intro kind'
  by_cases hk : kind' = kind
  · rw [hk, h.count]
    split_ifs <;> omega
  · rw [h.otherCount kind' hk]

theorem Released.count_lt (h : Released kind (b.count kind) b b') {i : ℕ} (hi : i < b.count kind)
    (hd : ¬ (b.table kind i).Drained) : i < b'.count kind := by
  rw [h.count]
  split_ifs with hc
  · have hne : i ≠ b.count kind - 1 := fun heq => hd (heq ▸ hc.2.2)
    omega
  · exact hi

theorem Released.trimmed (h : Released kind (b.count kind) b b') {i : ℕ} (hi : i < b.count kind)
    (hle : b'.count kind ≤ i) : (b.table kind i).Drained := by
  rw [h.count] at hle
  split_ifs at hle with hc
  · have heq : i = b.count kind - 1 := by omega
    exact heq ▸ hc.2.2
  · exact absurd hle (Nat.not_le.mpr hi)

/-- A slot is left or zeroed. -/
theorem Released.same_or_zero (h : Released kind (b.count kind) b b') (p : ℕ) :
    b'.servers p = b.servers p ∨ (∃ i < b.count kind, p = slot kind i ∧ (b.servers p).Drained) ∧
      b'.servers p = .zero L := by
  by_cases hp : ∃ i < b.count kind, p = slot kind i ∧ (b.servers p).Drained
  · obtain ⟨i, hi, rfl, hd⟩ := hp
    exact Or.inr ⟨⟨i, hi, rfl, hd⟩, h.zeroed i hi hd⟩
  · exact Or.inl (h.kept p fun i hi heq hd => hp ⟨i, hi, heq, hd⟩)

end Loop

/-- **A pass releases the drained slots and nothing else.** -/
theorem passed_handleDeleteServers (b : Balancer L) : Passed b (handleDeleteServers b) := by
  unfold handleDeleteServers
  have hm := released_releaseServers .member b
  generalize releaseServers .member b = b₁ at hm
  have hc := released_releaseServers .clone b₁
  generalize releaseServers .clone b₁ = b₂ at hc
  -- the clones that the second loop finds drained were so before the first
  have hback : ∀ p, (b₁.servers p).Drained → (b.servers p).Drained := by
    intro p hd
    rcases hm.same_or_zero p with heq | ⟨-, heq⟩
    · exact heq ▸ hd
    · exact absurd (heq ▸ hd) not_drained_zero
  constructor
  case zeroed =>
    rintro p ⟨kind, i, hi, rfl, hd⟩
    cases kind with
    | member =>
        have hz : b₁.servers (slot .member i) = .zero L := hm.zeroed i hi hd
        rcases hc.same_or_zero (slot .member i) with heq | ⟨-, heq⟩
        · rw [heq, hz]
        · exact heq
    | clone =>
        have hi' : i < b₁.count .clone := (hm.otherCount .clone nofun).symm ▸ hi
        rcases hm.same_or_zero (slot .clone i) with heq | ⟨-, heq⟩
        · refine hc.zeroed i hi' ?_
          rw [table, heq]
          exact hd
        · rcases hc.same_or_zero (slot .clone i) with heq' | ⟨-, heq'⟩
          · rw [heq', heq]
          · exact heq'
  case kept =>
    intro p hp
    have h₁ : b₁.servers p = b.servers p :=
      hm.kept p fun i hi heq hd => hp ⟨.member, i, hi, heq, hd⟩
    rw [← h₁]
    refine hc.kept p fun i hi heq hd => hp ⟨.clone, i, ?_, heq, h₁ ▸ hd⟩
    exact hm.otherCount .clone nofun ▸ hi
  case cleared =>
    intro j hj i hi hji hd
    rw [hc.hashKept j nofun]
    exact hm.cleared rfl j hj i hi hji hd
  case hashKept =>
    intro j hj
    rw [hc.hashKept j nofun]
    exact hm.hashKept j fun _ => hj
  case count_le => exact fun kind => Nat.le_trans (hc.count_le kind) (hm.count_le kind)
  case count_lt =>
    intro kind i hi hd
    cases kind with
    | member =>
        rw [hc.otherCount .member nofun]
        exact hm.count_lt hi hd
    | clone =>
        refine hc.count_lt ?_ fun hd' => hd (hback _ hd')
        rw [hm.otherCount .clone nofun]
        exact hi
  case trimmed =>
    intro kind i hi hle
    cases kind with
    | member =>
        rw [hc.otherCount .member nofun] at hle
        exact hm.trimmed hi hle
    | clone =>
        refine hback _ (hc.trimmed ?_ hle)
        rw [hm.otherCount .clone nofun]
        exact hi
  case algorithm => rw [hc.algorithm, hm.algorithm]
  case cloneMode => rw [hc.cloneMode, hm.cloneMode]
  case overloadMode => rw [hc.overloadMode, hm.overloadMode]

end Release

end OctopusLB
