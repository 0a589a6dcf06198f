/-
# Admin commands (`admin.c`)

The commands that create, change or delete servers, and the three that set a
mode.  They find their servers through `set_subject`, which fills the array
`subject[]`; the commands with a single target then go through `subject[0]`
whatever `subject_count` is, so the pointer left by an earlier command is part
of the state of the admin process.

`runCommand_cases` says what a command can do to the servers: a creation, or
the same edit (`ServerEdit`) at each slot that it touches.
-/
import OctopusLB.Numerals
import OctopusLB.ServerTables

namespace OctopusLB

open Balancer

variable {L : Type}

/-! ## `set_subject` -/

/-- The admin process: `readonly`, and `subject[0]` (`none` while it is still
zero). -/
structure AdminTool where
  readonly : Bool
  subject : Option ℕ

/-- The admin process when it starts. -/
def AdminTool.initial : AdminTool := ⟨false, none⟩

/-- `subject[]` is filled from the front. -/
def AdminTool.setSubjects (t : AdminTool) (subjects : List ℕ) : AdminTool :=
  { t with subject := subjects.head?.or t.subject }

/-- `!strncmp(str, c, 1)` for a one-letter `c`. -/
def startsWith (c : UInt8) (str : List UInt8) : Bool := str.head? = some c

/-- Neither empty nor deleted. -/
def Server.Live (s : Server L) : Prop := s.status ≠ .free ∧ s.status ≠ .deleted

instance (s : Server L) : Decidable s.Live := by
  unfold Server.Live
  infer_instance

/-- All live slots of a table. -/
def liveSlots (kind : ServerKind) (b : Balancer L) : List ℕ :=
  ((List.range (b.count kind)).filter fun i => (b.table kind i).Live).map (slot kind)

/-- The live slot with a given index. -/
def namedSlot (kind : ServerKind) (v1 : ℤ) (b : Balancer L) : Option ℕ :=
  if (b.table kind v1.toNat).Live ∧ v1 < b.count kind ∧ 0 ≤ v1 then some (slot kind v1.toNat)
  else none

/-- A single target: -1 is returned unless it is live. -/
def AdminTool.setNamed (t : AdminTool) (subject : Option ℕ) : AdminTool × Option (List ℕ) :=
  (t.setSubjects subject.toList, subject.map fun p => [p])

/-- `set_subject`, with the subjects that it counts (`none` if it returns -1).
All commands ask for write access; `multi` is `MULTI_TARGET_CMD`. -/
def setSubject (type id : List UInt8) (multi : Bool) (b : Balancer L) (t : AdminTool) :
    AdminTool × Option (List ℕ) :=
  if t.readonly then (t, none)
  else if startsWith 97 id then
    if multi then
      let subjects := liveSlots .member b ++ liveSlots .clone b
      let t := t.setSubjects subjects
      if startsWith 99 type || startsWith 109 type || startsWith 97 type then (t, some subjects)
      else (t, none)
    else (t, none)
  else
    match strtol id with
    | none => (t, none)
    | some v1 =>
        if startsWith 109 type then t.setNamed (namedSlot .member v1 b)
        else if startsWith 99 type then t.setNamed (namedSlot .clone v1 b)
        -- no table is looked at, and no subject set
        else if startsWith 97 type then (t, some [])
        else (t, none)

/-- Nothing is counted in read-only mode. -/
theorem setSubject_readonly {t : AdminTool} (h : t.readonly = true) (type id : List UInt8)
    (multi : Bool) (b : Balancer L) : setSubject type id multi b t = (t, none) := if_pos h

/-- A slot that `set_subject` may count: live and within its table. -/
def Balancer.InUse (b : Balancer L) (p : ℕ) : Prop :=
  ∃ kind, ∃ i < b.count kind, p = slot kind i ∧ (b.servers p).Live

theorem inUse_of_mem_liveSlots {kind : ServerKind} {b : Balancer L} {p : ℕ}
    (h : p ∈ liveSlots kind b) : b.InUse p := by
  obtain ⟨i, hi, rfl⟩ := List.mem_map.mp h
  obtain ⟨hlt, hlive⟩ := List.mem_filter.mp hi
  exact ⟨kind, i, List.mem_range.mp hlt, rfl, of_decide_eq_true hlive⟩

theorem inUse_of_namedSlot {kind : ServerKind} {v1 : ℤ} {b : Balancer L} {p : ℕ}
    (h : namedSlot kind v1 b = some p) : b.InUse p := by
  unfold namedSlot at h
  split_ifs at h with hc
  obtain rfl := Option.some.inj h
  exact ⟨kind, v1.toNat, by omega, rfl, hc.1⟩

/-- **`set_subject`** puts slots in use into `subject[]`, and counts all of
them or returns -1. -/
theorem setSubject_cases (type id : List UInt8) (multi : Bool) (b : Balancer L) (t : AdminTool) :
    ∃ l : List ℕ, (∀ p ∈ l, b.InUse p) ∧ (setSubject type id multi b t).1 = t.setSubjects l ∧
      ((setSubject type id multi b t).2 = none ∨ (setSubject type id multi b t).2 = some l) := by
  have hnamed : ∀ kind v1, ∃ l : List ℕ, (∀ p ∈ l, b.InUse p) ∧
      (t.setNamed (namedSlot kind v1 b)).1 = t.setSubjects l ∧
        ((t.setNamed (namedSlot kind v1 b)).2 = none ∨
          (t.setNamed (namedSlot kind v1 b)).2 = some l) := by
    intro kind v1
    cases hn : namedSlot kind v1 b with
    | none => exact ⟨[], nofun, rfl, Or.inl rfl⟩
    | some q =>
        refine ⟨[q], fun p hp => ?_, rfl, Or.inr rfl⟩
        rw [List.mem_singleton] at hp
        exact inUse_of_namedSlot (hp ▸ hn)
  -- nothing is set
  have hnil : ∀ o : Option (List ℕ), o = none ∨ o = some [] →
      ∃ l : List ℕ, (∀ p ∈ l, b.InUse p) ∧ (t, o).1 = t.setSubjects l ∧
        ((t, o).2 = none ∨ (t, o).2 = some l) :=
    fun o ho => ⟨[], nofun, rfl, ho⟩
  unfold setSubject
  by_cases hro : t.readonly = true
  · rw [if_pos hro]
    exact hnil none (Or.inl rfl)
  rw [if_neg hro]
  by_cases hall : startsWith 97 id = true
  · rw [if_pos hall]
    by_cases hmulti : multi = true
    · rw [if_pos hmulti]
      refine ⟨liveSlots .member b ++ liveSlots .clone b, fun p hp => ?_, ?_⟩
      · rcases List.mem_append.mp hp with hp | hp
        · exact inUse_of_mem_liveSlots hp
        · exact inUse_of_mem_liveSlots hp
      · dsimp only
        split
        · exact ⟨rfl, Or.inr rfl⟩
        · exact ⟨rfl, Or.inl rfl⟩
    · rw [if_neg hmulti]
      exact hnil none (Or.inl rfl)
  rw [if_neg hall]
  cases strtol id with
  | none => exact hnil none (Or.inl rfl)
  | some v1 =>
      dsimp only
      split
      · exact hnamed .member v1
      · split
        · exact hnamed .clone v1
        · split
          · exact hnil (some []) (Or.inr rfl)
          · exact hnil none (Or.inl rfl)

/-! ## The commands -/

/-- A command line that has been taken apart: `ip` is what `inet_aton` makes of
the address, and numbers have been read by `atoi` and `atof`. -/
inductive Command (L : Type)
  | create (type name : List UInt8) (ip : Option UInt32) (port : ℤ) (malloc : Bool)
  | algorithm (value : Algorithm)
  | cloneMode (enable : Bool)
  | overloadMode (value : OverloadMode)
  | standby (type id : List UInt8)
  | delete (type id : List UInt8)
  | maxl (type id : List UInt8) (value : L)
  | maxc (type id : List UInt8) (value : ℤ)
  | enable (type id : List UInt8)
  | disable (type id : List UInt8)
  | reset (type id : List UInt8)

/-- The first letter of the server type in `cmd_create`. -/
def typeKind (type : List UInt8) : Option ServerKind :=
  if startsWith 109 type then some .member
  else if startsWith 99 type then some .clone
  else none

/-- What `cmd_create` asks for. -/
def createRequest (name : List UInt8) (ip : UInt32) (port : ℤ) (b : Balancer L) :
    CreateRequest L where
  serverName := CString.strncpy serverNameMaxLength name
  serverStatus := .disabled
  standbyState := false
  serverPort := port
  serverIP := ip
  serverMaxc := b.defaultMaxc
  servermaxl := b.defaultMaxl

/-- The kind and the request with which `cmd_create` calls
`create_balancer_server`, `none` if it gives up before. -/
def parseCreate (type name : List UInt8) (ip : Option UInt32) (port : ℤ) (b : Balancer L) :
    Option (ServerKind × CreateRequest L) :=
  match typeKind type, ip with
  | some kind, some serverIP =>
      if 0 < port then some (kind, createRequest name serverIP port b) else none
  | _, _ => none

/-- `cmd_create`. -/
def cmdCreate [IntCast L] (type name : List UInt8) (ip : Option UInt32) (port : ℤ) (malloc : Bool)
    (b : Balancer L) (t : AdminTool) : AdminTool × Balancer L :=
  if t.readonly then (t, b)
  else
    match parseCreate type name ip port b with
    | some (kind, r) => (t, (createBalancerServer malloc kind r b).1)
    | none => (t, b)

/-- A command with a single target; `none` if `subject[0]` is still zero. -/
def cmdSingle (edit : Server L → Server L) (type id : List UInt8) (b : Balancer L)
    (t : AdminTool) : Option (AdminTool × Balancer L) :=
  match setSubject type id false b t with
  | (t, none) => some (t, b)
  | (t, some _) => t.subject.map fun p => (t, b.modifyServer p edit)

/-- `cmd_standby`. -/
def cmdStandby (type id : List UInt8) : Balancer L → AdminTool → Option (AdminTool × Balancer L) :=
  cmdSingle (fun s => { s with standbyState := !s.standbyState }) type id

/-- `cmd_delete`. -/
def cmdDelete (type id : List UInt8) : Balancer L → AdminTool → Option (AdminTool × Balancer L) :=
  cmdSingle (fun s => { s with status := .deleted }) type id

/-- `cmd_maxl`. -/
def cmdMaxl (type id : List UInt8) (value : L) :
    Balancer L → AdminTool → Option (AdminTool × Balancer L) :=
  cmdSingle (fun s => { s with maxl := value }) type id

/-- `cmd_maxc`. -/
def cmdMaxc (type id : List UInt8) (value : ℤ) :
    Balancer L → AdminTool → Option (AdminTool × Balancer L) :=
  cmdSingle (fun s => { s with maxc := value }) type id

/-- The loop of the commands with several targets. -/
def editAll (edit : Server L → Server L) (subjects : List ℕ) (b : Balancer L) : Balancer L :=
  subjects.foldl (fun b p => b.modifyServer p edit) b

/-- The edit of `cmd_enable`. -/
def enableServer (s : Server L) : Server L :=
  if s.status = .disabled then { s with status := .enabled } else s

/-- The edit of `cmd_disable`. -/
def disableServer (s : Server L) : Server L :=
  if s.status = .enabled ∨ s.status = .failed then { s with status := .disabled } else s

/-- The edit of `cmd_reset`. -/
def resetServer (s : Server L) : Server L := { s with bsent := 0, brecv := 0, completedC := 0 }

/-- `cmd_enable`. -/
def cmdEnable (type id : List UInt8) (b : Balancer L) (t : AdminTool) : AdminTool × Balancer L :=
  match setSubject type id true b t with
  | (t, none) => (t, b)
  | (t, some subjects) => (t, setClonedState (editAll enableServer subjects b))

/-- `cmd_disable`. -/
def cmdDisable (type id : List UInt8) (b : Balancer L) (t : AdminTool) : AdminTool × Balancer L :=
  match setSubject type id true b t with
  | (t, none) => (t, b)
  | (t, some subjects) => (t, setClonedState (editAll disableServer subjects b))

/-- `cmd_reset`; the message at its end names `subject[0]` unless there are
several subjects. -/
def cmdReset (type id : List UInt8) (b : Balancer L) (t : AdminTool) :
    Option (AdminTool × Balancer L) :=
  match setSubject type id true b t with
  | (t, none) => some (t, b)
  | (t, some subjects) =>
      if 1 < subjects.length ∨ t.subject ≠ none then some (t, editAll resetServer subjects b)
      else none

/-- `cmd_algorithm`, `cmd_clone_mode` and `cmd_overload_mode`. -/
def cmdMode (set : Balancer L → Balancer L) (b : Balancer L) (t : AdminTool) :
    AdminTool × Balancer L :=
  if t.readonly then (t, b) else (t, set b)

/-- Run one command; `none` if the admin process crashes, which leaves the
shared balancer as it is. -/
def runCommand [IntCast L] (cmd : Command L) (b : Balancer L) (t : AdminTool) :
    Option (AdminTool × Balancer L) :=
  match cmd with
  | .create type name ip port malloc => some (cmdCreate type name ip port malloc b t)
  | .algorithm value => some (cmdMode (fun b => { b with algorithm := value }) b t)
  | .cloneMode enable =>
      some (cmdMode
        (fun b => setClonedState { b with cloneMode := if enable then .on else .off }) b t)
  | .overloadMode value => some (cmdMode (fun b => { b with overloadMode := value }) b t)
  | .standby type id => cmdStandby type id b t
  | .delete type id => cmdDelete type id b t
  | .maxl type id value => cmdMaxl type id value b t
  | .maxc type id value => cmdMaxc type id value b t
  | .enable type id => some (cmdEnable type id b t)
  | .disable type id => some (cmdDisable type id b t)
  | .reset type id => cmdReset type id b t

/-- The arguments with which a command calls `create_balancer_server`. -/
def Command.creation (b : Balancer L) (t : AdminTool) :
    Command L → Option (Bool × ServerKind × CreateRequest L)
  | .create type name ip port malloc =>
      if t.readonly then none
      else (parseCreate type name ip port b).map fun r => (malloc, r.1, r.2)
  | _ => none

/-! ## What a command does to the servers -/

/-- A command with a single target reaches slot `p`. -/
def Targets (type id : List UInt8) (b : Balancer L) (t : AdminTool) (p : ℕ) : Prop :=
  (setSubject type id false b t).2 ≠ none ∧ (setSubject type id false b t).1.subject = some p

instance (type id : List UInt8) (b : Balancer L) (t : AdminTool) (p : ℕ) :
    Decidable (Targets type id b t p) := by
  unfold Targets
  infer_instance

/-- A command with several targets reaches slot `p`. -/
def IsSubject (type id : List UInt8) (b : Balancer L) (t : AdminTool) (p : ℕ) : Prop :=
  ∃ subjects, (setSubject type id true b t).2 = some subjects ∧ p ∈ subjects

/-- What a command other than `create` may make of the server in slot `p`.  It
is changed only if the command reaches it. -/
inductive ServerEdit (b : Balancer L) (t : AdminTool) (p : ℕ) : Command L → Server L → Prop
  | same (cmd : Command L) : ServerEdit b t p cmd (b.servers p)
  | standby (type id : List UInt8) (hp : Targets type id b t p) : ServerEdit b t p
      (.standby type id) { b.servers p with standbyState := !(b.servers p).standbyState }
  | deleted (type id : List UInt8) (hp : Targets type id b t p) :
      ServerEdit b t p (.delete type id) { b.servers p with status := .deleted }
  | maxl (type id : List UInt8) (value : L) (hp : Targets type id b t p) :
      ServerEdit b t p (.maxl type id value) { b.servers p with maxl := value }
  | maxc (type id : List UInt8) (value : ℤ) (hp : Targets type id b t p) :
      ServerEdit b t p (.maxc type id value) { b.servers p with maxc := value }
  | enabled (type id : List UInt8) (hp : IsSubject type id b t p)
      (h : (b.servers p).status = .disabled) :
      ServerEdit b t p (.enable type id) { b.servers p with status := .enabled }
  | disabled (type id : List UInt8) (hp : IsSubject type id b t p)
      (h : (b.servers p).status = .enabled ∨ (b.servers p).status = .failed) :
      ServerEdit b t p (.disable type id) { b.servers p with status := .disabled }
  | reset (type id : List UInt8) (hp : IsSubject type id b t p) :
      ServerEdit b t p (.reset type id) (resetServer (b.servers p))

/-- No edit changes the id of a server, or how often the hash table names it. -/
theorem ServerEdit.frame {b : Balancer L} {t : AdminTool} {p : ℕ} {cmd : Command L} {s : Server L}
    (h : ServerEdit b t p cmd s) : s.id = (b.servers p).id ∧ s.c = (b.servers p).c ∧
      s.hashTableUsage = (b.servers p).hashTableUsage := by
  cases h <;> exact ⟨rfl, rfl, rfl⟩

/-- No edit frees a slot. -/
theorem ServerEdit.ne_free {b : Balancer L} {t : AdminTool} {p : ℕ} {cmd : Command L}
    {s : Server L} (h : ServerEdit b t p cmd s) (hp : (b.servers p).status ≠ .free) :
    s.status ≠ .free := by
  cases h with
  | same => exact hp
  | standby => exact hp
  | deleted => nofun
  | maxl => exact hp
  | maxc => exact hp
  | enabled => nofun
  | disabled => nofun
  | reset => exact hp

/-- No edit makes a server live that was not. -/
theorem ServerEdit.was_live {b : Balancer L} {t : AdminTool} {p : ℕ} {cmd : Command L}
    {s : Server L} (h : ServerEdit b t p cmd s) (hs : s.Live) : (b.servers p).Live := by
  cases h with
  | same => exact hs
  | standby => exact hs
  | deleted => exact absurd rfl hs.2
  | maxl => exact hs
  | maxc => exact hs
  | enabled type id hp h =>
      unfold Server.Live
      rw [h]
      exact ⟨nofun, nofun⟩
  | disabled type id hp h =>
      unfold Server.Live
      rcases h with h | h
      · rw [h]
        exact ⟨nofun, nofun⟩
      · rw [h]
        exact ⟨nofun, nofun⟩
  | reset => exact hs

/-- Only a deletion reaches a free slot and changes its status. -/
theorem ServerEdit.was_free {b : Balancer L} {t : AdminTool} {p : ℕ} {cmd : Command L}
    {s : Server L} (h : ServerEdit b t p cmd s) (hs : s.status ≠ .free)
    (hp : (b.servers p).status = .free) :
    ∃ type id, cmd = .delete type id ∧ Targets type id b t p := by
  cases h with
  | same => exact absurd hp hs
  | standby => exact absurd hp hs
  | deleted type id htarget => exact ⟨type, id, rfl, htarget⟩
  | maxl => exact absurd hp hs
  | maxc => exact absurd hp hs
  | enabled _ _ _ h => exact absurd (hp.symm.trans h) nofun
  | disabled _ _ _ h =>
      rcases h with h | h
      · exact absurd (hp.symm.trans h) nofun
      · exact absurd (hp.symm.trans h) nofun
  | reset => exact absurd hp hs

/-- Only a deletion deletes a server. -/
theorem ServerEdit.was_deleted {b : Balancer L} {t : AdminTool} {p : ℕ} {cmd : Command L}
    {s : Server L} (h : ServerEdit b t p cmd s) (hs : s.status = .deleted) :
    (b.servers p).status = .deleted ∨ ∃ type id, cmd = .delete type id ∧ Targets type id b t p := by
  cases h with
  | same => exact Or.inl hs
  | standby => exact Or.inl hs
  | deleted type id htarget => exact Or.inr ⟨type, id, rfl, htarget⟩
  | maxl => exact Or.inl hs
  | maxc => exact Or.inl hs
  | enabled => cases hs
  | disabled => cases hs
  | reset => exact Or.inl hs

/-- An edit of servers: the tables keep their length, and the hash table its
entries. -/
structure Edited (cmd : Command L) (b : Balancer L) (t : AdminTool) (b' : Balancer L) : Prop where
  servers : ∀ p, ServerEdit b t p cmd (b'.servers p)
  nmembers : b'.nmembers = b.nmembers
  nclones : b'.nclones = b.nclones
  hashTable : b'.hashTable = b.hashTable

theorem Edited.count {cmd : Command L} {b b' : Balancer L} {t : AdminTool}
    (h : Edited cmd b t b') : b'.count = b.count := by
  funext kind
  cases kind with
  | member => exact h.nmembers
  | clone => exact h.nclones

theorem Edited.same (cmd : Command L) (b : Balancer L) (t : AdminTool) : Edited cmd b t b :=
  ⟨fun _ => .same cmd, rfl, rfl, rfl⟩

theorem Edited.setClonedState {cmd : Command L} {b b' : Balancer L} {t : AdminTool}
    (h : Edited cmd b t b') : Edited cmd b t (setClonedState b') := by
  obtain ⟨mode, heq⟩ := setClonedState_eq b'
  rw [heq]
  exact ⟨h.servers, h.nmembers, h.nclones, h.hashTable⟩

/-- The loop applies an edit to the subjects, once or more often. -/
theorem servers_editAll {edit : Server L → Server L} (hedit : ∀ s, edit (edit s) = edit s)
    (subjects : List ℕ) (b : Balancer L) (p : ℕ) : (editAll edit subjects b).servers p
      = if p ∈ subjects then edit (b.servers p) else b.servers p := by
  unfold editAll
  induction subjects generalizing b with
  | nil => rw [List.foldl_nil, if_neg List.not_mem_nil]
  | cons q l ih =>
      rw [List.foldl_cons, ih, servers_modifyServer]
      by_cases hq : p = q
      · subst hq
        rw [if_pos rfl, if_pos List.mem_cons_self]
        split_ifs
        · exact hedit _
        · rfl
      · rw [if_neg hq]
        by_cases hl : p ∈ l
        · rw [if_pos hl, if_pos (List.mem_cons_of_mem q hl)]
        · rw [if_neg hl, if_neg fun h => hl ((List.mem_cons.mp h).resolve_left hq)]

theorem editAll_frame (edit : Server L → Server L) (subjects : List ℕ) (b : Balancer L) :
    (editAll edit subjects b).nmembers = b.nmembers ∧
      (editAll edit subjects b).nclones = b.nclones ∧
      (editAll edit subjects b).hashTable = b.hashTable := by
  unfold editAll
  induction subjects generalizing b with
  | nil => exact ⟨rfl, rfl, rfl⟩
  | cons q l ih => exact ih _

/-- A command with several targets makes its edit in slots in use. -/
theorem edited_editAll {cmd : Command L} {edit : Server L → Server L}
    (hedit : ∀ s, edit (edit s) = edit s) {subjects : List ℕ} {b : Balancer L} {t : AdminTool}
    (hp : ∀ p ∈ subjects, ServerEdit b t p cmd (edit (b.servers p))) :
    Edited cmd b t (editAll edit subjects b) := by
  obtain ⟨hm, hc, hh⟩ := editAll_frame edit subjects b
  refine ⟨fun p => ?_, hm, hc, hh⟩
  rw [servers_editAll hedit]
  split_ifs with hmem
  · exact hp p hmem
  · exact .same cmd

/-- A command with a single target makes its edit at `subject[0]`, or none. -/
theorem cmdSingle_cases {edit : Server L → Server L} {type id : List UInt8} {b b' : Balancer L}
    {t t' : AdminTool} (h : cmdSingle edit type id b t = some (t', b')) :
    b' = b ∨ ∃ p, Targets type id b t p ∧ b' = b.modifyServer p edit := by
  unfold cmdSingle at h
  unfold Targets
  rcases hs : setSubject type id false b t with ⟨t₁, l⟩
  rw [hs] at h
  cases l with
  | none => exact Or.inl (Prod.mk.inj (Option.some.inj h)).2.symm
  | some l =>
      obtain ⟨p, hsub, heq⟩ := Option.map_eq_some_iff.mp h
      exact Or.inr ⟨p, ⟨nofun, hsub⟩, (Prod.mk.inj heq).2.symm⟩

theorem edited_cmdSingle {cmd : Command L} {edit : Server L → Server L} {type id : List UInt8}
    {b b' : Balancer L} {t t' : AdminTool} (h : cmdSingle edit type id b t = some (t', b'))
    (hp : ∀ p, Targets type id b t p → ServerEdit b t p cmd (edit (b.servers p))) :
    Edited cmd b t b' := by
  rcases cmdSingle_cases h with rfl | ⟨p, htarget, rfl⟩
  · exact .same cmd b' t
  · refine ⟨fun q => ?_, rfl, rfl, rfl⟩
    rw [servers_modifyServer]
    split_ifs with hq
    · subst hq
      exact hp q htarget
    · exact .same cmd

/-- Where it reaches a slot, it makes the edit there. -/
theorem cmdSingle_of_targets {type id : List UInt8} {b : Balancer L} {t : AdminTool} {p : ℕ}
    (h : Targets type id b t p) (edit : Server L → Server L) :
    ∃ t', cmdSingle edit type id b t = some (t', b.modifyServer p edit) := by
  unfold Targets at h
  unfold cmdSingle
  rcases hs : setSubject type id false b t with ⟨t₁, l⟩
  rw [hs] at h
  obtain ⟨hl, hsub⟩ := h
  cases l with
  | none => exact absurd rfl hl
  | some l =>
      dsimp only at hsub ⊢
      rw [hsub]
      exact ⟨t₁, rfl⟩

theorem enableServer_idem (s : Server L) : enableServer (enableServer s) = enableServer s := by
  unfold enableServer
  split_ifs with h h'
  · cases h'
  · rfl
  · rfl

theorem disableServer_idem (s : Server L) : disableServer (disableServer s) = disableServer s := by
  unfold disableServer
  split_ifs with h h'
  · rcases h' with h' | h' <;> cases h'
  · rfl
  · rfl

/-- A mode is set, unless the tool may only read. -/
theorem edited_cmdMode {cmd : Command L} {set : Balancer L → Balancer L} {b b' : Balancer L}
    {t t' : AdminTool} (hset : Edited cmd b t (set b))
    (h : some (cmdMode set b t) = some (t', b')) : Edited cmd b t b' := by
  unfold cmdMode at h
  split_ifs at h
  · obtain ⟨-, rfl⟩ := Prod.mk.inj (Option.some.inj h)
    exact .same cmd b t
  · obtain ⟨-, rfl⟩ := Prod.mk.inj (Option.some.inj h)
    exact hset

/-- `cmd_enable` enables what is disabled. -/
theorem edited_cmdEnable (type id : List UInt8) (b : Balancer L) (t : AdminTool) :
    Edited (.enable type id) b t (cmdEnable type id b t).2 := by
  unfold cmdEnable
  rcases hs : setSubject type id true b t with ⟨t₁, _ | l⟩
  · exact .same _ b t
  · refine (edited_editAll enableServer_idem fun p hp => ?_).setClonedState
    have hsubject : IsSubject type id b t p := ⟨l, by rw [hs], hp⟩
    unfold enableServer
    split_ifs with hstatus
    · exact .enabled type id hsubject hstatus
    · exact .same _

/-- `cmd_disable` disables what is enabled or failed. -/
theorem edited_cmdDisable (type id : List UInt8) (b : Balancer L) (t : AdminTool) :
    Edited (.disable type id) b t (cmdDisable type id b t).2 := by
  unfold cmdDisable
  rcases hs : setSubject type id true b t with ⟨t₁, _ | l⟩
  · exact .same _ b t
  · refine (edited_editAll disableServer_idem fun p hp => ?_).setClonedState
    have hsubject : IsSubject type id b t p := ⟨l, by rw [hs], hp⟩
    unfold disableServer
    split_ifs with hstatus
    · exact .disabled type id hsubject hstatus
    · exact .same _

/-- `cmd_reset` resets all subjects. -/
theorem edited_cmdReset {type id : List UInt8} {b b' : Balancer L} {t t' : AdminTool}
    (h : cmdReset type id b t = some (t', b')) : Edited (.reset type id) b t b' := by
  unfold cmdReset at h
  rcases hs : setSubject type id true b t with ⟨t₁, _ | l⟩
  · rw [hs] at h
    obtain ⟨-, rfl⟩ := Prod.mk.inj (Option.some.inj h)
    exact .same _ b t
  · rw [hs] at h
    dsimp only at h
    split_ifs at h
    obtain ⟨-, rfl⟩ := Prod.mk.inj (Option.some.inj h)
    exact edited_editAll (fun s => (rfl : resetServer (resetServer s) = resetServer s))
      fun p hp => .reset type id ⟨l, by rw [hs], hp⟩

/-- `cmd_create` creates a server or changes nothing. -/
theorem cmdCreate_cases [IntCast L] (type name : List UInt8) (ip : Option UInt32) (port : ℤ)
    (malloc : Bool) (b : Balancer L) (t : AdminTool) :
    (∃ kind r, (Command.create type name ip port malloc).creation b t = some (malloc, kind, r) ∧
        (cmdCreate type name ip port malloc b t).2 = (createBalancerServer malloc kind r b).1) ∨
      ((Command.create type name ip port malloc).creation b t = none ∧
        (cmdCreate type name ip port malloc b t).2 = b) := by
  unfold cmdCreate Command.creation
  dsimp only
  by_cases hro : t.readonly = true
  · rw [if_pos hro, if_pos hro]
    exact Or.inr ⟨rfl, rfl⟩
  · rw [if_neg hro, if_neg hro]
    cases parseCreate type name ip port b with
    | none => exact Or.inr ⟨rfl, rfl⟩
    | some req => exact Or.inl ⟨req.1, req.2, rfl, rfl⟩

/-- **Commands.**  A command creates a server, or edits the servers that it
reaches. -/
theorem runCommand_cases [IntCast L] {cmd : Command L} {b b' : Balancer L} {t t' : AdminTool}
    (h : runCommand cmd b t = some (t', b')) :
    (∃ malloc kind r, cmd.creation b t = some (malloc, kind, r) ∧
        b' = (createBalancerServer malloc kind r b).1) ∨
      (cmd.creation b t = none ∧ Edited cmd b t b') := by
  cases cmd with
  | create type name ip port malloc =>
      have hb : (cmdCreate type name ip port malloc b t).2 = b' :=
        congrArg Prod.snd (Option.some.inj h)
      rcases cmdCreate_cases type name ip port malloc b t with ⟨kind, r, hc, heq⟩ | ⟨hc, heq⟩
      · exact Or.inl ⟨malloc, kind, r, hc, hb.symm.trans heq⟩
      · rw [← hb, heq]
        exact Or.inr ⟨hc, .same _ b t⟩
  | algorithm value => exact Or.inr ⟨rfl, edited_cmdMode ⟨fun _ => .same _, rfl, rfl, rfl⟩ h⟩
  | cloneMode enable =>
      have hset : Edited (Command.cloneMode enable) b t
          { b with cloneMode := if enable then .on else .off } :=
        ⟨fun _ => .same _, rfl, rfl, rfl⟩
      have hstate : Edited (Command.cloneMode enable) b t
          ((fun b => setClonedState { b with cloneMode := if enable then .on else .off }) b) :=
        hset.setClonedState
      exact Or.inr ⟨rfl, edited_cmdMode hstate h⟩
  | overloadMode value => exact Or.inr ⟨rfl, edited_cmdMode ⟨fun _ => .same _, rfl, rfl, rfl⟩ h⟩
  | standby type id => exact Or.inr ⟨rfl, edited_cmdSingle h fun p hp => .standby type id hp⟩
  | delete type id => exact Or.inr ⟨rfl, edited_cmdSingle h fun p hp => .deleted type id hp⟩
  | maxl type id value => exact Or.inr ⟨rfl, edited_cmdSingle h fun p hp => .maxl type id value hp⟩
  | maxc type id value => exact Or.inr ⟨rfl, edited_cmdSingle h fun p hp => .maxc type id value hp⟩
  | enable type id =>
      have hb : (cmdEnable type id b t).2 = b' := congrArg Prod.snd (Option.some.inj h)
      exact Or.inr ⟨rfl, hb ▸ edited_cmdEnable type id b t⟩
  | disable type id =>
      have hb : (cmdDisable type id b t).2 = b' := congrArg Prod.snd (Option.some.inj h)
      exact Or.inr ⟨rfl, hb ▸ edited_cmdDisable type id b t⟩
  | reset type id => exact Or.inr ⟨rfl, edited_cmdReset h⟩

end OctopusLB
