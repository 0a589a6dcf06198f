/-
# Sessions and what a handler sees (`octopus.h`, `init.c`)

The `SESSION` record with its state bits and three buffers, and the surroundings
that every handler shares: the selection globals, the `fds` array, and the
kernel's view of the descriptors (which are open, and the interest registered
with epoll).

A handler works on one session, so it is a function on `Ctx`: the session, the
surroundings, and a history of what happened to the session.  The history is
for stating properties only; no modelled function reads it.
-/
import OctopusLB.FixedBuffer
import OctopusLB.Selection

namespace OctopusLB

/-! ## The session record -/

/-- A file descriptor; `-1` is `none : Option Fd`. -/
abbrev Fd := ℕ

/-- The three peers of a session. -/
inductive Role
  | client
  | member
  | clone
  deriving DecidableEq, Repr

/-- The `STATE_*` bits of a session. -/
structure SessionState where
  memConnected : Bool
  cliConnected : Bool
  cloConnected : Bool
  fresh : Bool
  memReadReady : Bool
  cliReadReady : Bool
  cloReadReady : Bool
  memWriteReady : Bool
  cliWriteReady : Bool
  cloWriteReady : Bool
  memBuffFull : Bool
  cliBuffFull : Bool
  deriving DecidableEq, Repr

/-- `STATE_UNUSED`: no bit is set. -/
def SessionState.unused : SessionState :=
  ⟨false, false, false, false, false, false, false, false, false, false, false, false⟩

/-- `SESSION`.  The pointers `member` and `clone` are entries of the server
array, `none` before the first connect. -/
structure Session where
  id : ℕ
  state : SessionState
  clientfd : Option Fd
  memberfd : Option Fd
  clonefd : Option Fd
  memberReadBuffer : FixedBuffer UInt8 messageSizeLimit
  clientReadBuffer : FixedBuffer UInt8 messageSizeLimit
  cloneWriteBuffer : FixedBuffer UInt8 messageSizeLimit
  memberUsedBuffer : ℕ
  clientUsedBuffer : ℕ
  cloneUsedBuffer : ℕ
  member : Option ℕ
  clone : Option ℕ

/-- A session as `initialize_sessions` leaves it. -/
def Session.initial (i : ℕ) : Session where
  id := i
  state := .unused
  clientfd := none
  memberfd := none
  clonefd := none
  memberReadBuffer := .fill messageSizeLimit 0
  clientReadBuffer := .fill messageSizeLimit 0
  cloneWriteBuffer := .fill messageSizeLimit 0
  memberUsedBuffer := 0
  clientUsedBuffer := 0
  cloneUsedBuffer := 0
  member := none
  clone := none

/-! ## The two server sides

`disconnect_member` and `disconnect_clone`, and the ends of the two halves of
`connect_server`, do the same thing to different fields. -/

namespace Session

/-- The descriptor of a peer. -/
def fdOf : Role → Session → Option Fd
  | .client, s => s.clientfd
  | .member, s => s.memberfd
  | .clone, s => s.clonefd

/-- `memberfd` or `clonefd`. -/
def serverfd : ServerKind → Session → Option Fd
  | .member, s => s.memberfd
  | .clone, s => s.clonefd

/-- `member` or `clone`. -/
def server : ServerKind → Session → Option ℕ
  | .member, s => s.member
  | .clone, s => s.clone

/-- `STATE_MEM_CONNECTED` or `STATE_CLO_CONNECTED`. -/
def connected : ServerKind → Session → Bool
  | .member, s => s.state.memConnected
  | .clone, s => s.state.cloConnected

/-- Associate the session with a server and a descriptor. -/
def setServer : ServerKind → Fd → ℕ → Session → Session
  | .member, fd, slot, s => { s with member := some slot, memberfd := some fd }
  | .clone, fd, slot, s => { s with clone := some slot, clonefd := some fd }

/-- Set the `CONNECTED` and the `READ_READY` bit of one side. -/
def setConnected : ServerKind → Session → Session
  | .member, s => { s with state := { s.state with memConnected := true, memReadReady := true } }
  | .clone, s => { s with state := { s.state with cloConnected := true, cloReadReady := true } }

/-- Clear the `CONNECTED` bit and the descriptor of one side. -/
def clearServer : ServerKind → Session → Session
  | .member, s => { s with state := { s.state with memConnected := false }, memberfd := none }
  | .clone, s => { s with state := { s.state with cloConnected := false }, clonefd := none }

end Session

/-- The role of a server in a session. -/
def ServerKind.role : ServerKind → Role
  | .member => .member
  | .clone => .clone

/-! ## Histories -/

/-- Why `delete_session` was called. -/
inductive Reason
  | clientEof
  | clientReadError
  | clientWriteError
  | clientError
  | clientHangup
  | notRegistered
  | noServer
  | memberGone
  | delivered
  deriving DecidableEq, Repr

/-- The client's own end of file, error or hang-up. -/
def Reason.isClient : Reason → Bool
  | .clientEof | .clientReadError | .clientWriteError | .clientError | .clientHangup => true
  | _ => false

/-- One thing that happened to a session. -/
inductive Obs
  /-- handed out by `get_new_session` while the algorithm was in force -/
  | allocated (algorithm : Algorithm)
  /-- `choose_server` returned -/
  | chose (status : ℤ)
  /-- a connection to a server was established and counted -/
  | connected (role : Role) (slot : ℕ)
  | received (role : Role) (bytes : List UInt8)
  | sent (role : Role) (bytes : List UInt8)
  /-- `delete_session` was called on the session in this condition -/
  | released (reason : Reason) (session : Session)

/-- What happened to a session, the latest first. -/
abbrev History := List Obs

/-! ## The surroundings of a session -/

/-- The events a descriptor is registered for, besides `EPOLLERR` and
`EPOLLHUP`. -/
structure Interest where
  input : Bool
  output : Bool
  deriving DecidableEq, Repr

/-- `null_ev`, `ro_ev`, `wr_ev` and `rw_ev`. -/
def Interest.null : Interest := ⟨false, false⟩
def Interest.ro : Interest := ⟨true, false⟩
def Interest.wr : Interest := ⟨false, true⟩
def Interest.rw : Interest := ⟨true, true⟩

/-- Everything a handler can touch besides its session, for a pool of `n`
sessions: the balancer with the selection globals, the `fds` array, the kernel's
descriptor table and epoll set, and which sessions are in the pool. -/
structure Sys (n : ℕ) (L : Type) where
  chooser : Chooser L
  fds : Fd → Option (Fin n)
  isOpen : Fd → Bool
  interest : Fd → Option Interest
  unused : Fin n → Bool

/-- What `read` finds at a descriptor. -/
inductive ReadOutcome
  | error
  | data (bytes : List UInt8)

/-- What a peer does with a `write`. -/
inductive WriteOutcome
  | error
  | accept (count : ℕ)

namespace Sys

variable {n : ℕ} {L : Type}

/-- `read` with `room` bytes of space: `none` on error, no bytes at end of file
or without space. -/
def read (y : Sys n L) (fd : Fd) (room : ℕ) : ReadOutcome → Option (List UInt8)
  | .error => none
  | .data bytes => if y.isOpen fd then some (bytes.take room) else none

/-- `write` of `size` bytes: `none` on error, else how many were taken, which is
at least one if there was one. -/
def write (y : Sys n L) (fd : Fd) (size : ℕ) : WriteOutcome → Option ℕ
  | .error => none
  | .accept count => if y.isOpen fd then some (min size (max 1 count)) else none

/-- `shutdown` and `close`: a closed descriptor leaves the epoll set. -/
def close (y : Sys n L) (fd : Fd) : Sys n L :=
  { y with
    isOpen := Function.update y.isOpen fd false
    interest := Function.update y.interest fd none }

/-- A new descriptor. -/
def opened (y : Sys n L) (fd : Fd) : Sys n L :=
  { y with isOpen := Function.update y.isOpen fd true }

/-- `fds[fd].session = s`. -/
def assign (y : Sys n L) (fd : Fd) (s : Option (Fin n)) : Sys n L :=
  { y with fds := Function.update y.fds fd s }

/-- A successful `epoll_ctl(EPOLL_CTL_ADD)` with `ro_ev`. -/
def register (y : Sys n L) (fd : Fd) : Sys n L :=
  { y with interest := Function.update y.interest fd (some .ro) }

/-- `epoll_ctl(EPOLL_CTL_MOD)`, which fails for -1 and for a descriptor that is
not registered. -/
def epollMod (y : Sys n L) (fd : Option Fd) (i : Interest) : Sys n L :=
  match fd with
  | none => y
  | some fd =>
      if (y.interest fd).isSome then
        { y with interest := Function.update y.interest fd (some i) }
      else y

/-- Write through a server pointer of a session; such a pointer is only used
once it has been set. -/
def modifyServer (y : Sys n L) (p : Option ℕ) (f : Server L → Server L) : Sys n L :=
  match p with
  | none => y
  | some p =>
      { y with chooser := { y.chooser with balancer := y.chooser.balancer.modifyServer p f } }

end Sys

/-! ## The view of a handler -/

/-- The session a handler works on, its index in the session array, its history,
and the surroundings. -/
structure Ctx (n : ℕ) (L : Type) where
  sid : Fin n
  session : Session
  history : History
  sys : Sys n L

namespace Ctx

variable {n : ℕ} {L : Type}

/-- Change the session record. -/
def update (x : Ctx n L) (f : Session → Session) : Ctx n L := { x with session := f x.session }

/-- Change the state bits. -/
def updateState (x : Ctx n L) (f : SessionState → SessionState) : Ctx n L :=
  x.update fun s => { s with state := f s.state }

/-- Change the surroundings. -/
def updateSys (x : Ctx n L) (f : Sys n L → Sys n L) : Ctx n L := { x with sys := f x.sys }

/-- Change the interest registered for a peer's descriptor. -/
def watch (x : Ctx n L) (role : Role) (i : Interest) : Ctx n L :=
  x.updateSys fun y => y.epollMod (x.session.fdOf role) i

/-- Add to the history. -/
def observe (x : Ctx n L) (o : Obs) : Ctx n L := { x with history := o :: x.history }

section Projections

variable (x : Ctx n L)

@[simp] theorem sid_update (f : Session → Session) : (x.update f).sid = x.sid := rfl
@[simp] theorem session_update (f : Session → Session) :
    (x.update f).session = f x.session := rfl
@[simp] theorem history_update (f : Session → Session) : (x.update f).history = x.history := rfl
@[simp] theorem sys_update (f : Session → Session) : (x.update f).sys = x.sys := rfl

@[simp] theorem sid_updateState (f : SessionState → SessionState) :
    (x.updateState f).sid = x.sid := rfl
@[simp] theorem session_updateState (f : SessionState → SessionState) :
    (x.updateState f).session = { x.session with state := f x.session.state } := rfl
@[simp] theorem history_updateState (f : SessionState → SessionState) :
    (x.updateState f).history = x.history := rfl
@[simp] theorem sys_updateState (f : SessionState → SessionState) :
    (x.updateState f).sys = x.sys := rfl

@[simp] theorem sid_updateSys (f : Sys n L → Sys n L) : (x.updateSys f).sid = x.sid := rfl
@[simp] theorem session_updateSys (f : Sys n L → Sys n L) :
    (x.updateSys f).session = x.session := rfl
@[simp] theorem history_updateSys (f : Sys n L → Sys n L) :
    (x.updateSys f).history = x.history := rfl
@[simp] theorem sys_updateSys (f : Sys n L → Sys n L) : (x.updateSys f).sys = f x.sys := rfl

@[simp] theorem sid_observe (o : Obs) : (x.observe o).sid = x.sid := rfl
@[simp] theorem session_observe (o : Obs) : (x.observe o).session = x.session := rfl
@[simp] theorem history_observe (o : Obs) : (x.observe o).history = o :: x.history := rfl
@[simp] theorem sys_observe (o : Obs) : (x.observe o).sys = x.sys := rfl

end Projections

end Ctx

end OctopusLB
