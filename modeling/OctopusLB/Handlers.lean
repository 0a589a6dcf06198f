/-
# The handlers (`octopus.c`)

The functions that the main loop calls for the events of a session: the read and
write handlers of the three descriptors, `delete_session` and the `disconnect_*`
functions.

Each handler ends by registering the interest of the session's descriptors
again ("session socket maintain"); `interestOf` is the four-way choice that most
of them make from a read and a write bit.
-/
import OctopusLB.Connect

namespace OctopusLB

variable {n : ℕ} {L : Type}

/-! ## Tearing down -/

/-- `disconnect_member` and `disconnect_clone`. -/
def disconnectServer (kind : ServerKind) (x : Ctx n L) : Ctx n L :=
  match x.session.serverfd kind with
  | none => x
  | some fd =>
      (x.updateSys fun y => (y.modifyServer (x.session.server kind)
          fun s => { s with c := s.c - 1, completedC := s.completedC + 1 }).close fd)
        |>.update (Session.clearServer kind)

/-- `disconnect_member`. -/
def disconnectMember (x : Ctx n L) : Ctx n L := disconnectServer .member x

/-- `disconnect_clone`. -/
def disconnectClone (x : Ctx n L) : Ctx n L := disconnectServer .clone x

/-- `disconnect_client`. -/
def disconnectClient (x : Ctx n L) : Ctx n L :=
  match x.session.clientfd with
  | none => x
  | some fd =>
      (x.updateSys fun y => y.close fd).update fun s =>
        { s with state := { s.state with cliConnected := false }, clientfd := none }

/-- The session defaults that `delete_session` restores. -/
def Session.reset (s : Session) : Session :=
  { s with
    state := .unused
    clientUsedBuffer := 0
    memberUsedBuffer := 0
    cloneUsedBuffer := 0 }

/-- `add_unused_session`, with the pool as a set. -/
def Sys.addUnusedSession (y : Sys n L) (s : Fin n) : Sys n L :=
  { y with unused := Function.update y.unused s true }

/-- `delete_session`; the reason only goes into the history. -/
def deleteSession (reason : Reason) (x : Ctx n L) : Ctx n L :=
  let before := x.session
  let x := if x.session.state.cliConnected then disconnectClient x else x
  let x := if x.session.state.memConnected then disconnectMember x else x
  let x := if x.session.state.cloConnected then disconnectClone x else x
  ((x.update Session.reset).updateSys fun y => y.addUnusedSession x.sid).observe
    (.released reason before)

/-! ## Interest -/

/-- Read and write, only write, only read, or neither. -/
def interestOf (read write : Bool) : Interest :=
  if read && write then .rw else if write then .wr else if read then .ro else .null

@[simp] theorem interestOf_input (read write : Bool) :
    (interestOf read write).input = read := by
  cases read <;> cases write <;> rfl

@[simp] theorem interestOf_output (read write : Bool) :
    (interestOf read write).output = write := by
  cases read <;> cases write <;> rfl

/-! ## The client -/

/-- The bytes that `read` has put behind the unsent ones. -/
def Session.appendClient (bytes : List UInt8) (s : Session) : Session :=
  { s with
    clientReadBuffer := s.clientReadBuffer.store s.clientUsedBuffer bytes
    clientUsedBuffer := s.clientUsedBuffer + bytes.length }

/-- Bytes have been read from the client. -/
def receiveFromClient (bytes : List UInt8) (x : Ctx n L) : Ctx n L :=
  (x.update (Session.appendClient bytes)).observe (.received .client bytes)

/-- What `client_read` appends to the clone buffer: the last `nbytes` of the
client buffer, copied with `strncpy`. -/
def Session.cloneChunk (nbytes : ℕ) (s : Session) : List UInt8 :=
  CString.strncpy nbytes (s.clientReadBuffer.cells.drop (s.clientUsedBuffer - nbytes))

/-- Append to the clone buffer. -/
def Session.appendClone (nbytes : ℕ) (s : Session) : Session :=
  { s with
    cloneWriteBuffer := s.cloneWriteBuffer.store s.cloneUsedBuffer (s.cloneChunk nbytes)
    cloneUsedBuffer := s.cloneUsedBuffer + nbytes }

/-- Pass the `nbytes` just read on to a connected clone, which is cut loose if
they do not fit. -/
def copyToClone (nbytes : ℕ) (x : Ctx n L) : Ctx n L :=
  if x.session.state.cloConnected then
    -- a clone that does not keep up is given up
    if nbytes > messageSizeLimit - x.session.cloneUsedBuffer then disconnectClone x
    else x.update (Session.appendClone nbytes)
  else x

/-- The state bits after a read from the client. -/
def Session.afterClientRead (s : Session) : Session :=
  let full := s.clientUsedBuffer = messageSizeLimit
  { s with state := { s.state with
      memWriteReady := true
      cloWriteReady := true
      cliBuffFull := if full then true else s.state.cliBuffFull
      cliReadReady := if full then false else s.state.cliReadReady } }

/-- The socket maintenance of `client_read`. -/
def maintainClientRead (x : Ctx n L) : Ctx n L :=
  let state := x.session.state
  let x := x.watch .client (interestOf state.cliReadReady state.cliWriteReady)
  let x := x.watch .member (if state.memReadReady then .rw else .wr)
  if state.cloConnected then x.watch .clone .rw else x

/-- `client_read` once the session has its servers. -/
def forwardClientRead (nbytes : ℕ) (x : Ctx n L) : Ctx n L :=
  maintainClientRead ((copyToClone nbytes x).update Session.afterClientRead)

/-- `client_read`; `none` if `choose_server` faults. -/
def clientRead [LoadArith L] (fd : Fd) (r : ReadOutcome) (env : ConnectEnv) (x : Ctx n L) :
    Option (Ctx n L) :=
  match x.sys.read fd (messageSizeLimit - x.session.clientUsedBuffer) r with
  | none => some (deleteSession .clientReadError x)
  | some [] => some (deleteSession .clientEof x)
  | some (b :: bs) =>
      let x := receiveFromClient (b :: bs) x
      -- the server is chosen by the first bytes of the client
      if x.session.state.fresh then
        (chooseServer env x).map fun r =>
          if r.2 = -1 then deleteSession .noServer r.1
          else forwardClientRead (b :: bs).length
            (r.1.updateState fun state => { state with fresh := false })
      else some (forwardClientRead (b :: bs).length x)

/-- The member buffer after `nbytes` have gone to the client. -/
def Session.drainMember (nbytes : ℕ) (s : Session) : Session :=
  let used := s.memberUsedBuffer - nbytes
  { s with
    memberUsedBuffer := used
    memberReadBuffer := if used = 0 then s.memberReadBuffer else s.memberReadBuffer.shift nbytes used
    state := { s.state with
      cliWriteReady := if used = 0 then false else s.state.cliWriteReady } }

/-- `nbytes` have been written to the client. -/
def sendToClient (nbytes : ℕ) (x : Ctx n L) : Ctx n L :=
  (x.update (Session.drainMember nbytes)).observe
    (.sent .client
      ((x.session.memberReadBuffer.contents x.session.memberUsedBuffer).take nbytes))

/-- There is room in the member buffer again. -/
def Session.freeMember (s : Session) : Session :=
  if s.state.memBuffFull then
    { s with state := { s.state with memBuffFull := false, memReadReady := true } }
  else s

/-- The socket maintenance of `client_write`. -/
def maintainClientWrite (x : Ctx n L) : Ctx n L :=
  let state := x.session.state
  let x := x.watch .client (interestOf state.cliReadReady state.cliWriteReady)
  x.watch .member (interestOf state.memReadReady state.memWriteReady)

/-- `client_write`. -/
def clientWrite (fd : Fd) (w : WriteOutcome) (x : Ctx n L) : Ctx n L :=
  match x.sys.write fd x.session.memberUsedBuffer w with
  | none => deleteSession .clientWriteError x
  | some nbytes =>
      let x := sendToClient nbytes x
      -- everything has been delivered and the member is gone
      if x.session.memberUsedBuffer = 0 ∧ x.session.state.memConnected = false then
        deleteSession .delivered x
      else maintainClientWrite (x.update Session.freeMember)

/-! ## The member -/

/-- The bytes that `read` has put behind those not yet sent to the client, and
the state bits after it. -/
def Session.appendMember (bytes : List UInt8) (s : Session) : Session :=
  let used := s.memberUsedBuffer + bytes.length
  let full := used = messageSizeLimit
  { s with
    memberReadBuffer := s.memberReadBuffer.store s.memberUsedBuffer bytes
    memberUsedBuffer := used
    state := { s.state with
      cliWriteReady := true
      memBuffFull := if full then true else s.state.memBuffFull
      memReadReady := if full then false else s.state.memReadReady } }

/-- Bytes have been read from the member. -/
def receiveFromMember (bytes : List UInt8) (x : Ctx n L) : Ctx n L :=
  ((x.updateSys fun y => y.modifyServer x.session.member
      fun s => { s with brecv := s.brecv + UInt64.ofNat bytes.length })
    |>.update (Session.appendMember bytes)).observe (.received .member bytes)

/-- The socket maintenance of `member_read`. -/
def maintainMemberRead (x : Ctx n L) : Ctx n L :=
  let state := x.session.state
  let x := x.watch .client (if state.cliReadReady then .rw else .wr)
  x.watch .member (interestOf state.memReadReady state.memWriteReady)

/-- `member_read`. -/
def memberRead (fd : Fd) (r : ReadOutcome) (x : Ctx n L) : Ctx n L :=
  match x.sys.read fd (messageSizeLimit - x.session.memberUsedBuffer) r with
  -- the peer has shut down, reading failed, or there was no room
  | none | some [] =>
      -- with bytes left for the client the session goes on without the member
      if x.session.state.cliWriteReady = false then deleteSession .memberGone x
      else disconnectMember x
  | some (b :: bs) => maintainMemberRead (receiveFromMember (b :: bs) x)

/-- The client buffer and the state bits after `nbytes` have gone to the
member. -/
def Session.drainClient (nbytes : ℕ) (s : Session) : Session :=
  let used := s.clientUsedBuffer - nbytes
  { s with
    clientUsedBuffer := used
    clientReadBuffer := if used = 0 then s.clientReadBuffer else s.clientReadBuffer.shift nbytes used
    state := { s.state with
      memReadReady := true
      memWriteReady := if used = 0 then false else s.state.memWriteReady
      cliReadReady := if s.state.cliBuffFull then true else s.state.cliReadReady
      cliBuffFull := false } }

/-- `nbytes` have been written to the member. -/
def sendToMember (nbytes : ℕ) (x : Ctx n L) : Ctx n L :=
  ((x.updateSys fun y => y.modifyServer x.session.member
      fun s => { s with bsent := s.bsent + UInt64.ofNat nbytes })
    |>.update (Session.drainClient nbytes)).observe
      (.sent .member
        ((x.session.clientReadBuffer.contents x.session.clientUsedBuffer).take nbytes))

/-- The socket maintenance of `member_write`. -/
def maintainMemberWrite (x : Ctx n L) : Ctx n L :=
  let state := x.session.state
  let x := x.watch .client (if state.cliWriteReady then .rw else .ro)
  x.watch .member (interestOf state.memReadReady state.memWriteReady)

/-- `member_write`. -/
def memberWrite (fd : Fd) (w : WriteOutcome) (x : Ctx n L) : Ctx n L :=
  match x.sys.write fd x.session.clientUsedBuffer w with
  | none => disconnectMember x
  | some nbytes => maintainMemberWrite (sendToMember nbytes x)

/-! ## The clone -/

/-- Bytes have been read from the clone; they are thrown away. -/
def receiveFromClone (bytes : List UInt8) (x : Ctx n L) : Ctx n L :=
  (x.updateSys fun y => y.modifyServer x.session.clone
    fun s => { s with brecv := s.brecv + UInt64.ofNat bytes.length }).observe
      (.received .clone bytes)

/-- `clone_read`. -/
def cloneRead (fd : Fd) (r : ReadOutcome) (x : Ctx n L) : Ctx n L :=
  match x.sys.read fd messageSizeLimit r with
  | none | some [] => disconnectClone x
  | some (b :: bs) => receiveFromClone (b :: bs) x

/-- The clone buffer and the state bits after `nbytes` have gone to the
clone. -/
def Session.drainClone (nbytes : ℕ) (s : Session) : Session :=
  let used := s.cloneUsedBuffer - nbytes
  { s with
    cloneUsedBuffer := used
    cloneWriteBuffer := if used = 0 then s.cloneWriteBuffer else s.cloneWriteBuffer.shift nbytes used
    state := { s.state with
      cloReadReady := true
      cloWriteReady := if used = 0 then false else s.state.cloWriteReady } }

/-- `nbytes` have been written to the clone. -/
def sendToClone (nbytes : ℕ) (x : Ctx n L) : Ctx n L :=
  ((x.updateSys fun y => y.modifyServer x.session.clone
      fun s => { s with bsent := s.bsent + UInt64.ofNat nbytes })
    |>.update (Session.drainClone nbytes)).observe
      (.sent .clone
        ((x.session.cloneWriteBuffer.contents x.session.cloneUsedBuffer).take nbytes))

/-- The socket maintenance of `clone_write`. -/
def maintainCloneWrite (x : Ctx n L) : Ctx n L :=
  x.watch .clone (if x.session.state.cloWriteReady then .rw else .ro)

/-- `clone_write`. -/
def cloneWrite (fd : Fd) (w : WriteOutcome) (x : Ctx n L) : Ctx n L :=
  match x.sys.write fd x.session.cloneUsedBuffer w with
  | none => disconnectClone x
  | some nbytes => maintainCloneWrite (sendToClone nbytes x)

/-! ## Calls

What the main loop does to a session for an event is a sequence of calls. -/

/-- A call of a handler with a descriptor, or the reaction to `EPOLLERR` (`err`)
or `EPOLLHUP`; each carries the outcomes of its system calls. -/
inductive Call
  | read (role : Role) (fd : Fd) (r : ReadOutcome) (env : ConnectEnv)
  | write (role : Role) (fd : Fd) (w : WriteOutcome)
  | hangup (role : Role) (fd : Fd) (err : Bool)

/-- The role whose handler is called. -/
def Call.role : Call → Role
  | .read role _ _ _ | .write role _ _ | .hangup role _ _ => role

/-- The descriptor a call is made with. -/
def Call.fd : Call → Fd
  | .read _ fd _ _ | .write _ fd _ | .hangup _ fd _ => fd

/-- The effect of a call on the session; `none` if `choose_server` faults. -/
def handle [LoadArith L] (call : Call) (x : Ctx n L) : Option (Ctx n L) :=
  match call with
  | .read .client fd r env => clientRead fd r env x
  | .read .member fd r _ => some (memberRead fd r x)
  | .read .clone fd r _ => some (cloneRead fd r x)
  | .write .client fd w => some (clientWrite fd w x)
  | .write .member fd w => some (memberWrite fd w x)
  | .write .clone fd w => some (cloneWrite fd w x)
  | .hangup .client _ err =>
      some (deleteSession (if err then .clientError else .clientHangup) x)
  | .hangup .member _ _ => some (disconnectMember x)
  | .hangup .clone _ _ => some (disconnectClone x)

/-! ## Accepting a client -/

/-- The system calls of the accept branch once a session has been handed
out. -/
structure AcceptEnv where
  epollAdd : Bool
  connect : ConnectEnv

/-- `get_new_session` hands out the session: it leaves the pool. -/
def Sys.takeSession (y : Sys n L) (s : Fin n) : Sys n L :=
  { y with unused := Function.update y.unused s false }

/-- The session defaults that the accept branch sets. -/
def Session.handOut (fd : Fd) (s : Session) : Session :=
  { s with
    state := { s.state with cliConnected := true, cliReadReady := true }
    clientfd := some fd }

/-- The session has been handed out for the descriptor of a new client. -/
def Ctx.handOut (fd : Fd) (x : Ctx n L) : Ctx n L :=
  ((x.updateSys fun y => (y.takeSession x.sid).assign fd (some x.sid)).observe
    (.allocated x.sys.chooser.balancer.algorithm)).update (Session.handOut fd)

/-- The accept branch of the main loop from `get_new_session` on; `none` if
`choose_server` faults. -/
def acceptClient [LoadArith L] (fd : Fd) (env : AcceptEnv) (x : Ctx n L) : Option (Ctx n L) :=
  let x := x.handOut fd
  if !env.epollAdd then some (deleteSession .notRegistered x)
  else
    let x := x.updateSys fun y => y.register fd
    let algorithm := x.sys.chooser.balancer.algorithm
    -- HASH and STATIC leave the choice to `client_read`
    if algorithm ≠ .hash ∧ algorithm ≠ .static then
      (chooseServer env.connect x).map fun r =>
        if r.2 = -1 then deleteSession .noServer r.1
        else r.1.updateState fun state => { state with fresh := false }
    else some x

end OctopusLB
