/-
# Connecting a session to its servers (`connect.c`, `choose_server`)

`connect_server` opens a socket for the member and, if clones are in use, one
for the clone.  Every system call that can end a half early has an outcome of
its own; the two `setsockopt` calls of the member half whose failure is only
logged have none.  A socket that a failing call leaves behind stays open, as in
the source.
-/
import OctopusLB.Session

namespace OctopusLB

variable {n : ℕ} {L : Type}

/-- The system calls of the member half; `socket` is the descriptor returned. -/
structure MemberConnect where
  socket : Option Fd
  nonblock : Bool
  bind : Bool
  connect : Bool
  epollAdd : Bool

/-- The system calls of the clone half. -/
structure CloneConnect where
  socket : Option Fd
  nonblock : Bool
  sndbuf : Bool
  rcvbuf : Bool
  reuseaddr : Bool
  keepalive : Bool
  bind : Bool
  connect : Bool
  epollAdd : Bool

/-- The system calls of one `connect_server`. -/
structure ConnectEnv where
  member : MemberConnect
  clone : CloneConnect

/-- The system returns only descriptors that are not open. -/
def Sys.newFd (y : Sys n L) (fd : Option Fd) : Option Fd := fd.filter fun fd => !y.isOpen fd

namespace Ctx

/-- `session->member=..; session->memberfd=..; fds[..].session=session`. -/
def associate (kind : ServerKind) (fd : Fd) (slot : ℕ) (x : Ctx n L) : Ctx n L :=
  (x.update (Session.setServer kind fd slot)).updateSys fun y => y.assign fd (some x.sid)

/-- Registered with epoll: count the connection and set the state bits. -/
def establish (kind : ServerKind) (fd : Fd) (slot : ℕ) (x : Ctx n L) : Ctx n L :=
  ((x.updateSys fun y => (y.register fd).modifyServer (some slot) fun s => { s with c := s.c + 1 })
    |>.update (Session.setConnected kind)).observe (.connected kind.role slot)

end Ctx

/-- The member half of `connect_server`: -1 on failure. -/
def connectMember (env : MemberConnect) (x : Ctx n L) : Ctx n L × ℤ :=
  match x.session.memberfd with
  | some _ => (x, 0)
  | none =>
      match x.sys.newFd env.socket with
      | none => (x, -1)
      | some serverfd =>
          let x := x.updateSys fun y => y.opened serverfd
          if !env.nonblock then (x, -1)
          else if !env.bind then (x, -1)
          else if !env.connect then (x, -1)
          else
            let slot := Balancer.memberSlot x.sys.chooser.nextMember
            let x := x.associate .member serverfd slot
            if !env.epollAdd then (x, -1) else (x.establish .member serverfd slot, 0)

/-- The clone half of `connect_server`: 1 on failure, -1 if `bind` fails. -/
def connectClone (env : CloneConnect) (x : Ctx n L) : Ctx n L × ℤ :=
  if x.sys.chooser.useClone = true ∧ x.session.clonefd = none then
    match x.sys.newFd env.socket with
    | none => (x, 1)
    | some clonefd =>
        let x := x.updateSys fun y => y.opened clonefd
        if !env.nonblock then (x, 1)
        else if !env.sndbuf then (x, 1)
        else if !env.rcvbuf then (x, 1)
        else if !env.reuseaddr then (x, 1)
        else if !env.keepalive then (x, 1)
        else if !env.bind then (x, -1)
        else if !env.connect then (x, 1)
        else
          let slot := Balancer.cloneSlot x.sys.chooser.nextClone
          let x := x.associate .clone clonefd slot
          if !env.epollAdd then (x, 1) else (x.establish .clone clonefd slot, 0)
  else (x, 0)

/-- `connect_server`. -/
def connectServer (env : ConnectEnv) (x : Ctx n L) : Ctx n L × ℤ :=
  if (connectMember env.member x).2 = -1 then connectMember env.member x
  else connectClone env.clone (connectMember env.member x).1

/-- `choose_server`; `none` if the URI scan faults. -/
def chooseServer [LoadArith L] (env : ConnectEnv) (x : Ctx n L) : Option (Ctx n L × ℤ) :=
  match chooseCandidate x.session.clientReadBuffer.cells x.sys.chooser with
  | none => none
  | some (chooser, status) =>
      let x := x.updateSys fun y => { y with chooser := chooser }
      let r := if status ≠ 0 then (x, -1) else connectServer env x
      some (r.1.observe (.chose r.2), r.2)

/-! ## What a half of `connect_server` can do -/

/-- The calls of the clone half between `socket` and `bind` all succeed. -/
def CloneConnect.configured (env : CloneConnect) : Bool :=
  env.nonblock && env.sndbuf && env.rcvbuf && env.reuseaddr && env.keepalive

theorem CloneConnect.configured_iff (env : CloneConnect) : env.configured = true ↔
    env.nonblock = true ∧ env.sndbuf = true ∧ env.rcvbuf = true ∧ env.reuseaddr = true ∧
      env.keepalive = true := by
  unfold CloneConnect.configured
  simp only [Bool.and_eq_true, and_assoc]

/-- The five calls between `socket` and `bind` end the clone half in one way. -/
theorem connectClone_of_socket {env : CloneConnect} {x : Ctx n L} {clonefd : Fd}
    (hneed : x.sys.chooser.useClone = true ∧ x.session.clonefd = none)
    (hs : x.sys.newFd env.socket = some clonefd) : connectClone env x =
      let opened := x.updateSys fun y => y.opened clonefd
      let slot := Balancer.cloneSlot x.sys.chooser.nextClone
      if !env.configured then (opened, 1)
      else if !env.bind then (opened, -1)
      else if !env.connect then (opened, 1)
      else if !env.epollAdd then (opened.associate .clone clonefd slot, 1)
      else ((opened.associate .clone clonefd slot).establish .clone clonefd slot, 0) := by
  unfold connectClone CloneConnect.configured
  rw [if_pos hneed, hs]
  cases env.nonblock <;> cases env.sndbuf <;> cases env.rcvbuf <;> cases env.reuseaddr <;>
    cases env.keepalive <;> rfl

theorem connectClone_of_noSocket {env : CloneConnect} {x : Ctx n L}
    (hneed : x.sys.chooser.useClone = true ∧ x.session.clonefd = none)
    (hs : x.sys.newFd env.socket = none) : connectClone env x = (x, 1) := by
  unfold connectClone
  rw [if_pos hneed, hs]

/-- The five ways in which a half can end: nothing to do, no socket, a socket
left open, a socket associated but not registered, an established connection. -/
inductive Connects (kind : ServerKind) (slot : ℕ) (x : Ctx n L) : Ctx n L → Prop
  | skipped : Connects kind slot x x
  | leaked (fd : Fd) (hfd : x.sys.isOpen fd = false) (hnone : x.session.serverfd kind = none) :
      Connects kind slot x (x.updateSys fun y => y.opened fd)
  | associated (fd : Fd) (hfd : x.sys.isOpen fd = false)
      (hnone : x.session.serverfd kind = none) :
      Connects kind slot x ((x.updateSys fun y => y.opened fd).associate kind fd slot)
  | established (fd : Fd) (hfd : x.sys.isOpen fd = false)
      (hnone : x.session.serverfd kind = none) :
      Connects kind slot x
        (((x.updateSys fun y => y.opened fd).associate kind fd slot).establish kind fd slot)

theorem Sys.isOpen_of_newFd {y : Sys n L} {o : Option Fd} {fd : Fd} (h : y.newFd o = some fd) :
    y.isOpen fd = false := by
  obtain ⟨-, hfd⟩ := Option.filter_eq_some_iff.mp h
  simpa using hfd

theorem connectMember_connects (env : MemberConnect) (x : Ctx n L) :
    Connects .member (Balancer.memberSlot x.sys.chooser.nextMember) x
      (connectMember env x).1 := by
  unfold connectMember
  cases hm : x.session.memberfd with
  | some fd => exact .skipped
  | none =>
      cases hs : x.sys.newFd env.socket with
      | none => exact .skipped
      | some serverfd =>
          have hfd := Sys.isOpen_of_newFd hs
          dsimp only
          split_ifs
          · exact .leaked serverfd hfd hm
          · exact .leaked serverfd hfd hm
          · exact .leaked serverfd hfd hm
          · exact .associated serverfd hfd hm
          · exact .established serverfd hfd hm

theorem connectClone_connects (env : CloneConnect) (x : Ctx n L) :
    Connects .clone (Balancer.cloneSlot x.sys.chooser.nextClone) x (connectClone env x).1 := by
  by_cases huse : x.sys.chooser.useClone = true ∧ x.session.clonefd = none
  · cases hs : x.sys.newFd env.socket with
    | none =>
        rw [connectClone_of_noSocket huse hs]
        exact .skipped
    | some clonefd =>
        have hfd := Sys.isOpen_of_newFd hs
        rw [connectClone_of_socket huse hs]
        dsimp only
        split_ifs
        · exact .leaked clonefd hfd huse.2
        · exact .leaked clonefd hfd huse.2
        · exact .leaked clonefd hfd huse.2
        · exact .associated clonefd hfd huse.2
        · exact .established clonefd hfd huse.2
  · unfold connectClone
    rw [if_neg huse]
    exact .skipped

/-- The clone half does nothing unless clones are in use. -/
theorem connectClone_of_not_useClone (env : CloneConnect) {x : Ctx n L}
    (h : x.sys.chooser.useClone ≠ true) : (connectClone env x).1 = x := by
  rw [connectClone, if_neg fun hc => h hc.1]

/-- Connecting leaves the clone cursor. -/
theorem chooser_connects {kind : ServerKind} {slot : ℕ} {x y : Ctx n L}
    (h : Connects kind slot x y) : y.sys.chooser.nextClone = x.sys.chooser.nextClone
      ∧ y.sys.chooser.useClone = x.sys.chooser.useClone := by
  cases h <;> exact ⟨rfl, rfl⟩

end OctopusLB
