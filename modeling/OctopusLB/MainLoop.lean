/-
# The main loop (`main` in `octopus.c`)

All sessions together, and what the main loop does with the events that
`epoll_wait` reports: an event of the listener goes to the accept branch, any
other one to the handlers of the role that its descriptor has in its session.

`loopMachine` is the loop itself.  One `epoll_wait` returns a batch, and the
events of a batch are processed one after the other although processing one may
close the descriptor of another.  Between events the other processes may change
the shared balancer in any way.
-/
import OctopusLB.HandlerFacts
import OctopusLB.Machine

namespace OctopusLB

variable {n : ℕ} {L : Type}

/-! ## Events -/

/-- One entry of the array that `epoll_wait` fills. -/
structure Event where
  fd : Fd
  input : Bool
  output : Bool
  err : Bool
  hup : Bool
  deriving DecidableEq, Repr

/-- The outcomes of the system calls that processing an event may make, and the
session that `get_new_session` hands out. -/
structure EventEnv (n : ℕ) where
  accepted : Option Fd
  nonblock : Bool
  nodelay : Bool
  session : Option (Fin n)
  accept : AcceptEnv
  read : ReadOutcome
  write : WriteOutcome
  connect : ConnectEnv

/-! ## The sessions -/

/-- All sessions with their histories, their shared surroundings, and the
listening descriptor. -/
structure World (n : ℕ) (L : Type) where
  sessions : Fin n → Session
  histories : Fin n → History
  sys : Sys n L
  listenerfd : Fd

namespace World

/-- What a handler sees that is called for session `s`. -/
def ctx (w : World n L) (s : Fin n) : Ctx n L := ⟨s, w.sessions s, w.histories s, w.sys⟩

/-- What a handler leaves behind. -/
def put (w : World n L) (x : Ctx n L) : World n L :=
  { w with
    sessions := Function.update w.sessions x.sid x.session
    histories := Function.update w.histories x.sid x.history
    sys := x.sys }

/-- Change the surroundings. -/
def updateSys (w : World n L) (f : Sys n L → Sys n L) : World n L := { w with sys := f w.sys }

@[simp] theorem ctx_put_self (w : World n L) (x : Ctx n L) : (w.put x).ctx x.sid = x := by
  simp [ctx, put]

@[simp] theorem put_put (w : World n L) {x y : Ctx n L} (h : y.sid = x.sid) :
    (w.put x).put y = w.put y := by
  simp [put, h]

@[simp] theorem put_ctx (w : World n L) (s : Fin n) : w.put (w.ctx s) = w := by
  simp [ctx, put]

@[simp] theorem sys_put (w : World n L) (x : Ctx n L) : (w.put x).sys = x.sys := rfl

@[simp] theorem sessions_put_self (w : World n L) (x : Ctx n L) :
    (w.put x).sessions x.sid = x.session := Function.update_self ..

@[simp] theorem histories_put_self (w : World n L) (x : Ctx n L) :
    (w.put x).histories x.sid = x.history := Function.update_self ..

theorem sessions_put_of_sid (w : World n L) {x : Ctx n L} {s : Fin n} (h : x.sid = s) :
    (w.put x).sessions s = x.session := by rw [← h, sessions_put_self]

theorem histories_put_of_sid (w : World n L) {x : Ctx n L} {s : Fin n} (h : x.sid = s) :
    (w.put x).histories s = x.history := by rw [← h, histories_put_self]

theorem sessions_put_of_ne (w : World n L) {x : Ctx n L} {t : Fin n} (h : t ≠ x.sid) :
    (w.put x).sessions t = w.sessions t := Function.update_of_ne h ..

theorem histories_put_of_ne (w : World n L) {x : Ctx n L} {t : Fin n} (h : t ≠ x.sid) :
    (w.put x).histories t = w.histories t := Function.update_of_ne h ..

end World

/-- A property of every session and its history, when one session changes. -/
theorem World.forall_put {P : Session → History → Prop} {w : World n L}
    (h : ∀ s, P (w.sessions s) (w.histories s)) {y : Ctx n L} (hy : P y.session y.history)
    (t : Fin n) : P ((w.put y).sessions t) ((w.put y).histories t) := by
  by_cases ht : t = y.sid
  · rw [ht, World.sessions_put_self, World.histories_put_self]
    exact hy
  · rw [World.sessions_put_of_ne _ ht, World.histories_put_of_ne _ ht]
    exact h t

/-! ## Processing one event -/

/-- The role that a descriptor has in its session. -/
def Session.roleOf (s : Session) (fd : Fd) : Option Role :=
  if s.clientfd = some fd then some .client
  else if s.memberfd = some fd then some .member
  else if s.clonefd = some fd then some .clone
  else none

/-- The branch of one role: an error or a hang-up ends the matter, else the read
handler is called for `EPOLLIN` and then the write handler for `EPOLLOUT`. -/
def serveRole [LoadArith L] (role : Role) (e : Event) (env : EventEnv n) (x : Ctx n L) :
    Option (Ctx n L) :=
  if e.err then handle (.hangup role e.fd true) x
  else if e.hup then handle (.hangup role e.fd false) x
  else
    (if e.input then handle (.read role e.fd env.read env.connect) x else some x).bind fun y =>
      if e.output then handle (.write role e.fd env.write) y else some y

/-- An event of a descriptor that is not the listener, in the session that `fds`
has for it. -/
def serve [LoadArith L] (e : Event) (env : EventEnv n) (x : Ctx n L) : Option (Ctx n L) :=
  match x.session.roleOf e.fd with
  | some role => serveRole role e env x
  | none => some x

/-- The pool hands out only sessions that are in it. -/
def Sys.newSession (y : Sys n L) (s : Option (Fin n)) : Option (Fin n) := s.filter y.unused

/-- An event of the listener. -/
def acceptEvent [LoadArith L] (env : EventEnv n) (w : World n L) : Option (World n L) :=
  match w.sys.newFd env.accepted with
  | none => some w
  | some incomingfd =>
      let opened := w.updateSys fun y => y.opened incomingfd
      if !env.nonblock then some (opened.updateSys fun y => y.close incomingfd)
      else if !env.nodelay then some (opened.updateSys fun y => y.close incomingfd)
      else
        match w.sys.newSession env.session with
        -- no session is left: `fds` forgets the descriptor
        | none => some (opened.updateSys fun y => (y.assign incomingfd none).close incomingfd)
        -- the session is taken from the pool by `handOut`
        | some s => (acceptClient incomingfd env.accept (opened.ctx s)).map opened.put

/-- The accept branch gets the descriptor of a client and a session for it. -/
structure World.Accepts (w : World n L) (env : EventEnv n) (fd : Fd) (s : Fin n) : Prop where
  accepted : w.sys.newFd env.accepted = some fd
  nonblock : env.nonblock = true
  nodelay : env.nodelay = true
  session : w.sys.newSession env.session = some s

namespace World.Accepts

variable {w : World n L} {env : EventEnv n} {fd : Fd} {s : Fin n}

theorem isOpen (h : w.Accepts env fd s) : w.sys.isOpen fd = false :=
  Sys.isOpen_of_newFd h.accepted

theorem unused (h : w.Accepts env fd s) : w.sys.unused s = true := by
  obtain ⟨-, hunused⟩ := Option.filter_eq_some_iff.mp h.session
  exact hunused

end World.Accepts

/-- The body of the loop over the events of a batch; `none` if a null pointer is
followed or the URI scan faults. -/
def processEvent [LoadArith L] (e : Event) (env : EventEnv n) (w : World n L) :
    Option (World n L) :=
  if e.fd = w.listenerfd then
    if e.input then acceptEvent env w else some w
  else
    match w.sys.fds e.fd with
    -- the session pointer is followed without a test
    | none => none
    | some s => (serve e env (w.ctx s)).map w.put

/-! ## The loop -/

/-- The main loop with the events of the current batch that are still to be
processed. -/
structure MainLoop (n : ℕ) (L : Type) where
  world : World n L
  pending : List Event

/-- What moves the main loop on. -/
inductive LoopInput (n : ℕ) (L : Type)
  /-- `epoll_wait` returns a batch -/
  | poll (events : List Event)
  /-- the next event of the batch is processed -/
  | process (env : EventEnv n)
  /-- another process has changed the shared balancer -/
  | share (balancer : Balancer L)

/-- The events that `epoll_wait` can report: of registered descriptors. -/
def World.reported (w : World n L) (events : List Event) : List Event :=
  events.filter fun e => (w.sys.interest e.fd).isSome

/-- The shared balancer is replaced. -/
def World.share (w : World n L) (b : Balancer L) : World n L :=
  w.updateSys fun y => { y with chooser := { y.chooser with balancer := b } }

/-- The main loop. -/
def loopMachine (n : ℕ) (L : Type) [LoadArith L] : Machine (MainLoop n L) (LoopInput n L) where
  step m i :=
    match i, m.pending with
    | .poll events, [] => some { m with pending := m.world.reported events }
    | .poll _, _ :: _ => none
    | .process env, e :: es => (processEvent e env m.world).map fun w => ⟨w, es⟩
    | .process _, [] => none
    | .share b, _ => some { m with world := m.world.share b }

/-- The world as start-up leaves it, with any server tables: no session is in
use, and only the listener is registered with epoll. -/
structure World.Start (w : World n L) : Prop where
  sessions : ∀ s, w.sessions s = .initial s
  histories : ∀ s, w.histories s = []
  unused : ∀ s, w.sys.unused s = true
  listening : w.sys.isOpen w.listenerfd = true
  interest : ∀ fd, w.sys.interest fd = if fd = w.listenerfd then some .ro else none

/-! ## Steps -/

section Steps

variable [LoadArith L] {m m' : MainLoop n L}

/-- What a step of the loop can be. -/
theorem loopMachine_cases {i : LoopInput n L} (h : (loopMachine n L).step m i = some m') :
    (∃ events, i = .poll events ∧ m'.world = m.world) ∨
      (∃ env e es, i = .process env ∧ m.pending = e :: es ∧
        processEvent e env m.world = some m'.world) ∨
      ∃ b, i = .share b ∧ m'.world = m.world.share b := by
  obtain ⟨w, pending⟩ := m
  cases i with
  | poll events =>
      cases pending with
      | nil =>
          obtain rfl := Option.some.inj h
          exact Or.inl ⟨events, rfl, rfl⟩
      | cons e es => cases h
  | process env =>
      cases pending with
      | nil => cases h
      | cons e es =>
          obtain ⟨w', hw, rfl⟩ := Option.map_eq_some_iff.mp h
          exact Or.inr (Or.inl ⟨env, e, es, rfl, rfl, hw⟩)
  | share b =>
      obtain rfl := Option.some.inj h
      exact Or.inr (Or.inr ⟨b, rfl, rfl⟩)

/-- How processing an event can end. -/
theorem processEvent_cases {e : Event} {env : EventEnv n} {w w' : World n L}
    (h : processEvent e env w = some w') :
    (e.fd = w.listenerfd ∧ w' = w) ∨
      (e.fd = w.listenerfd ∧ e.input = true ∧ acceptEvent env w = some w') ∨
      ∃ s y, e.fd ≠ w.listenerfd ∧ w.sys.fds e.fd = some s ∧ serve e env (w.ctx s) = some y ∧
        w' = w.put y := by
  unfold processEvent at h
  by_cases hl : e.fd = w.listenerfd
  · rw [if_pos hl] at h
    by_cases hin : e.input = true
    · rw [if_pos hin] at h
      exact Or.inr (Or.inl ⟨hl, hin, h⟩)
    · rw [if_neg hin] at h
      exact Or.inl ⟨hl, (Option.some.inj h).symm⟩
  · rw [if_neg hl] at h
    cases hs : w.sys.fds e.fd with
    | none =>
        rw [hs] at h
        cases h
    | some s =>
        rw [hs] at h
        obtain ⟨y, hy, rfl⟩ := Option.map_eq_some_iff.mp h
        exact Or.inr (Or.inr ⟨s, y, hl, rfl, hy, rfl⟩)

/-- How an event of the listener can end: nothing is accepted, the descriptor is
closed again, or a session is handed out for it. -/
theorem acceptEvent_cases {env : EventEnv n} {w w' : World n L}
    (h : acceptEvent env w = some w') :
    w' = w ∨ ∃ fd, w.sys.isOpen fd = false ∧
      (w' = (w.updateSys fun y => y.opened fd).updateSys (fun y => y.close fd) ∨
        w' = (w.updateSys fun y => y.opened fd).updateSys
          (fun y => (y.assign fd none).close fd) ∨
        ∃ s y, w.Accepts env fd s ∧
          acceptClient fd env.accept ((w.ctx s).updateSys fun y => y.opened fd) = some y ∧
          w' = w.put y) := by
  unfold acceptEvent at h
  cases hfd : w.sys.newFd env.accepted with
  | none =>
      rw [hfd] at h
      exact Or.inl (Option.some.inj h).symm
  | some fd =>
      rw [hfd] at h
      refine Or.inr ⟨fd, Sys.isOpen_of_newFd hfd, ?_⟩
      dsimp only at h
      by_cases hb : (!env.nonblock) = true
      · rw [if_pos hb] at h
        exact Or.inl (Option.some.inj h).symm
      by_cases hd : (!env.nodelay) = true
      · rw [if_neg hb, if_pos hd] at h
        exact Or.inl (Option.some.inj h).symm
      rw [if_neg hb, if_neg hd] at h
      cases hs : w.sys.newSession env.session with
      | none =>
          rw [hs] at h
          exact Or.inr (Or.inl (Option.some.inj h).symm)
      | some s =>
          rw [hs] at h
          obtain ⟨y, hy, rfl⟩ := Option.map_eq_some_iff.mp h
          have haccepts : w.Accepts env fd s := ⟨hfd, by simpa using hb, by simpa using hd, hs⟩
          exact Or.inr (Or.inr ⟨s, y, haccepts, hy, rfl⟩)

/-- How a branch of a role can end. -/
theorem serveRole_cases {role : Role} {e : Event} {env : EventEnv n} {x y : Ctx n L}
    (h : serveRole role e env x = some y) :
    (∃ err, handle (.hangup role e.fd err) x = some y) ∨
      (e.err = false ∧ e.hup = false ∧ ∃ z,
        (z = x ∧ e.input = false ∨
          e.input = true ∧ handle (.read role e.fd env.read env.connect) x = some z) ∧
        (y = z ∧ e.output = false ∨
          e.output = true ∧ handle (.write role e.fd env.write) z = some y)) := by
  unfold serveRole at h
  by_cases herr : e.err = true
  · rw [if_pos herr] at h
    exact Or.inl ⟨true, h⟩
  by_cases hhup : e.hup = true
  · rw [if_neg herr, if_pos hhup] at h
    exact Or.inl ⟨false, h⟩
  rw [if_neg herr, if_neg hhup, Option.bind_eq_some_iff] at h
  obtain ⟨z, hz, hy⟩ := h
  refine Or.inr ⟨by simpa using herr, by simpa using hhup, z, ?_, ?_⟩
  · by_cases hin : e.input = true
    · rw [if_pos hin] at hz
      exact Or.inr ⟨hin, hz⟩
    · rw [if_neg hin] at hz
      exact Or.inl ⟨(Option.some.inj hz).symm, by simpa using hin⟩
  · by_cases hout : e.output = true
    · rw [if_pos hout] at hy
      exact Or.inr ⟨hout, hy⟩
    · rw [if_neg hout] at hy
      exact Or.inl ⟨(Option.some.inj hy).symm, by simpa using hout⟩

/-- The main loop comes to an event of the listener. -/
structure Listens (m : MainLoop n L) (i : LoopInput n L) (env : EventEnv n) : Prop where
  input : i = .process env
  head : ∃ e es, m.pending = e :: es ∧ e.fd = m.world.listenerfd ∧ e.input = true

/-- A property of every session and its history is kept by a step of the loop if
the accept branch and the handling of the event keep it. -/
theorem loop_sessions {P : Session → History → Prop} {i : LoopInput n L}
    (h : ∀ s, P (m.world.sessions s) (m.world.histories s))
    (haccept : ∀ s y fd env, Listens m i env → m.world.Accepts env fd s →
      acceptClient fd env.accept ((m.world.ctx s).updateSys fun x => x.opened fd) = some y →
        P y.session y.history)
    (hserve : ∀ env e es s y, i = .process env → m.pending = e :: es →
      e.fd ≠ m.world.listenerfd → m.world.sys.fds e.fd = some s →
      serve e env (m.world.ctx s) = some y → P y.session y.history)
    (hstep : (loopMachine n L).step m i = some m') :
    ∀ s, P (m'.world.sessions s) (m'.world.histories s) := by
  rcases loopMachine_cases hstep with ⟨-, -, heq⟩ | ⟨env, e, es, hi, hpending, hevent⟩ |
    ⟨b, -, heq⟩
  · rw [heq]
    exact h
  · rcases processEvent_cases hevent with ⟨-, heq⟩ | ⟨hl, hin, hlisten⟩ | ⟨s, y, hne, hs, hy, heq⟩
    · rw [heq]
      exact h
    · rcases acceptEvent_cases hlisten with
        heq | ⟨fd, -, heq | heq | ⟨s, y, haccepts, hy, heq⟩⟩ <;> rw [heq]
      · exact h
      · exact h
      · exact h
      · exact World.forall_put h
          (haccept s y fd env ⟨hi, e, es, hpending, hl, hin⟩ haccepts hy)
    · rw [heq]
      exact World.forall_put h (hserve env e es s y hi hpending hne hs hy)
  · rw [heq]
    exact h

/-- The same for a property of the histories alone. -/
theorem loop_histories {P : History → Prop} {i : LoopInput n L}
    (h : ∀ s, P (m.world.histories s))
    (haccept : ∀ (x y : Ctx n L) fd env, P x.history → acceptClient fd env x = some y →
      P y.history)
    (hserve : ∀ env e es s y, i = .process env → m.pending = e :: es →
      e.fd ≠ m.world.listenerfd → m.world.sys.fds e.fd = some s →
      serve e env (m.world.ctx s) = some y → P y.history)
    (hstep : (loopMachine n L).step m i = some m') : ∀ s, P (m'.world.histories s) :=
  loop_sessions (P := fun _ => P) h
    (fun s y fd env _ _ hy => haccept _ y fd env.accept (h s) hy) hserve hstep

/-- The role of a descriptor is that of a field of the session. -/
theorem Session.fdOf_of_roleOf {s : Session} {fd : Fd} {role : Role}
    (h : s.roleOf fd = some role) : s.fdOf role = some fd := by
  unfold Session.roleOf at h
  split_ifs at h with hc hm ho <;> obtain rfl := Option.some.inj h <;> assumption

end Steps

end OctopusLB
