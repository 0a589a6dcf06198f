/-
# Who holds which descriptor

In every world that the main loop reaches, a descriptor held by a session is
open, is held by no other session and in no other role, and is mapped to that
session by `fds`; and a session that is not in use holds no client.  So an event
is always handled in the session that holds its descriptor.
-/
import OctopusLB.Moves

namespace OctopusLB

variable {n : ℕ} {L : Type}

/-- Descriptors and sessions in order. -/
structure World.Owned (w : World n L) : Prop where
  ok : ∀ s, (w.sessions s).Ok
  owns : ∀ s, (w.ctx s).Owns
  listening : w.sys.isOpen w.listenerfd = true
  listener_free : ∀ s role, (w.sessions s).fdOf role ≠ some w.listenerfd
  idle : ∀ s, (w.histories s).inUse = false → (w.sessions s).clientfd = none
  unused : ∀ s, w.sys.unused s = !(w.histories s).inUse

namespace World.Owned

variable {w : World n L}

/-- A descriptor held by one session is not held by another. -/
theorem not_held (h : w.Owned) {s t : Fin n} (hst : s ≠ t) {role role' : Role} {fd : Fd}
    (hs : (w.sessions s).fdOf role = some fd) : (w.sessions t).fdOf role' ≠ some fd := fun ht =>
  hst (Option.some.inj (((h.owns s role fd hs).1).symm.trans (h.owns t role' fd ht).1))

/-- A change of one session within its frame. -/
theorem put (h : w.Owned) {s : Fin n} {y : Ctx n L} (hf : Frame (w.ctx s) y) : (w.put y).Owned := by
  have hsid : y.sid = s := hf.sid
  obtain ⟨hok, how⟩ := hf.sound (h.ok s) (h.owns s)
  have hothers : ∀ t, t ≠ s → ∀ role fd, (w.sessions t).fdOf role = some fd →
      y.sys.isOpen fd = true ∧ y.sys.fds fd = some t := by
    intro t ht role fd hr
    obtain ⟨hmap, hopen⟩ := h.owns t role fd hr
    obtain ⟨hopen', hmap', -⟩ := hf.others fd hopen fun role' => h.not_held ht hr
    exact ⟨hopen', hmap'.trans hmap⟩
  have hsession : ∀ t, (w.put y).sessions t = if t = s then y.session else w.sessions t := by
    intro t
    split_ifs with ht
    · rw [ht, ← hsid, sessions_put_self]
    · exact w.sessions_put_of_ne (hsid ▸ ht)
  have hhistory : ∀ t, (w.put y).histories t = if t = s then y.history else w.histories t := by
    intro t
    split_ifs with ht
    · rw [ht, ← hsid, histories_put_self]
    · exact w.histories_put_of_ne (hsid ▸ ht)
  have hlisten := hf.others w.listenerfd h.listening (h.listener_free s)
  refine ⟨?_, ?_, hlisten.1, ?_, ?_, ?_⟩
  · intro t
    rw [hsession]
    split_ifs
    · exact hok
    · exact h.ok t
  · intro t role fd hr
    change ((w.put y).sessions t).fdOf role = some fd at hr
    show y.sys.fds fd = some t ∧ y.sys.isOpen fd = true
    rw [hsession] at hr
    split_ifs at hr with ht
    · rw [ht, ← hsid]
      exact how role fd hr
    · exact (hothers t ht role fd hr).symm
  · intro t role hr
    rw [hsession] at hr
    split_ifs at hr
    · rcases hf.taken role w.listenerfd hr with hclosed | ⟨role', hr'⟩
      · exact absurd (h.listening.symm.trans hclosed) (by decide)
      · exact h.listener_free s role' hr'
    · exact h.listener_free t role hr
  · intro t
    rw [hsession, hhistory]
    split_ifs
    · exact hf.idle (h.idle s)
    · exact h.idle t
  · intro t
    rw [hhistory]
    show y.sys.unused t = _
    split_ifs with ht
    · rw [ht]
      exact hf.unused (h.unused s)
    · rw [hf.pool t ht]
      exact h.unused t

/-- A change of the surroundings that leaves the open descriptors. -/
theorem updateSys (h : w.Owned) {f : Sys n L → Sys n L}
    (hkeep : ∀ fd, w.sys.isOpen fd = true →
      (f w.sys).isOpen fd = true ∧ (f w.sys).fds fd = w.sys.fds fd)
    (hunused : (f w.sys).unused = w.sys.unused) : (w.updateSys f).Owned where
  ok := h.ok
  owns := by
    intro s role fd hr
    obtain ⟨hmap, hopen⟩ := h.owns s role fd hr
    obtain ⟨hopen', hmap'⟩ := hkeep fd hopen
    exact ⟨hmap'.trans hmap, hopen'⟩
  listening := (hkeep _ h.listening).1
  listener_free := h.listener_free
  idle := h.idle
  unused := fun s => (congrFun hunused s).trans (h.unused s)

theorem share (h : w.Owned) (b : Balancer L) : (w.share b).Owned :=
  h.updateSys (fun _ ho => ⟨ho, rfl⟩) rfl

theorem start (h : w.Start) : w.Owned := by
  have hfds : ∀ s role, (w.sessions s).fdOf role = none := by
    intro s role
    rw [h.sessions]
    cases role <;> rfl
  have hidle : ∀ s : Fin n, Idle (⟨s, .initial s, [], w.sys⟩ : Ctx n L) := by
    intro s
    refine ⟨rfl, rfl, rfl, rfl, rfl, ?_, ?_⟩
    · intro role fd hr
      cases role <;> cases hr
    · intro role role' fd hr
      cases role <;> cases hr
  refine ⟨?_, ?_, h.listening, ?_, ?_, ?_⟩
  · intro s
    rw [h.sessions]
    exact (hidle s).ok
  · intro s role fd hr
    exact absurd ((hfds s role).symm.trans hr) nofun
  · intro s role hr
    exact absurd ((hfds s role).symm.trans hr) nofun
  · intro s _
    exact hfds s .client
  · intro s
    rw [h.unused, h.histories]
    rfl

/-- A session in the pool is not in use. -/
theorem out_of_unused (h : w.Owned) {s : Fin n} (hs : w.sys.unused s = true) :
    (w.histories s).inUse = false := by
  have hunused := h.unused s
  rw [hs] at hunused
  simpa using hunused.symm

variable [LoadArith L]

/-- An event of the listener. -/
theorem acceptEvent (h : w.Owned) {env : EventEnv n} {w' : World n L}
    (hstep : acceptEvent env w = some w') : w'.Owned := by
  rcases acceptEvent_cases hstep with rfl | ⟨fd, hfd, rfl | rfl | ⟨s, y, haccepts, hy, rfl⟩⟩
  · exact h
  · have hne : ∀ fd', w.sys.isOpen fd' = true → fd' ≠ fd := by
      rintro fd' ho rfl
      exact absurd (ho.symm.trans hfd) (by decide)
    refine h.updateSys (f := fun y => (y.opened fd).close fd) (fun fd' ho => ⟨?_, rfl⟩) rfl
    show Function.update (Function.update w.sys.isOpen fd true) fd false fd' = true
    rw [Function.update_of_ne (hne fd' ho), Function.update_of_ne (hne fd' ho)]
    exact ho
  · have hne : ∀ fd', w.sys.isOpen fd' = true → fd' ≠ fd := by
      rintro fd' ho rfl
      exact absurd (ho.symm.trans hfd) (by decide)
    refine h.updateSys (f := fun y => ((y.opened fd).assign fd none).close fd)
      (fun fd' ho => ⟨?_, Function.update_of_ne (hne fd' ho) ..⟩) rfl
    show Function.update (Function.update w.sys.isOpen fd true) fd false fd' = true
    rw [Function.update_of_ne (hne fd' ho), Function.update_of_ne (hne fd' ho)]
    exact ho
  · have hin := h.out_of_unused haccepts.unused
    have hidle := h.idle s hin
    exact h.put (frame_moves (moves_acceptClient (h.ok s) (h.owns s) hidle haccepts.isOpen hy))

/-- **Every event keeps descriptors in order.** -/
theorem processEvent (h : w.Owned) {e : Event} {env : EventEnv n} {w' : World n L}
    (hstep : processEvent e env w = some w') : w'.Owned := by
  rcases processEvent_cases hstep with ⟨-, rfl⟩ | ⟨-, -, haccept⟩ | ⟨s, y, -, -, hserve, rfl⟩
  · exact h
  · exact h.acceptEvent haccept
  · exact h.put (frame_moves (moves_serve (h.ok s) (h.owns s) hserve))

/-- Every step of the main loop does. -/
theorem loop {m m' : MainLoop n L} {i : LoopInput n L} (h : m.world.Owned)
    (hstep : (loopMachine n L).step m i = some m') : m'.world.Owned := by
  rcases loopMachine_cases hstep with ⟨-, -, heq⟩ | ⟨env, e, es, -, -, hevent⟩ | ⟨b, -, heq⟩
  · rw [heq]
    exact h
  · exact h.processEvent hevent
  · rw [heq]
    exact h.share b

end World.Owned

/-! ## Whose descriptor an event is for -/

/-- The session holds the descriptor in this role, and nobody else holds it. -/
def World.HeldOnlyBy (w : World n L) (fd : Fd) (s : Fin n) (role : Role) : Prop :=
  (w.sessions s).fdOf role = some fd ∧
    ∀ t role', (w.sessions t).fdOf role' = some fd → t = s ∧ role' = role

/-- Descriptors held by sessions are open, mapped to their session by `fds`, and
held by nobody else. -/
def World.Consistent (w : World n L) : Prop :=
  ∀ s role fd, (w.sessions s).fdOf role = some fd →
    w.sys.fds fd = some s ∧ w.sys.isOpen fd = true ∧ w.HeldOnlyBy fd s role

/-- The handlers called for an event work on the session that holds the
descriptor: it holds the descriptor when the first one is called; and when the
write handler is called after the read handler, which may have closed the
descriptor, `fds` still has the same session, and no other one holds it. -/
structure ServedByHolder [LoadArith L] (w : World n L) (e : Event) (env : EventEnv n) : Prop where
  first : ∀ s role, w.sys.fds e.fd = some s → (w.sessions s).roleOf e.fd = some role →
    w.HeldOnlyBy e.fd s role
  second : ∀ s role z, w.sys.fds e.fd = some s → (w.sessions s).roleOf e.fd = some role →
    handle (.read role e.fd env.read env.connect) (w.ctx s) = some z →
      z.sys.fds e.fd = some s ∧
        ∀ t role', ((w.put z).sessions t).fdOf role' = some e.fd → t = s

theorem World.Owned.consistent {w : World n L} (h : w.Owned) : w.Consistent := by
  intro s role fd hr
  obtain ⟨hfds, hopen⟩ := h.owns s role fd hr
  refine ⟨hfds, hopen, hr, fun t role' ht => ?_⟩
  obtain rfl : t = s := by
    by_contra hne
    exact h.not_held hne ht hr
  exact ⟨rfl, (h.ok t).distinct role' role fd ht hr⟩

section Served

variable [LoadArith L] {loose : ServerKind → Prop} {slots : ServerKind → ℕ → Prop} {x y : Ctx n L}

/-- A move of a session maps descriptors to no other session. -/
theorem fds_move (h : Move loose slots x y) (fd : Fd) :
    y.sys.fds fd = x.sys.fds fd ∨ y.sys.fds fd = some x.sid := by
  have hassign : ∀ fd', (x.sys.assign fd' (some x.sid)).fds fd = x.sys.fds fd ∨
      (x.sys.assign fd' (some x.sid)).fds fd = some x.sid := by
    intro fd'
    show Function.update x.sys.fds fd' (some x.sid) fd = _ ∨
      Function.update x.sys.fds fd' (some x.sid) fd = _
    by_cases hfd : fd = fd'
    · rw [hfd, Function.update_self]
      exact Or.inr rfl
    · rw [Function.update_of_ne hfd]
      exact Or.inl rfl
  cases h with
  | quiet hq => exact Or.inl (congrFun hq.fds fd)
  | dropClient =>
      left
      unfold disconnectClient
      split <;> rfl
  | dropServer kind =>
      left
      unfold disconnectServer
      split
      · rfl
      · exact congrFun (Sys.fds_modifyServer ..) fd
  | release => exact Or.inl rfl
  | handOut fd' => exact hassign fd'
  | register => exact Or.inl rfl
  | choose => exact Or.inl rfl
  | chose => exact Or.inl rfl
  | leak => exact Or.inl rfl
  | associate kind fd' slot => exact hassign fd'
  | establish kind fd' slot =>
      left
      show ((x.sys.register fd').modifyServer (some slot) fun s => { s with c := s.c + 1 }).fds fd =
        x.sys.fds fd
      rw [Sys.fds_modifyServer]
      rfl

/-- A descriptor mapped to the session stays so. -/
theorem fds_moves (h : Moves loose slots x y) {fd : Fd} (hfd : x.sys.fds fd = some x.sid) :
    y.sys.fds fd = some x.sid := by
  induction h with
  | refl => exact hfd
  | tail hu hmove ih =>
      rcases fds_move hmove fd with heq | heq
      · exact heq.trans ih
      · rw [heq, (frame_moves hu).sid]

/-- The handlers that an event calls work on the session that holds its
descriptor. -/
theorem World.Owned.served {w : World n L} (h : w.Owned) (e : Event) (env : EventEnv n) :
    ServedByHolder w e env := by
  refine ⟨fun s role _ hrole => ?_, fun s role z hfds hrole hread => ?_⟩
  · exact (h.consistent s role e.fd (Session.fdOf_of_roleOf hrole)).2.2
  · have heffect := effect_of_handle (h.ok s).fresh hread
    have hmoves := moves_effect (h.ok s) heffect
    refine ⟨fds_moves hmoves hfds, fun t role' ht => ?_⟩
    by_contra hne
    -- another session is as before, when it did not hold the descriptor
    have hsid : z.sid = s := (frame_moves hmoves).sid
    rw [World.sessions_put_of_ne _ (hsid.symm ▸ hne)] at ht
    exact h.not_held hne ht (Session.fdOf_of_roleOf hrole)

end Served

/-- Descriptors and sessions are in order in every state of a run. -/
theorem owned_of_mem_states [LoadArith L] {w : World n L} (h : w.Start)
    (inputs : List (LoopInput n L)) :
    ∀ m ∈ (loopMachine n L).states ⟨w, []⟩ inputs, m.world.Owned :=
  (loopMachine n L).states_invariant (fun _ _ _ hm hstep => hm.loop hstep)
    (World.Owned.start h) inputs

/-- **Descriptor ownership.**  In every state of every run of the main loop a
descriptor that a session holds is open, mapped to that session, and held by
nobody else; so the handlers called for an event work on the session that holds
its descriptor. -/
theorem descriptors_consistent [LoadArith L] {w : World n L} (h : w.Start)
    (inputs : List (LoopInput n L)) :
    (∀ m ∈ (loopMachine n L).states ⟨w, []⟩ inputs, m.world.Consistent) ∧
      ∀ v ∈ (loopMachine n L).visits ⟨w, []⟩ inputs, ∀ env e es, v.2 = .process env →
        v.1.pending = e :: es → e.fd ≠ v.1.world.listenerfd → ServedByHolder v.1.world e env := by
  have howned := owned_of_mem_states h inputs
  refine ⟨fun m hm => (howned m hm).consistent, fun v hv env e es _ _ _ => ?_⟩
  exact (howned v.1 ((loopMachine n L).mem_states_of_mem_visits hv)).served e env

/-! ## A sample world -/

/-- One session, one member, one clone, and the listener at descriptor 3. -/
def sampleWorld : World 1 ℤ where
  sessions := fun s => .initial s
  histories := fun _ => []
  sys := sampleIdle.sys
  listenerfd := 3

theorem start_sampleWorld : sampleWorld.Start :=
  ⟨fun _ => rfl, fun _ => rfl, fun _ => rfl, rfl, fun _ => rfl⟩

/-- Everything succeeds: a new client gets descriptor 5, its member 6 and its
clone 7; peers take one byte at a time. -/
def sampleEventEnv (r : ReadOutcome) : EventEnv 1 where
  accepted := some 5
  nonblock := true
  nodelay := true
  session := some (.last 0)
  accept := sampleEnv
  read := r
  write := .accept 1
  connect := sampleEnv.connect

/-- A client connects. -/
def clientConnects : List (LoopInput 1 ℤ) :=
  [.poll [⟨3, true, false, false, false⟩], .process (sampleEventEnv .error)]

/-- The client and its member hold descriptors of their own. -/
theorem descriptors_consistent_connected :
    sampleWorld.Start ∧ (∀ m ∈ (loopMachine 1 ℤ).states ⟨sampleWorld, []⟩ clientConnects,
      m.world.Consistent) :=
  ⟨start_sampleWorld, (descriptors_consistent start_sampleWorld clientConnects).1⟩

end OctopusLB
