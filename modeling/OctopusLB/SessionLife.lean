/-
# Every session of the service is a run of the session machine

The session machine drives one session alone.  In the service a session shares its
surroundings with all others and with the other processes, and it is handed out
again and again.  `sessions_live` is the simulation between the two: in every state
of the service a session that has ever been handed out is in a state of a run of
the session machine, up to changes around it (`Lives`).

What is known of the runs of one session is then known of all sessions at once:

* `service_streams`: what a client has been sent, with what is queued for it,
  is what the member of its session has sent;
* `service_wakes`: no session ever waits for an event that it is not registered for.
-/
import OctopusLB.Admission
import OctopusLB.SessionReuse
import OctopusLB.Streams
import OctopusLB.WakeUps

namespace OctopusLB

variable {n : ℕ} {L : Type}

/-! ## What a session goes through -/

/-- Around the session anything may change, but nothing of its own: the record, its
history, and what becomes of the descriptors that it holds. -/
structure Around (x y : Ctx n L) : Prop where
  session : y.session = x.session
  history : y.history = x.history
  own : ∀ role fd, x.session.fdOf role = some fd →
    y.sys.isOpen fd = x.sys.isOpen fd ∧ y.sys.interest fd = x.sys.interest fd

/-- A state that a session can be in: it has been accepted, and since then it has
made steps of the session machine while other things changed around it. -/
inductive Lives [LoadArith L] : Ctx n L → Prop
  | accepted {x : Ctx n L} (h : Accepted x) : Lives x
  | call {x y : Ctx n L} (hx : Lives x) (c : Call) (h : (sessionMachine n L).step x c = some y) :
      Lives y
  | around {x y : Ctx n L} (hx : Lives x) (h : Around x y) : Lives y

/-- The record of a session that lives is in order. -/
theorem Lives.ok [LoadArith L] {x : Ctx n L} (h : Lives x) : x.session.Ok := by
  induction h with
  | accepted h => exact accepted_ok h
  | call hx c h ih => exact ok_handle ih (sessionMachine_step h).2
  | around hx h ih => exact h.session ▸ ih

/-- What a step of the session machine keeps of a session that lives. -/
theorem Lives.effect [LoadArith L] {x y : Ctx n L} (h : Lives x) {c : Call}
    (hstep : (sessionMachine n L).step x c = some y) : Effect x c y :=
  effect_of_handle h.ok.fresh (sessionMachine_step hstep).2

/-- A session that lives has a history. -/
theorem Lives.history_ne_nil [LoadArith L] {x : Ctx n L} (h : Lives x) : x.history ≠ [] := by
  induction h with
  | accepted h =>
      rcases accepted_cases h with hadm | ⟨z, reason, -, -, rfl⟩
      · intro hnil
        have hin := hadm.inUse
        rw [hnil] at hin
        cases hin
      · rw [history_deleteSession]
        exact List.cons_ne_nil _ _
  | call hx c h ih =>
      -- entries are added to it
      obtain ⟨hs, -, heq | ⟨⟨reason, before, heq⟩, -⟩⟩ := history_effect (hx.effect h)
      · rw [heq]
        exact List.append_ne_nil_of_right_ne_nil hs ih
      · rw [heq]
        exact List.cons_ne_nil _ _
  | around hx h ih => exact h.history ▸ ih

/-- Nothing is left of a client in the record. -/
structure Session.Blank (s : Session) : Prop where
  state : s.state = .unused
  clientUsedBuffer : s.clientUsedBuffer = 0
  memberUsedBuffer : s.memberUsedBuffer = 0
  cloneUsedBuffer : s.cloneUsedBuffer = 0

theorem Session.blank_initial (i : ℕ) : (Session.initial i).Blank := ⟨rfl, rfl, rfl, rfl⟩

theorem blank_deleteSession (reason : Reason) (x : Ctx n L) :
    (deleteSession reason x).session.Blank := ⟨rfl, rfl, rfl, rfl⟩

/-- Giving up a server that is not connected. -/
theorem Session.Blank.disconnectServer {x : Ctx n L} (h : x.session.Blank) (kind : ServerKind) :
    (disconnectServer kind x).session.Blank := by
  have hstate : (x.session.clearServer kind).state = x.session.state := by
    cases kind with
    | member =>
        show ({ x.session.state with memConnected := false } : SessionState) = _
        rw [h.state]
        rfl
    | clone =>
        show ({ x.session.state with cloConnected := false } : SessionState) = _
        rw [h.state]
        rfl
  exact ⟨(field_disconnectServer Session.state hstate).trans h.state,
    (field_disconnectServer Session.clientUsedBuffer (by cases kind <;> rfl)).trans
      h.clientUsedBuffer,
    (field_disconnectServer Session.memberUsedBuffer (by cases kind <;> rfl)).trans
      h.memberUsedBuffer,
    (field_disconnectServer Session.cloneUsedBuffer (by cases kind <;> rfl)).trans
      h.cloneUsedBuffer⟩

/-! ## One event of a session -/

section Event

variable {x y z : Ctx n L}

/-- A call for a session in use leaves it in use or blank. -/
theorem inUse_or_blank_effect (hin : x.history.inUse = true) {call : Call} (he : Effect x call y) :
    y.history.inUse = true ∨ y.session.Blank := by
  cases he with
  | clientEof => exact Or.inr (blank_deleteSession _ _)
  | clientGone => exact Or.inr (blank_deleteSession _ _)
  | delivered => exact Or.inr (blank_deleteSession _ _)
  | memberGone => exact Or.inr (blank_deleteSession _ _)
  | fromClient fd r env bytes =>
      left
      rw [history_forwardClientRead]
      exact hin
  | disconnected call kind =>
      left
      rw [history_disconnectServer]
      exact hin
  | _ => exact Or.inl hin

/-- A descriptor that a read was called with is still held, or closed. -/
theorem held_or_closed_of_read (hok : x.session.Ok) {role : Role} {fd : Fd}
    (hfd : x.session.fdOf role = some fd) {r : ReadOutcome} {env : ConnectEnv}
    (he : Effect x (.read role fd r env) y) :
    y.session.fdOf role = some fd ∨ y.sys.isOpen fd = false := by
  cases he with
  | clientEof => exact Or.inr (isOpen_deleteSession hok hfd _)
  | clientGone _ _ hrole =>
      obtain rfl : role = .client := hrole
      exact Or.inr (isOpen_deleteSession hok hfd _)
  | fromClient fd r env bytes =>
      left
      obtain ⟨connected, clonefd, buffer, used, hcopy⟩ :=
        session_copyToClone bytes.length (receiveFromClient bytes x)
      rw [session_forwardClientRead, hcopy]
      exact hfd
  | memberGone =>
      by_cases hm : x.session.connected .member = true
      · exact Or.inr (isOpen_deleteSession_member hm hfd _)
      · left
        have hkept := serverfd_disconnectAll hok .member
        rw [if_neg hm] at hkept
        exact hkept.trans hfd
  | fromMember => exact Or.inl hfd
  | fromClone => exact Or.inl hfd
  | disconnected _ kind hrole =>
      obtain rfl : role = kind.role := hrole
      right
      rw [← Session.serverfd_eq_fdOf] at hfd
      unfold disconnectServer
      rw [hfd]
      exact Function.update_self ..

/-- A read that ends the session of a connected peer closes its descriptor. -/
theorem not_held_of_blank (hok : x.session.Ok) {role : Role}
    (hconnected : ∀ kind, role = kind.role → x.session.connected kind = true) {fd : Fd}
    {r : ReadOutcome} {env : ConnectEnv} (he : Effect x (.read role fd r env) y)
    (hin : x.history.inUse = true) (hout : y.history.inUse = false) :
    y.session.fdOf role ≠ some fd := by
  intro hfd
  cases he with
  | clientEof => exact absurd ((clientfd_disconnectAll hok).symm.trans hfd) nofun
  | clientGone _ _ hrole =>
      obtain rfl : role = .client := hrole
      exact absurd ((clientfd_disconnectAll hok).symm.trans hfd) nofun
  | fromClient fd r env bytes =>
      rw [history_forwardClientRead] at hout
      exact absurd (hin.symm.trans hout) nofun
  | memberGone =>
      have hnone := serverfd_disconnectAll hok .member
      rw [if_pos (hconnected .member rfl)] at hnone
      exact absurd (hnone.symm.trans hfd) nofun
  | fromMember => exact absurd (hin.symm.trans hout) nofun
  | fromClone => exact absurd (hin.symm.trans hout) nofun
  | disconnected =>
      rw [history_disconnectServer] at hout
      exact absurd (hin.symm.trans hout) nofun

/-- A write handler that is called for a blank session with a closed descriptor. -/
theorem blank_write_closed (h : x.session.Blank) {role : Role} {fd : Fd} {w : WriteOutcome}
    (hfd : x.sys.isOpen fd = false) [LoadArith L] (hy : handle (.write role fd w) x = some y) :
    y.session.Blank := by
  have hw : ∀ size, x.sys.write fd size w = none := fun size => Sys.write_of_closed size w hfd
  cases role with
  | client =>
      obtain rfl := Option.some.inj hy
      unfold clientWrite
      rw [hw]
      exact blank_deleteSession _ _
  | member =>
      obtain rfl := Option.some.inj hy
      unfold memberWrite
      rw [hw]
      exact h.disconnectServer .member
  | clone =>
      obtain rfl := Option.some.inj hy
      unfold cloneWrite
      rw [hw]
      exact h.disconnectServer .clone

variable [LoadArith L]

/-- **An event of a session in use** is one or two steps of the session machine, and
leaves it in use or blank. -/
theorem lives_serve (hok : x.session.Ok) (hx : Lives x) (hin : x.history.inUse = true) {e : Event}
    {env : EventEnv n} (hheld : ∀ kind, x.session.fdOf kind.role = some e.fd →
      x.session.connected kind = true) (h : serve e env x = some y) :
    Lives y ∧ (y.history.inUse = true ∨ y.session.Blank) := by
  unfold serve at h
  cases hrole : x.session.roleOf e.fd with
  | none =>
      rw [hrole] at h
      exact Option.some.inj h ▸ ⟨hx, Or.inl hin⟩
  | some role =>
      rw [hrole] at h
      have hfd := Session.fdOf_of_roleOf hrole
      have hconnected : ∀ kind, role = kind.role → x.session.connected kind = true := by
        rintro kind rfl
        exact hheld kind hfd
      rcases serveRole_cases h with ⟨err, hhangup⟩ | ⟨-, -, z, hread, hwrite⟩
      · have he := effect_of_handle hok.fresh hhangup
        exact ⟨hx.call (.hangup role e.fd err) ((if_pos hfd).trans hhangup),
          inUse_or_blank_effect hin he⟩
      -- after the read the session lives, and the write is possible
      have hz : z.session.Ok ∧ Lives z ∧ (z.history.inUse = true ∨ z.session.Blank) ∧
          (z.session.fdOf role = some e.fd ∨ z.sys.isOpen e.fd = false) ∧
          (z.history.inUse = false → z.sys.isOpen e.fd = false) := by
        rcases hread with ⟨rfl, -⟩ | ⟨-, hread⟩
        · exact ⟨hok, hx, Or.inl hin, Or.inl hfd, fun hout => absurd (hin.symm.trans hout) nofun⟩
        · have he := effect_of_handle hok.fresh hread
          have hor := held_or_closed_of_read hok hfd he
          exact ⟨ok_handle hok hread,
            hx.call (.read role e.fd env.read env.connect) ((if_pos hfd).trans hread),
            inUse_or_blank_effect hin he, hor,
            fun hout => hor.resolve_left (not_held_of_blank hok hconnected he hin hout)⟩
      obtain ⟨hokz, hlives, hblank, hpossible, hclosed⟩ := hz
      rcases hwrite with ⟨rfl, -⟩ | ⟨-, hwrite⟩
      · exact ⟨hlives, hblank⟩
      refine ⟨hlives.call (.write role e.fd env.write) ((if_pos hpossible).trans hwrite), ?_⟩
      by_cases hinz : z.history.inUse = true
      · exact inUse_or_blank_effect hinz (effect_of_handle hokz.fresh hwrite)
      · exact Or.inr (blank_write_closed (hblank.resolve_left hinz)
          (hclosed (Bool.eq_false_of_not_eq_true hinz)) hwrite)

end Event

/-! ## All sessions -/

/-- Every session is as it was made, or lives; and it is blank unless in use. -/
structure World.Alive [LoadArith L] (w : World n L) : Prop where
  lives : ∀ s, w.histories s ≠ [] → Lives (w.ctx s)
  untouched : ∀ s, w.histories s = [] → w.sessions s = .initial s
  blank : ∀ s, (w.histories s).inUse = false → (w.sessions s).Blank

namespace World.Alive

variable [LoadArith L] {w w' : World n L}

theorem start (h : w.Start) : w.Alive where
  lives := fun s hs => absurd (h.histories s) hs
  untouched := fun s _ => h.sessions s
  blank := by
    intro s _
    rw [h.sessions]
    exact Session.blank_initial s

/-- A session that is not in use is ready to be handed out. -/
theorem idle (h : w.Alive) (how : w.Owned) {s : Fin n} (hs : (w.histories s).inUse = false) :
    Idle (w.ctx s) where
  state := (h.blank s hs).state
  clientfd := how.idle s hs
  clientUsedBuffer := (h.blank s hs).clientUsedBuffer
  memberUsedBuffer := (h.blank s hs).memberUsedBuffer
  cloneUsedBuffer := (h.blank s hs).cloneUsedBuffer
  opens := fun role fd hr => (how.owns s role fd hr).2
  distinct := (how.ok s).distinct

/-- The sessions stay as they are. -/
theorem around (h : w.Alive) (hs : w'.sessions = w.sessions) (hh : w'.histories = w.histories)
    (hown : ∀ s role fd, (w.sessions s).fdOf role = some fd →
      w'.sys.isOpen fd = w.sys.isOpen fd ∧ w'.sys.interest fd = w.sys.interest fd) : w'.Alive where
  lives := by
    intro s hne
    rw [hh] at hne
    exact (h.lives s hne).around ⟨congrFun hs s, congrFun hh s, hown s⟩
  untouched := by
    intro s hnil
    rw [hh] at hnil
    rw [hs]
    exact h.untouched s hnil
  blank := by
    intro s hin
    rw [hh] at hin
    rw [hs]
    exact h.blank s hin

/-- One session moves, within its frame. -/
theorem put (h : w.Alive) (how : w.Owned) {s : Fin n} {y : Ctx n L} (hframe : Frame (w.ctx s) y)
    (hy : Lives y) (hblank : y.history.inUse = false → y.session.Blank) : (w.put y).Alive := by
  have hsid : y.sid = s := hframe.sid
  refine ⟨fun t hne => ?_, fun t hnil => ?_, ?_⟩
  · by_cases hts : t = y.sid
    · subst hts
      rw [World.ctx_put_self]
      exact hy
    · rw [World.histories_put_of_ne _ hts] at hne
      refine (h.lives t hne).around ⟨World.sessions_put_of_ne _ hts,
        World.histories_put_of_ne _ hts, fun role fd hr => ?_⟩
      -- what another session holds is open, and not held by this one
      obtain ⟨-, hopen⟩ := how.owns t role fd hr
      obtain ⟨ho, -, hi⟩ := hframe.others fd hopen fun role' =>
        how.not_held (hsid ▸ hts) hr
      exact ⟨ho.trans hopen.symm, hi⟩
  · by_cases hts : t = y.sid
    · subst hts
      rw [World.histories_put_self] at hnil
      exact absurd hnil hy.history_ne_nil
    · rw [World.histories_put_of_ne _ hts] at hnil
      rw [World.sessions_put_of_ne _ hts]
      exact h.untouched t hnil
  · exact World.forall_put (P := fun s h => h.inUse = false → s.Blank) h.blank hblank

/-- **Every event** that hits no leftover keeps the sessions alive. -/
theorem event (h : w.Alive) (how : w.Owned) {e : Event} {env : EventEnv n}
    (hleft : ∀ s, w.sys.fds e.fd = some s → ¬ w.Leftover s e.fd)
    (hstep : processEvent e env w = some w') : w'.Alive := by
  rcases processEvent_cases hstep with ⟨-, rfl⟩ | ⟨-, -, haccept⟩ | ⟨s, y, -, hs, hserve, rfl⟩
  · exact h
  · rcases acceptEvent_cases haccept with rfl | ⟨fd, hfd, hor⟩
    · exact h
    -- no session holds the descriptor that has just been opened
    have hne : ∀ s role fd', (w.sessions s).fdOf role = some fd' → fd' ≠ fd := by
      rintro s role fd' hr rfl
      exact Bool.false_ne_true (hfd.symm.trans (how.owns s role fd' hr).2)
    have hsame : ∀ s role fd', (w.sessions s).fdOf role = some fd' →
        Function.update (Function.update w.sys.isOpen fd true) fd false fd' = w.sys.isOpen fd' ∧
          Function.update w.sys.interest fd none fd' = w.sys.interest fd' := by
      intro s role fd' hr
      have hf := hne s role fd' hr
      rw [Function.update_of_ne hf, Function.update_of_ne hf, Function.update_of_ne hf]
      exact ⟨rfl, rfl⟩
    rcases hor with rfl | rfl | ⟨s, y, haccepts, hy, rfl⟩
    · exact h.around rfl rfl hsame
    · exact h.around rfl rfl hsame
    · have hin := how.out_of_unused haccepts.unused
      have hmoves :=
        moves_acceptClient (x := w.ctx s) (how.ok s) (how.owns s) (how.idle s hin) hfd hy
      have haccepted : Accepted y := ⟨w.ctx s, fd, env.accept, h.idle how hin, hfd, hy⟩
      refine h.put how (frame_moves hmoves) (.accepted haccepted) fun hout => ?_
      -- accepted, or deleted again
      rcases accepted_cases haccepted with hadm | ⟨z, reason, -, -, rfl⟩
      · exact absurd (hout.symm.trans hadm.inUse) Bool.false_ne_true
      · exact blank_deleteSession _ _
  · -- a descriptor that a session holds in a server role is that of a connected server
    have hheld : ∀ kind, (w.sessions s).fdOf kind.role = some e.fd →
        (w.sessions s).connected kind = true := by
      intro kind hfd
      by_contra hc
      refine hleft s hs ⟨kind, ?_, Bool.eq_false_of_not_eq_true hc⟩
      rw [Session.serverfd_eq_fdOf]
      exact hfd
    by_cases hin : (w.histories s).inUse = true
    · have hne : w.histories s ≠ [] := by
        intro hnil
        rw [hnil] at hin
        cases hin
      obtain ⟨hlives, hor⟩ := lives_serve (x := w.ctx s) (how.ok s) (h.lives s hne) hin hheld hserve
      exact h.put how (frame_moves (moves_serve (how.ok s) (how.owns s) hserve)) hlives fun hout =>
        hor.resolve_left fun hy => Bool.false_ne_true (hout.symm.trans hy)
    · -- a session that is not in use holds no descriptor that is reported
      have hout := Bool.eq_false_of_not_eq_true hin
      have hnone : (w.ctx s).session.roleOf e.fd = none := by
        by_contra hrole
        obtain ⟨role, hrole⟩ := Option.ne_none_iff_exists'.mp hrole
        have hfd := Session.fdOf_of_roleOf hrole
        have hserver : ∀ kind : ServerKind, role ≠ kind.role := by
          rintro kind rfl
          have hc := hheld kind hfd
          have hstate := (h.blank s hout).state
          cases kind <;> simp [Session.connected, hstate, SessionState.unused] at hc
        cases role with
        | client => exact Option.some_ne_none _ (hfd.symm.trans (how.idle s hout))
        | member => exact hserver .member rfl
        | clone => exact hserver .clone rfl
      unfold serve at hserve
      rw [hnone] at hserve
      rw [← Option.some.inj hserve, World.put_ctx]
      exact h

end World.Alive

section Run

variable [LoadArith L] {x : Service n L} {inputs : List (ServiceInput n L)}

/-- Every step of the service keeps the sessions alive. -/
theorem Service.Sound.alive_step (h : x.Sound) (hx : x.world.Alive) {i : ServiceInput n L}
    (hleft : ¬ i.HitsLeftover x) {y : Service n L}
    (hstep : (serviceMachine n L).step x i = some y) : y.world.Alive := by
  rcases serviceMachine_cases hstep with ⟨e, env, w, rfl, hw, rfl⟩ | ⟨j, hj, c, rfl, hc, rfl⟩
  · exact hx.event h.owned (fun s hs hl => hleft ⟨s, hs, hl⟩) hw
  · exact hx.around rfl rfl fun _ _ _ _ => ⟨rfl, rfl⟩

theorem alive_states (hx : x.Start)
    (hdelivered : ∀ v ∈ (serviceMachine n L).visits x inputs, v.2.Delivered v.1)
    (hroom : ∀ v ∈ (serviceMachine n L).visits x inputs, ¬ v.2.Overfills v.1) :
    ∀ y ∈ (serviceMachine n L).states x inputs, y.world.Alive := by
  exact (serviceMachine n L).states_invariant_of_visits
    (fun u i v hu (hi : u.Sound ∧ i.Safe u) hstep => hi.1.alive_step hu hi.2.2 hstep)
    (.start hx.world) (sound_safe hx hdelivered hroom)

/-- **Simulation.**  In every state of every run of the service in which events are
delivered for registered descriptors only and no server is created in a full table,
a session that has been handed out is in a state of the session machine. -/
theorem sessions_live (hx : x.Start)
    (hdelivered : ∀ v ∈ (serviceMachine n L).visits x inputs, v.2.Delivered v.1)
    (hroom : ∀ v ∈ (serviceMachine n L).visits x inputs, ¬ v.2.Overfills v.1) :
    ∀ y ∈ (serviceMachine n L).states x inputs, y.world.Alive :=
  alive_states hx hdelivered hroom

end Run

/-! ## Streams -/

/-- What has been sent, with what is queued, is what has been received. -/
structure InOrder (d : Direction) (x : Ctx n L) : Prop where
  used_le : d.used x.session ≤ messageSizeLimit
  balanced : x.history.sinceAllocated.Unreleased →
    x.history.Balanced Obs.isAllocated d.source d.sink (d.queue x.session)

section Streams

variable {d : Direction} {x y : Ctx n L}

theorem Stream.inOrder (h : Stream d x) : InOrder d x := ⟨h.used_le, h.balanced⟩

/-- Before its release a session has no release behind it. -/
theorem InOrder.stream (h : InOrder d x) (hun : x.history.sinceAllocated.Unreleased) :
    Stream d x where
  used_le := h.used_le
  balanced := h.balanced
  delivered := fun reason s earlier hsuf =>
    absurd (hun _ (hsuf.subset List.mem_cons_self)) (by simp [Obs.isReleased])

/-- Traffic is no allocation. -/
theorem History.sinceAllocated_append {h h' : History} (htraffic : ∀ o ∈ h', o.isTraffic = true) :
    sinceAllocated (h' ++ h) = h' ++ sinceAllocated h := by
  induction h' with
  | nil => rfl
  | cons o os ih =>
      obtain ⟨ho, hos⟩ := List.forall_mem_cons.mp htraffic
      have hnot : o.isAllocated = false := by cases o <;> first | rfl | cases ho
      rw [List.cons_append, sinceAllocated_cons, hnot, if_neg (by simp), ih hos, List.cons_append]

/-- An end of file of the client releases the session. -/
theorem eof_or_released {call : Call} (he : Effect x call y) :
    (∀ fd r env, call = .read .client fd r env →
      x.sys.read fd (messageSizeLimit - x.session.clientUsedBuffer) r ≠ some []) ∨
      ∃ reason before earlier, y.history = .released reason before :: earlier := by
  cases he with
  | clientEof => exact Or.inr ⟨_, _, _, history_deleteSession x _⟩
  | clientGone => exact Or.inr ⟨_, _, _, history_deleteSession x _⟩
  | memberGone => exact Or.inr ⟨_, _, _, history_deleteSession x _⟩
  | fromClient fd r env bytes hr hne =>
      left
      rintro fd' r' env' ⟨⟩ hnil
      exact hne (Option.some.inj (hr.symm.trans hnil))
  | disconnected call kind hrole =>
      left
      rintro fd r env rfl
      cases kind <;> cases hrole
  | _ =>
      left
      rintro fd' r' env' ⟨⟩

/-- Every call keeps a direction in order; what is discarded with the session is no
longer looked at. -/
theorem InOrder.effect (h : InOrder d x) (hok : x.session.Ok) {call : Call} (he : Effect x call y) :
    InOrder d y := by
  refine ⟨d.used_le (ok_effect hok he), fun hun => ?_⟩
  rcases eof_or_released he with heof | ⟨reason, before, earlier, heq⟩
  · have hunx : x.history.sinceAllocated.Unreleased := by
      obtain ⟨hs, htraffic, heq | ⟨⟨reason, before, heq⟩, -⟩⟩ := history_effect he
      · rw [heq, History.sinceAllocated_append htraffic] at hun
        exact fun o ho => hun o (List.mem_append_right _ ho)
      · rw [heq, History.sinceAllocated_cons, if_neg (by simp [Obs.isAllocated]),
          History.unreleased_cons] at hun
        exact absurd hun.1 (by simp [Obs.isReleased])
    exact ((h.stream hunx).effect hok he fun fd r env hcall hr _ =>
      absurd hr (heof fd r env hcall)).balanced hun
  · rw [heq, History.sinceAllocated_cons, if_neg (by simp [Obs.isAllocated]),
      History.unreleased_cons] at hun
    exact absurd hun.1 (by simp [Obs.isReleased])

/-- What changes around a session is not looked at. -/
theorem InOrder.around (h : InOrder d x) (ha : Around x y) : InOrder d y := by
  obtain ⟨hs, hh, -⟩ := ha
  refine ⟨?_, ?_⟩
  · rw [hs]
    exact h.used_le
  · rw [hs, hh]
    exact h.balanced

/-- The direction to the client, in a session that lives. -/
theorem Lives.toClient [LoadArith L] (h : Lives x) : Stream .toClient x := by
  induction h with
  | accepted h => exact .accepted h
  | call hx c h ih =>
      exact ih.effect hx.ok (hx.effect h) fun _ _ _ _ _ horderly => by cases horderly
  | around hx h ih =>
      exact ih.of_eq (h.session ▸ ih.used_le) (congrArg _ h.session) h.history

/-- The direction to the member, in a session that lives and has not been released. -/
theorem Lives.toMember [LoadArith L] (h : Lives x) : InOrder .toMember x := by
  induction h with
  | accepted h => exact (Stream.accepted h).inOrder
  | call hx c h ih => exact ih.effect hx.ok (hx.effect h)
  | around hx h ih => exact ih.around h

/-- Nothing has gone through a session that has never been handed out. -/
theorem stream_initial {w : World n L} {s : Fin n} (hs : w.sessions s = .initial s)
    (hh : w.histories s = []) : Stream d (w.ctx s) where
  used_le := by
    show d.used (w.sessions s) ≤ _
    rw [hs]
    cases d <;> exact Nat.zero_le _
  balanced := by
    intro _
    show History.Balanced _ _ _ (d.queue (w.sessions s)) (w.histories s)
    have hzero : d.used (w.sessions s) = 0 := by rw [hs]; cases d <;> rfl
    rw [hh, d.queue_of_used_eq_zero hzero]
    rfl
  delivered := by
    intro reason before earlier hsuf
    change _ <:+ (w.histories s).sinceAllocated at hsuf
    rw [hh] at hsuf
    exact absurd (List.suffix_nil.mp hsuf) (List.cons_ne_nil _ _)

end Streams

section Traffic

variable [LoadArith L] {x : Service n L} {inputs : List (ServiceInput n L)}

/-- **Streams of the service.**  In every state of every such run, in each session: what
the client has been sent, followed by what is queued for it, is what the member of
this session has sent since the session was handed out, and a session that is
released for a reason other than its client's has delivered all of it; until the
release, the same holds of what the client has sent to the member. -/
theorem service_streams (hx : x.Start)
    (hdelivered : ∀ v ∈ (serviceMachine n L).visits x inputs, v.2.Delivered v.1)
    (hroom : ∀ v ∈ (serviceMachine n L).visits x inputs, ¬ v.2.Overfills v.1) :
    ∀ y ∈ (serviceMachine n L).states x inputs, ∀ s,
      Stream .toClient (y.world.ctx s) ∧ InOrder .toMember (y.world.ctx s) := by
  intro y hy s
  have halive := alive_states hx hdelivered hroom y hy
  by_cases hs : y.world.histories s = []
  · have hinitial := halive.untouched s hs
    exact ⟨stream_initial hinitial hs, (stream_initial hinitial hs).inOrder⟩
  · exact ⟨(halive.lives s hs).toClient, (halive.lives s hs).toMember⟩

/-- The wake-ups of a session that lives. -/
theorem Lives.wakeInv {x : Ctx n L} (h : Lives x) : WakeInv x := by
  induction h with
  | accepted h => exact wakeInv_accepted h
  | @call x y hx c h ih =>
      have he := hx.effect h
      have hconn := connected_of_effect he
      exact ⟨ok_effect ih.ok he,
        fun hc hm => flags_effect (ih.flags (hconn.1 hc) (hconn.2 hm)) he hc hm,
        fun hc hm => wakes_effect ih.ok (ih.flags (hconn.1 hc) (hconn.2 hm))
          (ih.wakes (hconn.1 hc) (hconn.2 hm)) he hc hm⟩
  | @around x y hx h ih =>
      -- its descriptors stay registered for the same events
      have hwatched : ∀ role, y.watched role = x.watched role := fun role =>
        watched_congr (congrArg (·.fdOf role) h.session) fun fd hfd => (h.own role fd hfd).2
      obtain ⟨hok, hflags, hwakes⟩ := ih
      rw [← h.session] at hok hflags hwakes
      refine ⟨hok, hflags, fun hc hm => ?_⟩
      obtain ⟨hclient, hmember, hclone⟩ := hwakes hc hm
      rw [← h.session, ← hwatched] at hclient hmember hclone
      exact ⟨hclient, hmember, hclone⟩

/-- **No session is left asleep.**  In every state of every such run, in every session with
a client and a member: bytes for a peer mean that its descriptor is registered for
`EPOLLOUT`, room for bytes from a peer that it is registered for `EPOLLIN`. -/
theorem service_wakes (hx : x.Start)
    (hdelivered : ∀ v ∈ (serviceMachine n L).visits x inputs, v.2.Delivered v.1)
    (hroom : ∀ v ∈ (serviceMachine n L).visits x inputs, ¬ v.2.Overfills v.1) :
    ∀ y ∈ (serviceMachine n L).states x inputs, ∀ s,
      (y.world.sessions s).state.cliConnected = true →
        (y.world.sessions s).state.memConnected = true → Wakes (y.world.ctx s) := by
  intro y hy s hc
  have halive := alive_states hx hdelivered hroom y hy
  have hne : y.world.histories s ≠ [] := by
    intro hs
    rw [halive.untouched s hs] at hc
    cases hc
  exact (halive.lives s hne).wakeInv.wakes hc

end Traffic

/-- A client comes, its request goes to the member and the answer comes back, a slot
of the tables is looked through, the client goes, and the session is handed out again. -/
def requestAnswered : List (ServiceInput 1 ℤ) :=
  memberSections 1 sampleRequest ++ [clientComes,
    .event ⟨5, true, false, false, false⟩ (sampleEventEnv (.data [65])),
    .event ⟨6, true, true, false, false⟩ (sampleEventEnv (.data [66])), slotsReleased,
    .event ⟨5, false, true, false, false⟩ (sampleEventEnv .error), clientGoes, clientComes]

/-- It hits no full table and no closed descriptor. -/
theorem requestAnswered_safe :
    ∀ v ∈ (serviceMachine 1 ℤ).visits sampleService requestAnswered,
      v.2.Delivered v.1 ∧ ¬ v.2.Overfills v.1 := by
  have hgood : ((serviceMachine 1 ℤ).visits sampleService requestAnswered).all
      deliveredWithRoom = true := by
    decide +kernel
  exact fun v hv => of_decide_eq_true (List.all_eq_true.mp hgood v hv)

theorem requestAnswered_runs :
    ((serviceMachine 1 ℤ).run sampleService requestAnswered).isSome = true := by
  decide +kernel

theorem sessions_live_of_requestAnswered :
    ((serviceMachine 1 ℤ).run sampleService requestAnswered).isSome = true ∧
      ∀ y ∈ (serviceMachine 1 ℤ).states sampleService requestAnswered, y.world.Alive :=
  ⟨requestAnswered_runs, sessions_live start_sampleService
    (fun v hv => (requestAnswered_safe v hv).1) fun v hv => (requestAnswered_safe v hv).2⟩

theorem streams_of_requestAnswered :
    ((serviceMachine 1 ℤ).run sampleService requestAnswered).isSome = true ∧
      ∀ y ∈ (serviceMachine 1 ℤ).states sampleService requestAnswered, ∀ s,
        Stream .toClient (y.world.ctx s) ∧ InOrder .toMember (y.world.ctx s) :=
  ⟨requestAnswered_runs, service_streams start_sampleService
    (fun v hv => (requestAnswered_safe v hv).1) fun v hv => (requestAnswered_safe v hv).2⟩

theorem wakes_of_requestAnswered :
    ((serviceMachine 1 ℤ).run sampleService requestAnswered).isSome = true ∧
      ∀ y ∈ (serviceMachine 1 ℤ).states sampleService requestAnswered, ∀ s,
        (y.world.sessions s).state.cliConnected = true →
          (y.world.sessions s).state.memConnected = true → Wakes (y.world.ctx s) :=
  ⟨requestAnswered_runs, service_wakes start_sampleService
    (fun v hv => (requestAnswered_safe v hv).1) fun v hv => (requestAnswered_safe v hv).2⟩

end OctopusLB
