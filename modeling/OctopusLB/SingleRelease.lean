/-
# Each session is released at most once

`delete_session` puts a session back into the pool, so it must not run twice for
one client.  The handlers do not check; `releasedOnce_always_iff` says exactly
when it happens.  Either a client's read handler ends the session and the write
handler is called for the same event all the same, or an event reaches the
descriptor that a failed connect has left in a session that is no longer in use.
-/
import Mathlib.Data.List.Infix
import OctopusLB.Ownership

namespace OctopusLB

variable {n : ℕ} {L : Type}

/-- The session is in use whenever it is released. -/
def History.ReleasedOnce (h : History) : Prop :=
  ∀ reason before earlier, .released reason before :: earlier <:+ h →
    History.inUse earlier = true

theorem History.releasedOnce_cons {o : Obs} {h : History} :
    History.ReleasedOnce (o :: h)
      ↔ (o.isReleased = true → History.inUse h = true) ∧ History.ReleasedOnce h := by
  constructor
  · intro hall
    refine ⟨fun ho => ?_, fun reason before earlier hsuf =>
      hall reason before earlier (hsuf.trans (List.suffix_cons o h))⟩
    cases o with
    | released reason before => exact hall reason before h (List.suffix_refl _)
    | _ => cases ho
  · rintro ⟨ho, hh⟩ reason before earlier hsuf
    rcases List.suffix_cons_iff.mp hsuf with heq | hsuf
    · obtain ⟨rfl, rfl⟩ := List.cons.inj heq
      exact ho rfl
    · exact hh reason before earlier hsuf

theorem History.releasedOnce_append {h h' : History} (hnone : ∀ o ∈ h', o.handsOut = none) :
    History.ReleasedOnce (h' ++ h) ↔ History.ReleasedOnce h := by
  induction h' with
  | nil => exact Iff.rfl
  | cons o os ih =>
      obtain ⟨ho, hos⟩ := List.forall_mem_cons.mp hnone
      rw [List.cons_append, releasedOnce_cons, ih hos, Obs.isReleased_of_handsOut ho]
      exact and_iff_right (fun hfalse => by cases hfalse)

theorem History.not_releasedOnce {h : History} (hreleased : h.head?.any Obs.isReleased = true)
    (hunused : History.inUse h.tail = false) : ¬ h.ReleasedOnce := by
  intro hall
  cases h with
  | nil => cases hreleased
  | cons o earlier =>
      have hin := (releasedOnce_cons.mp hall).1 hreleased
      exact Bool.false_ne_true (hunused.symm.trans hin)

/-! ## What calls release -/

/-- A call for a session in use. -/
theorem releasedOnce_of_inUse {x y : Ctx n L} {call : Call} (he : Effect x call y)
    (hin : x.history.inUse = true) (h : x.history.ReleasedOnce) : y.history.ReleasedOnce := by
  obtain ⟨hs, htraffic, heq | ⟨⟨reason, before, heq⟩, -⟩⟩ := history_effect he <;>
    have hnone : ∀ o ∈ hs, o.handsOut = none := fun o ho => Obs.handsOut_of_isTraffic (htraffic o ho)
  · rw [heq, History.releasedOnce_append hnone]
    exact h
  · rw [heq, History.releasedOnce_cons, History.releasedOnce_append hnone,
      History.inUse_append hnone]
    exact ⟨fun _ => hin, h⟩

/-- A call that is not for the client and no member's failing read releases
nothing. -/
theorem history_of_not_releasing {x y : Ctx n L} {call : Call} (he : Effect x call y)
    (hrole : call.role ≠ .client)
    (hread : ∀ fd r env, call = .read .member fd r env → x.session.state.cliWriteReady = false →
      ∃ bytes, bytes ≠ [] ∧
        x.sys.read fd (messageSizeLimit - x.session.memberUsedBuffer) r = some bytes) :
    ∃ h, (∀ o ∈ h, o.handsOut = none) ∧ y.history = h ++ x.history := by
  obtain ⟨hs, htraffic, heq | ⟨-, hclient | ⟨fd, r, env, hcall, hq, hr⟩⟩⟩ := history_effect he
  · exact ⟨hs, fun o ho => Obs.handsOut_of_isTraffic (htraffic o ho), heq⟩
  · exact absurd hclient hrole
  · obtain ⟨bytes, hne, hbytes⟩ := hread fd r env hcall hq
    exact absurd (hr bytes hbytes) hne

/-- Neither does any call that is not for the client and no member's read. -/
theorem history_of_not_reading {x y : Ctx n L} {call : Call} (he : Effect x call y)
    (hrole : call.role ≠ .client) (hcall : ∀ fd r env, call ≠ .read .member fd r env) :
    ∃ h, (∀ o ∈ h, o.handsOut = none) ∧ y.history = h ++ x.history :=
  history_of_not_releasing he hrole fun fd r env heq => absurd heq (hcall fd r env)

/-- What releases nothing keeps the property. -/
theorem releasedOnce_of_history {x y : Ctx n L} (h : x.history.ReleasedOnce)
    (hy : ∃ hs, (∀ o ∈ hs, o.handsOut = none) ∧ y.history = hs ++ x.history) :
    y.history.ReleasedOnce := by
  obtain ⟨hs, hnone, heq⟩ := hy
  rw [heq, History.releasedOnce_append hnone]
  exact h

/-! ## The condition -/

/-- A read that brings no bytes: an error or an end of file. -/
def Sys.ReadsNothing (y : Sys n L) (fd : Fd) (room : ℕ) (r : ReadOutcome) : Prop :=
  ∀ bytes, y.read fd room r = some bytes → bytes = []

/-- Processing the event in session `x` calls `delete_session` once too often:
the event has neither an error nor a hang-up, its read brings nothing, and

* the descriptor is the client's and `EPOLLOUT` is reported as well, or
* it is a member's that a failed connect has left in a session not in use, which
  has nothing to send to a client. -/
structure ReleasesTwice (e : Event) (env : EventEnv n) (x : Ctx n L) : Prop where
  err : e.err = false
  hup : e.hup = false
  input : e.input = true
  role : (x.session.roleOf e.fd = some .client ∧ e.output = true ∧
      x.sys.ReadsNothing e.fd (messageSizeLimit - x.session.clientUsedBuffer) env.read) ∨
    (x.session.roleOf e.fd = some .member ∧ x.history.inUse = false ∧
      x.session.state.cliWriteReady = false ∧
      x.sys.ReadsNothing e.fd (messageSizeLimit - x.session.memberUsedBuffer) env.read)

section TearDown

variable {x : Ctx n L}

/-- Giving up a server opens nothing. -/
theorem isOpen_disconnectServer {kind : ServerKind} {fd : Fd} (h : x.sys.isOpen fd = false) :
    (disconnectServer kind x).sys.isOpen fd = false := by
  unfold disconnectServer
  cases x.session.serverfd kind with
  | none => exact h
  | some fd' =>
      show Function.update (x.sys.modifyServer (x.session.server kind) _).isOpen fd' false fd = false
      by_cases hfd : fd = fd'
      · rw [hfd, Function.update_self]
      · rw [Function.update_of_ne hfd, Sys.isOpen_modifyServer]
        exact h

/-- `delete_session` closes the client's descriptor. -/
theorem isOpen_deleteSession (hok : x.session.Ok) {fd : Fd} (hfd : x.session.clientfd = some fd)
    (reason : Reason) : (deleteSession reason x).sys.isOpen fd = false := by
  have hc : x.session.state.cliConnected = true := hok.client_fd.mpr (by rw [hfd]; simp)
  have hclosed : (disconnectClient x).sys.isOpen fd = false := by
    unfold disconnectClient
    rw [hfd]
    exact Function.update_self ..
  rw [deleteSession_eq]
  show (disconnectAll x).sys.isOpen fd = false
  unfold disconnectAll disconnectMember disconnectClone
  dsimp only
  rw [if_pos hc]
  split_ifs <;> first
    | exact isOpen_disconnectServer (isOpen_disconnectServer hclosed)
    | exact isOpen_disconnectServer hclosed
    | exact hclosed

/-- A failed read from the member deletes a session with nothing to send. -/
theorem memberRead_of_nothing {fd : Fd} {r : ReadOutcome}
    (h : x.sys.ReadsNothing fd (messageSizeLimit - x.session.memberUsedBuffer) r)
    (hq : x.session.state.cliWriteReady = false) :
    memberRead fd r x = deleteSession .memberGone x := by
  unfold memberRead
  rcases hr : x.sys.read fd (messageSizeLimit - x.session.memberUsedBuffer) r with
    _ | _ | ⟨b, bs⟩
  · exact if_pos hq
  · exact if_pos hq
  · exact absurd (h (b :: bs) hr) (by simp)

end TearDown

section Serve

variable [LoadArith L] {e : Event} {env : EventEnv n} {x y : Ctx n L}

/-- A read from the client that brings nothing deletes the session. -/
theorem clientRead_of_nothing (hfresh : x.session.state.fresh = false) {fd : Fd} {r : ReadOutcome}
    (h : x.sys.ReadsNothing fd (messageSizeLimit - x.session.clientUsedBuffer) r)
    (c : ConnectEnv) : ∃ reason, clientRead fd r c x = some (deleteSession reason x) := by
  rw [clientRead_of_not_fresh hfresh]
  rcases hr : x.sys.read fd (messageSizeLimit - x.session.clientUsedBuffer) r with
    _ | _ | ⟨b, bs⟩
  · exact ⟨.clientReadError, rfl⟩
  · exact ⟨.clientEof, rfl⟩
  · exact absurd (h (b :: bs) hr) (by simp)

/-- Any other read from the client leaves the session in use. -/
theorem inUse_of_clientRead (hfresh : x.session.state.fresh = false) {fd : Fd} {r : ReadOutcome}
    {c : ConnectEnv}
    (h : ¬ x.sys.ReadsNothing fd (messageSizeLimit - x.session.clientUsedBuffer) r)
    (hy : clientRead fd r c x = some y) (hin : x.history.inUse = true) :
    y.history.inUse = true := by
  rw [clientRead_of_not_fresh hfresh, Option.some.injEq] at hy
  unfold Sys.ReadsNothing at h
  rcases hr : x.sys.read fd (messageSizeLimit - x.session.clientUsedBuffer) r with
    _ | _ | ⟨b, bs⟩
  · simp [hr] at h
  · simp [hr] at h
  · rw [hr] at hy
    dsimp only at hy
    rw [← hy, history_forwardClientRead]
    exact hin

/-- An event of the client's descriptor. -/
theorem releasedOnce_serveClient (hok : x.session.Ok) (hin : x.history.inUse = true)
    (hgood : e.err = false → e.hup = false → e.input = true → e.output = true →
      ¬ x.sys.ReadsNothing e.fd (messageSizeLimit - x.session.clientUsedBuffer) env.read)
    (h : x.history.ReleasedOnce) (hserve : serveRole .client e env x = some y) :
    y.history.ReleasedOnce := by
  have hcall : ∀ (call : Call) {z : Ctx n L}, handle call x = some z → z.history.ReleasedOnce :=
    fun call z hz => releasedOnce_of_inUse (effect_of_handle hok.fresh hz) hin h
  rcases serveRole_cases hserve with ⟨err, hhangup⟩ | ⟨herr, hhup, z, hread, hwrite⟩
  · exact hcall _ hhangup
  -- only the write after a read can meet a session that has been deleted
  rcases hread with ⟨rfl, -⟩ | ⟨hinput, hread⟩ <;> rcases hwrite with ⟨rfl, -⟩ | ⟨hout, hwrite⟩
  · exact h
  · exact hcall _ hwrite
  · exact hcall _ hread
  · have hz := inUse_of_clientRead hok.fresh (hgood herr hhup hinput hout) hread hin
    exact releasedOnce_of_inUse (effect_of_handle (ok_handle hok hread).fresh hwrite) hz
      (hcall _ hread)

/-- An event of the member's descriptor. -/
theorem releasedOnce_serveMember (hok : x.session.Ok)
    (hgood : e.err = false → e.hup = false → e.input = true → x.history.inUse = false →
      x.session.state.cliWriteReady = false →
        ¬ x.sys.ReadsNothing e.fd (messageSizeLimit - x.session.memberUsedBuffer) env.read)
    (h : x.history.ReleasedOnce) (hserve : serveRole .member e env x = some y) :
    y.history.ReleasedOnce := by
  rcases serveRole_cases hserve with ⟨err, hhangup⟩ | ⟨herr, hhup, z, hread, hwrite⟩
  · exact releasedOnce_of_history h (history_of_not_reading (effect_of_handle hok.fresh hhangup)
      (fun hrole => by cases hrole) fun _ _ _ heq => by cases heq)
  have hz : z.session.Ok ∧ z.history.ReleasedOnce := by
    rcases hread with ⟨rfl, -⟩ | ⟨hinput, hread⟩
    · exact ⟨hok, h⟩
    · refine ⟨ok_handle hok hread, ?_⟩
      have heffect := effect_of_handle hok.fresh hread
      -- a session not in use must not be deleted by this read
      by_cases hin : x.history.inUse = true
      · exact releasedOnce_of_inUse heffect hin h
      · refine releasedOnce_of_history h
          (history_of_not_releasing heffect (fun hrole => by cases hrole) ?_)
        intro fd r c hcall hq
        obtain ⟨-, rfl, rfl, -⟩ := Call.read.inj hcall
        have hsome := hgood herr hhup hinput (Bool.eq_false_of_not_eq_true hin) hq
        obtain ⟨bytes, hbytes⟩ := not_forall.mp hsome
        obtain ⟨hr, hne⟩ := Classical.not_imp.mp hbytes
        exact ⟨bytes, hne, hr⟩
  rcases hwrite with ⟨rfl, -⟩ | ⟨-, hwrite⟩
  · exact hz.2
  · exact releasedOnce_of_history hz.2 (history_of_not_reading
      (effect_of_handle hz.1.fresh hwrite) (fun hrole => by cases hrole) fun _ _ _ heq => by
        cases heq)

/-- An event of the clone's descriptor. -/
theorem releasedOnce_serveClone (hok : x.session.Ok) (h : x.history.ReleasedOnce)
    (hserve : serveRole .clone e env x = some y) : y.history.ReleasedOnce := by
  have hcall : ∀ {u v : Ctx n L} {call : Call}, call.role = .clone → u.session.Ok →
      u.history.ReleasedOnce → handle call u = some v → v.history.ReleasedOnce := by
    intro u v call hrole hu hrel hv
    refine releasedOnce_of_history hrel (history_of_not_reading (effect_of_handle hu.fresh hv) ?_ ?_)
    · rw [hrole]
      decide
    · rintro fd r c rfl
      cases hrole
  rcases serveRole_cases hserve with ⟨err, hhangup⟩ | ⟨-, -, z, hread, hwrite⟩
  · exact hcall rfl hok h hhangup
  have hz : z.session.Ok ∧ z.history.ReleasedOnce := by
    rcases hread with ⟨rfl, -⟩ | ⟨-, hread⟩
    · exact ⟨hok, h⟩
    · exact ⟨ok_handle hok hread, hcall rfl hok h hread⟩
  rcases hwrite with ⟨rfl, -⟩ | ⟨-, hwrite⟩
  · exact hz.2
  · exact hcall rfl hz.1 hz.2 hwrite

/-- **An event without the bad condition** releases no session twice. -/
theorem releasedOnce_serve (hok : x.session.Ok)
    (hidle : x.history.inUse = false → x.session.clientfd = none)
    (hgood : ¬ ReleasesTwice e env x) (h : x.history.ReleasedOnce)
    (hserve : serve e env x = some y) : y.history.ReleasedOnce := by
  unfold serve at hserve
  cases hrole : x.session.roleOf e.fd with
  | none =>
      rw [hrole] at hserve
      exact Option.some.inj hserve ▸ h
  | some role =>
      rw [hrole] at hserve
      cases role with
      | client =>
          -- a session with a client is in use
          have hin : x.history.inUse = true := by
            by_contra hnot
            have hnone := hidle (Bool.eq_false_of_not_eq_true hnot)
            have hsome : x.session.clientfd = some e.fd := Session.fdOf_of_roleOf hrole
            rw [hnone] at hsome
            cases hsome
          exact releasedOnce_serveClient hok hin (fun herr hhup hinput hout hnothing =>
            hgood ⟨herr, hhup, hinput, Or.inl ⟨hrole, hout, hnothing⟩⟩) h hserve
      | member =>
          exact releasedOnce_serveMember hok (fun herr hhup hinput hin hq hnothing =>
            hgood ⟨herr, hhup, hinput, Or.inr ⟨hrole, hin, hq, hnothing⟩⟩) h hserve
      | clone => exact releasedOnce_serveClone hok h hserve

/-- A failed read from the client is followed by a failing write. -/
theorem serveClient_of_nothing (hok : x.session.Ok) (hfd : x.session.clientfd = some e.fd)
    (herr : e.err = false) (hhup : e.hup = false) (hinput : e.input = true)
    (hout : e.output = true)
    (h : x.sys.ReadsNothing e.fd (messageSizeLimit - x.session.clientUsedBuffer) env.read) :
    ∃ reason, serveRole .client e env x
      = some (deleteSession .clientWriteError (deleteSession reason x)) := by
  obtain ⟨reason, hread⟩ := clientRead_of_nothing hok.fresh h env.connect
  have hclosed := isOpen_deleteSession hok hfd reason
  refine ⟨reason, ?_⟩
  have hwrite : clientWrite e.fd env.write (deleteSession reason x)
      = deleteSession .clientWriteError (deleteSession reason x) := by
    rw [clientWrite, Sys.write_of_closed _ _ hclosed]
  rw [serveRole, herr, hhup, hinput, hout, if_neg Bool.false_ne_true, if_neg Bool.false_ne_true,
    if_pos rfl, handle, hread, Option.bind_some, if_pos rfl, handle, hwrite]

/-- A failed read from the member is at most followed by a call that releases
nothing. -/
theorem serveMember_of_nothing (hok : x.session.Ok) (herr : e.err = false) (hhup : e.hup = false)
    (hinput : e.input = true) (hq : x.session.state.cliWriteReady = false)
    (h : x.sys.ReadsNothing e.fd (messageSizeLimit - x.session.memberUsedBuffer) env.read) :
    ∃ y, serveRole .member e env x = some y ∧
      .released .memberGone x.session :: x.history <:+ y.history := by
  have hsuf : Obs.released .memberGone x.session :: x.history
      <:+ (deleteSession .memberGone x).history := by
    rw [history_deleteSession]
  rw [serveRole, herr, hhup, hinput, if_neg Bool.false_ne_true, if_neg Bool.false_ne_true,
    if_pos rfl, handle, memberRead_of_nothing h hq, Option.bind_some]
  by_cases hout : e.output = true
  · rw [if_pos hout]
    refine ⟨_, rfl, ?_⟩
    have he : Effect (deleteSession .memberGone x) (.write .member e.fd env.write)
        (memberWrite e.fd env.write (deleteSession .memberGone x)) :=
      effect_of_handle (ok_deleteSession hok .memberGone).fresh rfl
    obtain ⟨hs, -, heq⟩ := history_of_not_reading he (fun hrole => by cases hrole)
      fun _ _ _ heq => by cases heq
    rw [heq]
    exact hsuf.trans (List.suffix_append _ _)
  · rw [if_neg hout]
    exact ⟨_, rfl, hsuf⟩

/-- **An event with the bad condition** releases a session that is not in
use. -/
theorem not_releasedOnce_serve (hok : x.session.Ok) (hbad : ReleasesTwice e env x) :
    ∃ y, serve e env x = some y ∧ ¬ y.history.ReleasedOnce := by
  obtain ⟨herr, hhup, hinput, ⟨hrole, hout, hnothing⟩ | ⟨hrole, hin, hq, hnothing⟩⟩ := hbad
  · obtain ⟨reason, hserve⟩ := serveClient_of_nothing hok (Session.fdOf_of_roleOf hrole) herr hhup
      hinput hout hnothing
    refine ⟨_, by rw [serve, hrole]; exact hserve, fun h => ?_⟩
    rw [history_deleteSession, History.releasedOnce_cons, history_deleteSession] at h
    exact Bool.false_ne_true (h.1 rfl)
  · obtain ⟨y, hserve, hsuf⟩ := serveMember_of_nothing hok herr hhup hinput hq hnothing
    refine ⟨y, by rw [serve, hrole]; exact hserve, fun h => ?_⟩
    have hlast := h .memberGone x.session x.history hsuf
    rw [hin] at hlast
    cases hlast

end Serve

/-! ## Runs -/

/-- No session has been released while it was not in use. -/
def World.ReleasedOnce (w : World n L) : Prop := ∀ s, (w.histories s).ReleasedOnce

/-- The main loop comes to an event that releases a session twice. -/
def DoubleRelease (m : MainLoop n L) (i : LoopInput n L) : Prop :=
  ∃ env e es s, i = .process env ∧ m.pending = e :: es ∧ e.fd ≠ m.world.listenerfd ∧
    m.world.sys.fds e.fd = some s ∧ ReleasesTwice e env (m.world.ctx s)

section Runs

variable [LoadArith L]

/-- An admission and a choice release nothing, and a session handed out may be
released. -/
theorem releasedOnce_acceptClient {x y : Ctx n L} (h : x.history.ReleasedOnce)
    {fd : Fd} {env : AcceptEnv} (haccept : acceptClient fd env x = some y) :
    y.history.ReleasedOnce := by
  have hadmit : (x.handOut fd).history.inUse = true ∧ (x.handOut fd).history.ReleasedOnce :=
    ⟨rfl, History.releasedOnce_cons.mpr ⟨nofun, h⟩⟩
  have hdelete : ∀ (z : Ctx n L) (reason : Reason), z.history.inUse = true →
      z.history.ReleasedOnce → (deleteSession reason z).history.ReleasedOnce := by
    intro z reason hin hz
    rw [history_deleteSession]
    exact History.releasedOnce_cons.mpr ⟨fun _ => hin, hz⟩
  rcases acceptClient_cases haccept with rfl | ⟨-, rfl⟩ | ⟨-, z, status, hz, hor⟩
  · exact hdelete _ _ hadmit.1 hadmit.2
  · exact hadmit.2
  · have hchosen : z.history.inUse = true ∧ z.history.ReleasedOnce := by
      obtain ⟨hs, heq, hnone⟩ := handsOut_chooseServer hz
      rw [heq, History.inUse_append hnone, History.releasedOnce_append hnone]
      exact hadmit
    rcases hor with ⟨-, rfl⟩ | ⟨-, rfl⟩
    · exact hdelete _ _ hchosen.1 hchosen.2
    · exact hchosen.2

/-- A step without the bad condition. -/
theorem releasedOnce_loop {m m' : MainLoop n L} {i : LoopInput n L} (how : m.world.Owned)
    (h : m.world.ReleasedOnce) (hgood : ¬ DoubleRelease m i)
    (hstep : (loopMachine n L).step m i = some m') : m'.world.ReleasedOnce := by
  refine loop_histories h (fun x y fd env hx hy => releasedOnce_acceptClient hx hy) ?_ hstep
  intro env e es s y hi hpending hne hs hserve
  refine releasedOnce_serve (how.ok s) (how.idle s) (fun hbad => ?_) (h s) hserve
  exact hgood ⟨env, e, es, s, hi, hpending, hne, hs, hbad⟩

/-- A step with the bad condition. -/
theorem not_releasedOnce_loop {m : MainLoop n L} {i : LoopInput n L} (how : m.world.Owned)
    (hbad : DoubleRelease m i) :
    ∃ m', (loopMachine n L).step m i = some m' ∧ ¬ m'.world.ReleasedOnce := by
  obtain ⟨w, pending⟩ := m
  obtain ⟨env, e, es, s, rfl, rfl, hne, hs, hrelease⟩ := hbad
  obtain ⟨y, hserve, hnot⟩ := not_releasedOnce_serve (how.ok s) hrelease
  have hsid : y.sid = s := (frame_moves (moves_serve (how.ok s) (how.owns s) hserve)).sid
  have hevent : processEvent e env w = some (w.put y) := by
    rw [processEvent, if_neg hne, hs]
    show (serve e env (w.ctx s)).map w.put = _
    rw [hserve, Option.map_some]
  refine ⟨⟨w.put y, es⟩, ?_, fun h => hnot ?_⟩
  · show (processEvent e env w).map _ = _
    rw [hevent, Option.map_some]
  · have hy := h y.sid
    rwa [World.histories_put_self] at hy

/-- **Each allocated session is released at most once** in exactly the runs of
the main loop in which no event comes that releases its session twice: the
client's own end of file together with `EPOLLOUT`, or the failing read of a
descriptor that a failed connect has left behind in a session not in use. -/
theorem releasedOnce_always_iff {w : World n L} (h : w.Start) (inputs : List (LoopInput n L)) :
    (∀ m ∈ (loopMachine n L).states ⟨w, []⟩ inputs, m.world.ReleasedOnce)
      ↔ ∀ v ∈ (loopMachine n L).visits ⟨w, []⟩ inputs, ¬ DoubleRelease v.1 v.2 := by
  refine (loopMachine n L).always_iff (fun m => m.world.Owned) (fun m => m.world.ReleasedOnce)
    DoubleRelease (fun m i m' how hstep => how.loop hstep)
    (fun m i m' how hm hgood hstep => releasedOnce_loop how hm hgood hstep)
    (fun m i how _ hbad => not_releasedOnce_loop how hbad) (.start h) ?_ inputs
  intro s reason before earlier hsuf
  rw [show ((⟨w, []⟩ : MainLoop n L).world.histories s) = [] from h.histories s] at hsuf
  cases List.suffix_nil.mp hsuf

end Runs

/-- A client that sends a request and then closes before `EPOLLOUT` is due. -/
def earlyClose : List (LoopInput 1 ℤ) :=
  clientConnects ++ [.poll [⟨5, true, false, false, false⟩],
    .process (sampleEventEnv (.data [66])), .poll [⟨5, true, false, false, false⟩],
    .process (sampleEventEnv (.data []))]

/-- It is released once. -/
theorem releasedOnce_of_early_close :
    sampleWorld.Start ∧
      ∀ m ∈ (loopMachine 1 ℤ).states ⟨sampleWorld, []⟩ earlyClose, m.world.ReleasedOnce := by
  refine ⟨start_sampleWorld, (releasedOnce_always_iff start_sampleWorld _).mpr ?_⟩
  intro v hv hbad
  have hquiet : ∀ v ∈ (loopMachine 1 ℤ).visits ⟨sampleWorld, []⟩ earlyClose,
      ∀ e ∈ v.1.pending, e.output = false ∧ (v.1.world.sessions 0).memberfd ≠ some e.fd := by
    decide +kernel
  obtain ⟨env, e, es, s, -, hpending, -, -, hrelease⟩ := hbad
  obtain ⟨hout, hmember⟩ := hquiet v hv e (by rw [hpending]; exact List.mem_cons_self)
  obtain rfl : s = 0 := Subsingleton.elim s 0
  rcases hrelease.role with ⟨-, hout', -⟩ | ⟨hrole, -⟩
  · exact absurd (hout.symm.trans hout') (by decide)
  · exact hmember (Session.fdOf_of_roleOf hrole)

/-- The member answers, and the client closes while the answer is still to be
delivered, so its last event has both `EPOLLIN` and `EPOLLOUT`. -/
def closeBeforeDelivery : List (LoopInput 1 ℤ) :=
  clientConnects ++ [.poll [⟨6, true, false, false, false⟩],
    .process (sampleEventEnv (.data [66])), .poll [⟨5, true, true, false, false⟩],
    .process (sampleEventEnv (.data []))]

/-- The session is released twice for one allocation. -/
theorem released_twice_for_one_event :
    sampleWorld.Start ∧ ¬ ∀ m ∈ (loopMachine 1 ℤ).states ⟨sampleWorld, []⟩ closeBeforeDelivery,
      m.world.ReleasedOnce := by
  refine ⟨start_sampleWorld, fun h => ?_⟩
  have hrun : ((loopMachine 1 ℤ).run ⟨sampleWorld, []⟩ closeBeforeDelivery).any (fun m =>
      (m.world.histories 0).head?.any Obs.isReleased &&
        !History.inUse (m.world.histories 0).tail) = true := by decide +kernel
  obtain ⟨m, hm, hcond⟩ := (Option.any_eq_true _ _).mp hrun
  obtain ⟨hreleased, hunused⟩ := Bool.and_eq_true_iff.mp hcond
  exact History.not_releasedOnce hreleased (by simpa using hunused)
    (h m ((loopMachine 1 ℤ).mem_states_of_run hm) 0)

end OctopusLB
