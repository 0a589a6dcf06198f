/-
# What events do to a session, in small moves

Whatever the main loop does to a session for one event is a chain of a few kinds
of `Move`: a change of data, a peer given up, a descriptor associated, a session
handed out or taken back.  `moves_serve` and `moves_acceptClient` break the two
branches of the loop down; properties of all sessions are then shown for one
move at a time.

`Frame` is the first of them: a move of one session touches only descriptors
that are its own or not open, so it leaves the other sessions alone.
-/
import Mathlib.Logic.Relation
import OctopusLB.MainLoop
import OctopusLB.SessionRun

namespace OctopusLB

variable {n : ℕ} {L : Type}

/-! ## Changes of data -/

/-- The choosers differ at most in the traffic counters of the servers. -/
structure SameButTraffic (c c' : Chooser L) : Prop where
  servers : ∀ p, c'.balancer.servers p = { c.balancer.servers p with
    bsent := (c'.balancer.servers p).bsent, brecv := (c'.balancer.servers p).brecv }
  rest : c' = { c with balancer := { c.balancer with servers := c'.balancer.servers } }

theorem SameButTraffic.refl (c : Chooser L) : SameButTraffic c c := ⟨fun _ => rfl, rfl⟩

theorem SameButTraffic.trans {c₁ c₂ c₃ : Chooser L} (h : SameButTraffic c₁ c₂)
    (h' : SameButTraffic c₂ c₃) : SameButTraffic c₁ c₃ where
  servers := fun p => by rw [h'.servers p, h.servers p]
  rest := by rw [h'.rest, h.rest]

/-- A change of data: buffers, state bits other than the `CONNECTED` ones,
traffic counters, and the interest registered for the session's own
descriptors. -/
structure Quiet (x y : Ctx n L) : Prop where
  sid : y.sid = x.sid
  links : SameLinks x.session y.session
  ok : x.session.Ok → y.session.Ok
  history : ∃ h, y.history = h ++ x.history ∧ ∀ o ∈ h, o.isTraffic = true
  isOpen : y.sys.isOpen = x.sys.isOpen
  fds : y.sys.fds = x.sys.fds
  unused : y.sys.unused = x.sys.unused
  interest : ∀ fd, (∀ role, x.session.fdOf role ≠ some fd) →
    y.sys.interest fd = x.sys.interest fd
  registered : ∀ fd, (y.sys.interest fd).isSome = (x.sys.interest fd).isSome
  chooser : SameButTraffic x.sys.chooser y.sys.chooser

theorem Quiet.trans {x y z : Ctx n L} (h : Quiet x y) (h' : Quiet y z) : Quiet x z where
  sid := h'.sid.trans h.sid
  links := h.links.trans h'.links
  ok := fun hok => h'.ok (h.ok hok)
  history := by
    obtain ⟨h₁, heq₁, htraffic₁⟩ := h.history
    obtain ⟨h₂, heq₂, htraffic₂⟩ := h'.history
    refine ⟨h₂ ++ h₁, by rw [heq₂, heq₁, List.append_assoc], fun o ho => ?_⟩
    rcases List.mem_append.mp ho with ho | ho
    · exact htraffic₂ o ho
    · exact htraffic₁ o ho
  isOpen := h'.isOpen.trans h.isOpen
  fds := h'.fds.trans h.fds
  unused := h'.unused.trans h.unused
  interest := by
    intro fd hfd
    rw [h'.interest fd fun role => by rw [h.links.fdOf]; exact hfd role, h.interest fd hfd]
  registered := fun fd => (h'.registered fd).trans (h.registered fd)
  chooser := h.chooser.trans h'.chooser

section QuietSteps

variable (x : Ctx n L)

theorem quiet_update {f : Session → Session} (hl : SameLinks x.session (f x.session))
    (hok : x.session.Ok → (f x.session).Ok) : Quiet x (x.update f) where
  sid := rfl
  links := hl
  ok := hok
  history := ⟨[], rfl, List.forall_mem_nil _⟩
  isOpen := rfl
  fds := rfl
  unused := rfl
  interest := fun _ _ => rfl
  registered := fun _ => rfl
  chooser := .refl _

theorem quiet_observe {o : Obs} (ho : o.isTraffic = true) : Quiet x (x.observe o) where
  sid := rfl
  links := .refl _
  ok := id
  history := ⟨[o], rfl, by simpa using ho⟩
  isOpen := rfl
  fds := rfl
  unused := rfl
  interest := fun _ _ => rfl
  registered := fun _ => rfl
  chooser := .refl _

theorem Sys.rest_epollMod (y : Sys n L) (fd : Option Fd) (i : Interest) :
    y.epollMod fd i = { y with interest := (y.epollMod fd i).interest } := by
  unfold Sys.epollMod
  cases fd with
  | none => rfl
  | some fd =>
      dsimp only
      split_ifs <;> rfl

theorem Sys.interest_epollMod_of_ne (y : Sys n L) {fd : Option Fd} (i : Interest) {fd' : Fd}
    (h : fd ≠ some fd') : (y.epollMod fd i).interest fd' = y.interest fd' := by
  cases fd with
  | none => rfl
  | some fd =>
      unfold Sys.epollMod
      dsimp only
      split_ifs
      · exact Function.update_of_ne (fun heq => h (by rw [heq])) _ _
      · rfl

theorem Sys.registered_epollMod (y : Sys n L) (fd : Option Fd) (i : Interest) (fd' : Fd) :
    ((y.epollMod fd i).interest fd').isSome = (y.interest fd').isSome := by
  by_cases h : fd = some fd'
  · subst h
    unfold Sys.epollMod
    dsimp only
    split_ifs with hreg
    · show (Function.update y.interest fd' (some i) fd').isSome = _
      rw [Function.update_self, hreg]
      rfl
    · rfl
  · rw [y.interest_epollMod_of_ne i h]

theorem quiet_watch (role : Role) (i : Interest) : Quiet x (x.watch role i) := by
  have hrest := x.sys.rest_epollMod (x.session.fdOf role) i
  exact
    { sid := rfl
      links := .refl _
      ok := id
      history := ⟨[], rfl, List.forall_mem_nil _⟩
      isOpen := by
        show (x.sys.epollMod (x.session.fdOf role) i).isOpen = x.sys.isOpen
        rw [hrest]
      fds := by
        show (x.sys.epollMod (x.session.fdOf role) i).fds = x.sys.fds
        rw [hrest]
      unused := by
        show (x.sys.epollMod (x.session.fdOf role) i).unused = x.sys.unused
        rw [hrest]
      interest := fun fd hfd => x.sys.interest_epollMod_of_ne i (hfd role)
      registered := x.sys.registered_epollMod (x.session.fdOf role) i
      chooser := by
        show SameButTraffic x.sys.chooser (x.sys.epollMod (x.session.fdOf role) i).chooser
        rw [hrest]
        exact .refl _ }

/-- Traffic counters change. -/
theorem quiet_modifyServer (p : Option ℕ) {f : Server L → Server L}
    (hf : ∀ s, f s = { s with bsent := (f s).bsent, brecv := (f s).brecv }) :
    Quiet x (x.updateSys fun y => y.modifyServer p f) where
  sid := rfl
  links := .refl _
  ok := id
  history := ⟨[], rfl, List.forall_mem_nil _⟩
  isOpen := Sys.isOpen_modifyServer ..
  fds := Sys.fds_modifyServer ..
  unused := Sys.unused_modifyServer ..
  interest := fun fd _ => congrFun (Sys.interest_modifyServer ..) fd
  registered := fun fd => by rw [Ctx.sys_updateSys, Sys.interest_modifyServer]
  chooser := by
    cases p with
    | none => exact .refl _
    | some p =>
        refine ⟨fun q => ?_, rfl⟩
        show (x.sys.chooser.balancer.modifyServer p f).servers q = _
        change _ = { x.sys.chooser.balancer.servers q with
          bsent := ((x.sys.chooser.balancer.modifyServer p f).servers q).bsent
          brecv := ((x.sys.chooser.balancer.modifyServer p f).servers q).brecv }
        rw [Balancer.servers_modifyServer]
        split_ifs
        · exact hf _
        · rfl

end QuietSteps

section QuietHandlers

variable {x : Ctx n L}

theorem quiet_receiveFromClient {bytes : List UInt8}
    (h : bytes.length ≤ messageSizeLimit - x.session.clientUsedBuffer) :
    Quiet x (receiveFromClient bytes x) :=
  (quiet_update x (sameLinks_appendClient _ bytes) fun hok => hok.appendClient h).trans
    (quiet_observe _ rfl)

theorem quiet_maintainClientRead (x : Ctx n L) : Quiet x (maintainClientRead x) := by
  have hmem := (quiet_watch x .client
    (interestOf x.session.state.cliReadReady x.session.state.cliWriteReady)).trans
      (quiet_watch _ .member (if x.session.state.memReadReady then .rw else .wr))
  unfold maintainClientRead
  dsimp only
  by_cases hc : x.session.state.cloConnected = true
  · rw [if_pos hc]
    exact hmem.trans (quiet_watch _ .clone .rw)
  · rw [if_neg hc]
    exact hmem

theorem quiet_sendToClient (x : Ctx n L) (k : ℕ) : Quiet x (sendToClient k x) :=
  (quiet_update x (sameLinks_drainMember _ k) fun hok => hok.drainMember k).trans
    (quiet_observe _ rfl)

theorem quiet_freeMember (x : Ctx n L) : Quiet x (x.update Session.freeMember) :=
  quiet_update x (sameLinks_freeMember _) fun hok => hok.freeMember

theorem quiet_maintainClientWrite (x : Ctx n L) : Quiet x (maintainClientWrite x) :=
  (quiet_watch x .client _).trans (quiet_watch _ .member _)

theorem quiet_receiveFromMember {bytes : List UInt8}
    (h : bytes.length ≤ messageSizeLimit - x.session.memberUsedBuffer) :
    Quiet x (receiveFromMember bytes x) :=
  ((quiet_modifyServer x _ fun _ => rfl).trans
    (quiet_update _ (sameLinks_appendMember _ bytes) fun hok => hok.appendMember h)).trans
      (quiet_observe _ rfl)

theorem quiet_maintainMemberRead (x : Ctx n L) : Quiet x (maintainMemberRead x) :=
  (quiet_watch x .client _).trans (quiet_watch _ .member _)

theorem quiet_sendToMember (x : Ctx n L) (k : ℕ) : Quiet x (sendToMember k x) :=
  ((quiet_modifyServer x _ fun _ => rfl).trans
    (quiet_update _ (sameLinks_drainClient _ k) fun hok => hok.drainClient k)).trans
      (quiet_observe _ rfl)

theorem quiet_maintainMemberWrite (x : Ctx n L) : Quiet x (maintainMemberWrite x) :=
  (quiet_watch x .client _).trans (quiet_watch _ .member _)

theorem quiet_receiveFromClone (x : Ctx n L) (bytes : List UInt8) :
    Quiet x (receiveFromClone bytes x) :=
  (quiet_modifyServer x _ fun _ => rfl).trans (quiet_observe _ rfl)

theorem quiet_sendToClone (x : Ctx n L) (k : ℕ) : Quiet x (sendToClone k x) :=
  ((quiet_modifyServer x _ fun _ => rfl).trans
    (quiet_update _ (sameLinks_drainClone _ k) fun hok => hok.drainClone k)).trans
      (quiet_observe _ rfl)

end QuietHandlers

/-! ## Moves -/

/-- A server descriptor that is held without a connection: `connect_server` left
it behind when it could not be registered. -/
def Session.Residual (kind : ServerKind) (s : Session) : Prop :=
  s.serverfd kind ≠ none ∧ s.connected kind = false

/-- One kind of change of one session.  A server may be given up although it is
not connected only where `loose` has it, and be connected only in a slot that
`slots` has. -/
inductive Move (loose : ServerKind → Prop) (slots : ServerKind → ℕ → Prop) [LoadArith L]
    (x : Ctx n L) : Ctx n L → Prop
  | quiet {y : Ctx n L} (h : Quiet x y) : Move loose slots x y
  | dropClient : Move loose slots x (disconnectClient x)
  | dropServer (kind : ServerKind) (h : x.session.connected kind = true ∨ loose kind) :
      Move loose slots x (disconnectServer kind x)
  | release (reason : Reason) (before : Session) (hclient : x.session.clientfd = none)
      (hservers : ∀ kind, x.session.connected kind = false) :
      Move loose slots x (((x.update Session.reset).updateSys fun y =>
        y.addUnusedSession x.sid).observe (.released reason before))
  | handOut (fd : Fd) (hfd : x.sys.isOpen fd = false) (hclient : x.session.clientfd = none) :
      Move loose slots x ((x.updateSys fun y => y.opened fd).handOut fd)
  | register (fd : Fd) (hfd : x.session.clientfd = some fd) :
      Move loose slots x (x.updateSys fun y => y.register fd)
  | choose (c : Chooser L) (code : ℤ)
      (hc : chooseCandidate x.session.clientReadBuffer.cells x.sys.chooser = some (c, code)) :
      Move loose slots x (x.updateSys fun y => { y with chooser := c })
  | chose (status : ℤ) : Move loose slots x (x.observe (.chose status))
  | leak (fd : Fd) (hfd : x.sys.isOpen fd = false) :
      Move loose slots x (x.updateSys fun y => y.opened fd)
  | associate (kind : ServerKind) (fd : Fd) (slot : ℕ) (hfd : x.sys.isOpen fd = false)
      (hnone : x.session.serverfd kind = none) (hslot : slots kind slot) :
      Move loose slots x ((x.updateSys fun y => y.opened fd).associate kind fd slot)
  | establish (kind : ServerKind) (fd : Fd) (slot : ℕ) (hfd : x.session.serverfd kind = some fd)
      (hserver : x.session.server kind = some slot) (hnot : x.session.connected kind = false)
      (hslot : slots kind slot) : Move loose slots x (x.establish kind fd slot)

/-- A chain of moves. -/
abbrev Moves (loose : ServerKind → Prop) (slots : ServerKind → ℕ → Prop) [LoadArith L] :
    Ctx n L → Ctx n L → Prop := Relation.ReflTransGen (Move loose slots)

/-! ## The frame of a move -/

/-- `fds` has the session for each descriptor that it holds, and they are
open. -/
def Ctx.Owns (x : Ctx n L) : Prop :=
  ∀ role fd, x.session.fdOf role = some fd → x.sys.fds fd = some x.sid ∧ x.sys.isOpen fd = true

/-- What a change of one session does to descriptors and to the pool. -/
structure Frame (x y : Ctx n L) : Prop where
  sid : y.sid = x.sid
  sound : x.session.Ok → x.Owns → y.session.Ok ∧ y.Owns
  others : ∀ fd, x.sys.isOpen fd = true → (∀ role, x.session.fdOf role ≠ some fd) →
    y.sys.isOpen fd = true ∧ y.sys.fds fd = x.sys.fds fd ∧ y.sys.interest fd = x.sys.interest fd
  taken : ∀ role fd, y.session.fdOf role = some fd →
    x.sys.isOpen fd = false ∨ ∃ role', x.session.fdOf role' = some fd
  pool : ∀ t, t ≠ x.sid → y.sys.unused t = x.sys.unused t
  idle : (x.history.inUse = false → x.session.clientfd = none) →
    y.history.inUse = false → y.session.clientfd = none
  unused : x.sys.unused x.sid = !x.history.inUse → y.sys.unused x.sid = !y.history.inUse

theorem Frame.refl (x : Ctx n L) : Frame x x :=
  ⟨rfl, fun hok how => ⟨hok, how⟩, fun _ ho _ => ⟨ho, rfl, rfl⟩, fun role _ h => Or.inr ⟨role, h⟩,
    fun _ _ => rfl, id, id⟩

theorem Frame.trans {x y z : Ctx n L} (h : Frame x y) (h' : Frame y z) : Frame x z where
  sid := h'.sid.trans h.sid
  sound := fun hok how =>
    have hy := h.sound hok how
    h'.sound hy.1 hy.2
  others := by
    intro fd ho hfd
    -- an open descriptor that `x` does not hold is not held by `y` either
    obtain ⟨hoy, hfdsy, hiy⟩ := h.others fd ho hfd
    have hnot : ∀ role, y.session.fdOf role ≠ some fd := by
      intro role hr
      rcases h.taken role fd hr with hclosed | ⟨role', hr'⟩
      · exact absurd (ho.symm.trans hclosed) (by decide)
      · exact hfd role' hr'
    obtain ⟨hoz, hfdsz, hiz⟩ := h'.others fd hoy hnot
    exact ⟨hoz, hfdsz.trans hfdsy, hiz.trans hiy⟩
  taken := by
    intro role fd hr
    rcases h'.taken role fd hr with hclosed | ⟨role', hr'⟩
    · by_cases ho : x.sys.isOpen fd = true
      · by_cases hheld : ∃ role', x.session.fdOf role' = some fd
        · exact Or.inr hheld
        · have hoy := (h.others fd ho (not_exists.mp hheld)).1
          exact absurd (hoy.symm.trans hclosed) (by decide)
      · exact Or.inl (Bool.eq_false_of_not_eq_true ho)
    · exact h.taken role' fd hr'
  pool := by
    intro t ht
    rw [h'.pool t (h.sid ▸ ht), h.pool t ht]
  idle := fun hx => h'.idle (h.idle hx)
  unused := by
    intro hx
    have hy := h.unused hx
    rw [← h.sid] at hy ⊢
    exact h'.unused hy

section FrameSteps

variable {x y : Ctx n L}

theorem frame_quiet (h : Quiet x y) : Frame x y := by
  obtain ⟨hs, heq, htraffic⟩ := h.history
  have hin : y.history.inUse = x.history.inUse :=
    heq ▸ History.inUse_append fun o ho => Obs.handsOut_of_isTraffic (htraffic o ho)
  exact
    { sid := h.sid
      sound := fun hok how => ⟨h.ok hok, fun role fd hr => by
        rw [h.links.fdOf] at hr
        rw [h.fds, h.isOpen, h.sid]
        exact how role fd hr⟩
      others := fun fd ho hfd =>
        ⟨by rw [h.isOpen]; exact ho, by rw [h.fds], h.interest fd hfd⟩
      taken := fun role fd hr => Or.inr ⟨role, by rw [← h.links.fdOf]; exact hr⟩
      pool := fun t _ => by rw [h.unused]
      idle := by
        rw [hin, show y.session.clientfd = x.session.clientfd from h.links.fdOf .client]
        exact id
      unused := by
        rw [hin, h.unused]
        exact id }

/-- Closing a descriptor that the session holds in a role that it gives up. -/
theorem frame_close {fd : Fd} {role : Role} (hrole : x.session.fdOf role = some fd)
    (hsid : y.sid = x.sid) (hok : x.session.Ok → y.session.Ok)
    (hkept : ∀ role' fd', y.session.fdOf role' = some fd' →
      role' ≠ role ∧ x.session.fdOf role' = some fd')
    (hopen : y.sys.isOpen = Function.update x.sys.isOpen fd false)
    (hfds : y.sys.fds = x.sys.fds)
    (hinterest : y.sys.interest = Function.update x.sys.interest fd none)
    (hunused : y.sys.unused = x.sys.unused) (hhist : y.history = x.history) : Frame x y where
  sid := hsid
  sound := by
    intro hx how
    refine ⟨hok hx, fun role' fd' hr => ?_⟩
    obtain ⟨hne, hr'⟩ := hkept role' fd' hr
    have hfd : fd' ≠ fd := by
      rintro rfl
      exact hne (hx.distinct role' role fd' hr' hrole)
    rw [hfds, hopen, hsid, Function.update_of_ne hfd]
    exact how role' fd' hr'
  others := by
    intro fd' ho hfree
    have hfd : fd' ≠ fd := by
      rintro rfl
      exact hfree role hrole
    rw [hopen, hfds, hinterest, Function.update_of_ne hfd, Function.update_of_ne hfd]
    exact ⟨ho, rfl, rfl⟩
  taken := fun role' fd' hr => Or.inr ⟨role', (hkept role' fd' hr).2⟩
  pool := fun t _ => by rw [hunused]
  idle := by
    rw [hhist]
    intro hx hin
    have hnone := hx hin
    cases hc : y.session.clientfd with
    | none => rfl
    | some fd' => exact absurd ((hkept .client fd' hc).2.symm.trans hnone) nofun
  unused := by
    rw [hhist, hunused]
    exact id

theorem frame_disconnectClient (x : Ctx n L) : Frame x (disconnectClient x) := by
  cases hfd : x.session.clientfd with
  | none =>
      have hsame : disconnectClient x = x := by
        unfold disconnectClient
        rw [hfd]
      rw [hsame]
      exact .refl x
  | some fd =>
      have hrole : x.session.fdOf .client = some fd := hfd
      refine frame_close hrole (sid_disconnectClient x)
        ok_disconnectClient ?_ ?_ ?_ ?_ ?_ (history_disconnectClient x)
      · intro role' fd' hr
        rw [session_disconnectClient, hfd] at hr
        cases role'
        · cases hr
        · exact ⟨by decide, hr⟩
        · exact ⟨by decide, hr⟩
      all_goals
        unfold disconnectClient
        rw [hfd]
        rfl

theorem frame_disconnectServer (kind : ServerKind) (x : Ctx n L) :
    Frame x (disconnectServer kind x) := by
  cases hfd : x.session.serverfd kind with
  | none =>
      have hsame : disconnectServer kind x = x := by
        unfold disconnectServer
        rw [hfd]
      rw [hsame]
      exact .refl x
  | some fd =>
      have hrole : x.session.fdOf kind.role = some fd := by
        rw [← Session.serverfd_eq_fdOf]
        exact hfd
      refine frame_close hrole (sid_disconnectServer x kind)
        (fun hok => ok_disconnectServer hok kind) ?_ ?_ ?_ ?_ ?_ (history_disconnectServer x kind)
      · intro role' fd' hr
        rw [session_disconnectServer, hfd, Option.isSome_some, if_pos rfl] at hr
        cases kind <;> cases role' <;> first
          | exact ⟨by decide, hr⟩
          | exact absurd hr nofun
      all_goals
        unfold disconnectServer
        rw [hfd]
        dsimp only
      · exact congrArg (Function.update · fd false) (Sys.isOpen_modifyServer ..)
      · exact Sys.fds_modifyServer ..
      · exact congrArg (Function.update · fd none) (Sys.interest_modifyServer ..)
      · exact Sys.unused_modifyServer ..

theorem frame_release (reason : Reason) (before : Session) (hclient : x.session.clientfd = none) :
    Frame x (((x.update Session.reset).updateSys fun y => y.addUnusedSession x.sid).observe
      (.released reason before)) where
  sid := rfl
  sound := fun hok how => ⟨hok.reset hclient, fun role fd hr => how role fd (by
    cases role <;> exact hr)⟩
  others := fun _ ho _ => ⟨ho, rfl, rfl⟩
  taken := fun role fd hr => Or.inr ⟨role, by cases role <;> exact hr⟩
  pool := fun t ht => Function.update_of_ne ht ..
  idle := fun _ _ => hclient
  unused := fun _ => Function.update_self ..

/-- Opening a descriptor and giving it to the session. -/
theorem frame_open {fd : Fd} (hfd : x.sys.isOpen fd = false) (hsid : y.sid = x.sid)
    (hok : x.session.Ok → x.Owns → y.session.Ok)
    (hheld : ∀ role fd', y.session.fdOf role = some fd' →
      fd' = fd ∨ x.session.fdOf role = some fd')
    (hopen : y.sys.isOpen = Function.update x.sys.isOpen fd true)
    (hfds : y.sys.fds = Function.update x.sys.fds fd (some x.sid))
    (hinterest : y.sys.interest = x.sys.interest)
    (hpool : ∀ t, t ≠ x.sid → y.sys.unused t = x.sys.unused t)
    (hidle : (x.history.inUse = false → x.session.clientfd = none) →
      y.history.inUse = false → y.session.clientfd = none)
    (hunused : x.sys.unused x.sid = !x.history.inUse → y.sys.unused x.sid = !y.history.inUse) :
    Frame x y where
  sid := hsid
  sound := by
    intro hx how
    refine ⟨hok hx how, fun role fd' hr => ?_⟩
    rw [hopen, hfds, hsid]
    by_cases heq : fd' = fd
    · rw [heq, Function.update_self, Function.update_self]
      exact ⟨rfl, rfl⟩
    · rw [Function.update_of_ne heq, Function.update_of_ne heq]
      exact how role fd' ((hheld role fd' hr).resolve_left heq)
  others := by
    intro fd' ho _
    have hne : fd' ≠ fd := by
      rintro rfl
      exact absurd (ho.symm.trans hfd) (by decide)
    rw [hopen, hfds, hinterest, Function.update_of_ne hne, Function.update_of_ne hne]
    exact ⟨ho, rfl, rfl⟩
  taken := by
    intro role fd' hr
    rcases hheld role fd' hr with rfl | hr
    · exact Or.inl hfd
    · exact Or.inr ⟨role, hr⟩
  pool := hpool
  idle := hidle
  unused := hunused

/-- A descriptor that is not open is not held. -/
theorem Ctx.Owns.ne_of_closed (h : x.Owns) {fd : Fd} (hfd : x.sys.isOpen fd = false)
    (role : Role) : x.session.fdOf role ≠ some fd := fun hr =>
  absurd ((h role fd hr).2.symm.trans hfd) (by decide)

theorem frame_move [LoadArith L] {loose : ServerKind → Prop} {slots : ServerKind → ℕ → Prop}
    (h : Move loose slots x y) : Frame x y := by
  cases h with
  | quiet h => exact frame_quiet h
  | dropClient => exact frame_disconnectClient x
  | dropServer kind => exact frame_disconnectServer kind x
  | release reason before hclient => exact frame_release reason before hclient
  | handOut fd hfd hclient =>
      refine frame_open hfd rfl (fun hok how => ok_handOut hok (how.ne_of_closed hfd)) ?_ rfl rfl rfl
        (fun t ht => Function.update_of_ne ht ..) nofun fun _ => Function.update_self ..
      intro role fd' hr
      rcases fdOf_handOut hr with ⟨-, rfl⟩ | ⟨-, hr⟩
      · exact Or.inl rfl
      · exact Or.inr hr
  | register fd hfd =>
      refine ⟨rfl, fun hok how => ⟨hok, how⟩, ?_, fun role _ hr => Or.inr ⟨role, hr⟩,
        fun _ _ => rfl, id, id⟩
      intro fd' ho hfree
      have hne : fd' ≠ fd := by
        rintro rfl
        exact hfree .client hfd
      exact ⟨ho, rfl, Function.update_of_ne hne ..⟩
  | choose c code hc =>
      exact ⟨rfl, fun hok how => ⟨hok, how⟩, fun _ ho _ => ⟨ho, rfl, rfl⟩,
        fun role _ hr => Or.inr ⟨role, hr⟩, fun _ _ => rfl, id, id⟩
  | chose status =>
      exact ⟨rfl, fun hok how => ⟨hok, how⟩, fun _ ho _ => ⟨ho, rfl, rfl⟩,
        fun role _ hr => Or.inr ⟨role, hr⟩, fun _ _ => rfl, id, id⟩
  | leak fd hfd =>
      have hopen : ∀ fd', x.sys.isOpen fd' = true → (x.sys.opened fd).isOpen fd' = true :=
        fun fd' ho => Sys.isOpen_opened.mpr (Or.inr ho)
      exact ⟨rfl, fun hok how => ⟨hok, fun role fd' hr => ⟨(how role fd' hr).1,
          hopen fd' (how role fd' hr).2⟩⟩, fun fd' ho _ => ⟨hopen fd' ho, rfl, rfl⟩,
        fun role _ hr => Or.inr ⟨role, hr⟩, fun _ _ => rfl, id, id⟩
  | associate kind fd slot hfd hnone hslot =>
      refine frame_open hfd rfl
        (fun hok how => ok_setServer hok (fun role fd' hr => (how role fd' hr).2) hfd slot)
        ?_ rfl rfl rfl (fun _ _ => rfl) ?_ id
      · intro role fd' hr
        rcases fdOf_setServer hr with ⟨-, rfl⟩ | hr
        · exact Or.inl rfl
        · exact Or.inr hr
      · cases kind <;> exact id
  | establish kind fd slot hfd hserver hnot hslot =>
      have hrole : ∀ role, (x.session.setConnected kind).fdOf role = x.session.fdOf role := by
        intro role
        cases kind <;> cases role <;> rfl
      have hfdrole : x.session.fdOf kind.role = some fd := by
        rw [← Session.serverfd_eq_fdOf]
        exact hfd
      refine ⟨rfl, fun hok how => ⟨ok_setConnected hok (by rw [hfd]; simp), fun role fd' hr =>
          how role fd' ((hrole role).symm.trans hr)⟩, ?_,
        fun role fd' hr => Or.inr ⟨role, (hrole role).symm.trans hr⟩, fun _ _ => rfl, ?_, id⟩
      · intro fd' ho hfree
        have hne : fd' ≠ fd := by
          rintro rfl
          exact hfree kind.role hfdrole
        exact ⟨ho, rfl, Function.update_of_ne hne ..⟩
      · cases kind <;> exact id

theorem frame_moves [LoadArith L] {loose : ServerKind → Prop} {slots : ServerKind → ℕ → Prop}
    (h : Moves loose slots x y) : Frame x y := by
  induction h with
  | refl => exact .refl x
  | tail _ hmove ih => exact ih.trans (frame_move hmove)

end FrameSteps

/-! ## Handlers as chains of moves -/

section Chains

variable [LoadArith L] {loose : ServerKind → Prop} {slots : ServerKind → ℕ → Prop}
  {x y z : Ctx n L}

theorem Quiet.moves (h : Quiet x y) : Moves loose slots x y := .single (.quiet h)

/-- What a larger allowance permits. -/
theorem Move.mono {loose' : ServerKind → Prop} {slots' : ServerKind → ℕ → Prop}
    (hl : ∀ kind, loose kind → loose' kind) (hs : ∀ kind slot, slots kind slot → slots' kind slot)
    (h : Move loose slots x y) : Move loose' slots' x y := by
  cases h with
  | quiet h => exact .quiet h
  | dropClient => exact .dropClient
  | dropServer kind h => exact .dropServer kind (h.imp_right (hl kind))
  | release reason before hclient hservers => exact .release reason before hclient hservers
  | handOut fd hfd hclient => exact .handOut fd hfd hclient
  | register fd hfd => exact .register fd hfd
  | choose c code hc => exact .choose c code hc
  | chose status => exact .chose status
  | leak fd hfd => exact .leak fd hfd
  | associate kind fd slot hfd hnone hslot => exact .associate kind fd slot hfd hnone (hs _ _ hslot)
  | establish kind fd slot hfd hserver hnot hslot =>
      exact .establish kind fd slot hfd hserver hnot (hs _ _ hslot)

theorem Moves.mono {loose' : ServerKind → Prop} {slots' : ServerKind → ℕ → Prop}
    (hl : ∀ kind, loose kind → loose' kind) (hs : ∀ kind slot, slots kind slot → slots' kind slot)
    (h : Moves loose slots x y) : Moves loose' slots' x y :=
  (Relation.ReflTransGen.mono (p := Move loose' slots') fun _ _ => Move.mono hl hs) _ _ h

/-- `delete_session` gives up what is connected and then restores the
defaults. -/
theorem moves_deleteSession (hok : x.session.Ok) (reason : Reason) :
    Moves loose slots x (deleteSession reason x) := by
  have hclient := clientfd_disconnectAll hok
  rw [deleteSession_eq]
  unfold disconnectAll disconnectMember disconnectClone at hclient ⊢
  dsimp only at hclient ⊢
  -- the client, then the member, then the clone
  have h1 : Moves loose slots x (if x.session.state.cliConnected then disconnectClient x else x)
      ∧ (if x.session.state.cliConnected then disconnectClient x else x).session.Ok := by
    split_ifs
    · exact ⟨.single .dropClient, ok_disconnectClient hok⟩
    · exact ⟨.refl, hok⟩
  generalize (if x.session.state.cliConnected then disconnectClient x else x) = x₁
    at h1 hclient ⊢
  have h2 : Moves loose slots x
        (if x₁.session.state.memConnected then disconnectServer .member x₁ else x₁)
      ∧ (if x₁.session.state.memConnected then disconnectServer .member x₁ else x₁).session.Ok
      ∧ (if x₁.session.state.memConnected then disconnectServer .member x₁
          else x₁).session.connected .member = false := by
    split_ifs with hm
    · exact ⟨h1.1.tail (.dropServer .member (Or.inl hm)), ok_disconnectServer h1.2 .member,
        connected_disconnectServer h1.2 .member .member⟩
    · exact ⟨h1.1, h1.2, Bool.eq_false_of_not_eq_true hm⟩
  generalize (if x₁.session.state.memConnected then disconnectServer .member x₁ else x₁) = x₂
    at h2 hclient ⊢
  have h3 : Moves loose slots x
        (if x₂.session.state.cloConnected then disconnectServer .clone x₂ else x₂)
      ∧ ∀ kind, (if x₂.session.state.cloConnected then disconnectServer .clone x₂
          else x₂).session.connected kind = false := by
    split_ifs with ho
    · refine ⟨h2.1.tail (.dropServer .clone (Or.inl ho)), fun kind => ?_⟩
      rw [connected_disconnectServer h2.2.1]
      cases kind
      · exact h2.2.2
      · rfl
    · refine ⟨h2.1, fun kind => ?_⟩
      cases kind
      · exact h2.2.2
      · exact Bool.eq_false_of_not_eq_true ho
  generalize (if x₂.session.state.cloConnected then disconnectServer .clone x₂ else x₂) = x₃
    at h3 hclient ⊢
  exact h3.1.tail (.release reason x.session hclient h3.2)

theorem moves_forwardClientRead (x : Ctx n L) (nbytes : ℕ) :
    Moves loose slots x (forwardClientRead nbytes x) := by
  have hcopy : Moves loose slots x (copyToClone nbytes x) := by
    unfold copyToClone
    split_ifs with hc hroom
    · exact .single (.dropServer .clone (Or.inl hc))
    · exact (quiet_update x (sameLinks_appendClone _ nbytes)
        fun h => h.appendClone (not_lt.mp hroom)).moves
    · exact .refl
  have hbits := quiet_update (copyToClone nbytes x) (sameLinks_afterClientRead _)
    fun hok => hok.afterClientRead
  exact hcopy.tail (.quiet (hbits.trans (quiet_maintainClientRead _)))

/-- **A handler call is a chain of moves** that connects nothing and gives up an
unconnected descriptor only in its own role. -/
theorem moves_effect (hok : x.session.Ok) {call : Call} (he : Effect x call y) :
    Moves (fun kind => kind.role = call.role ∧ x.session.Residual kind) (fun _ _ => False) x y := by
  cases he with
  | clientEof => exact moves_deleteSession hok _
  | clientGone => exact moves_deleteSession hok _
  | fromClient fd r env bytes hr hne =>
      have hlen := (Sys.read_eq_some hr).2
      exact (quiet_receiveFromClient hlen).moves.trans
        (moves_forwardClientRead _ _)
  | delivered fd w hw hm =>
      exact (quiet_sendToClient x _).moves.trans
        (moves_deleteSession ((quiet_sendToClient x _).ok hok) _)
  | toClient fd w k hw hm =>
      exact (((quiet_sendToClient x k).trans (quiet_freeMember _)).trans
        (quiet_maintainClientWrite _)).moves
  | memberGone => exact moves_deleteSession hok _
  | fromMember fd r env bytes hr hne =>
      exact ((quiet_receiveFromMember (Sys.read_eq_some hr).2).trans
        (quiet_maintainMemberRead _)).moves
  | toMember fd w k hw =>
      exact ((quiet_sendToMember x k).trans (quiet_maintainMemberWrite _)).moves
  | fromClone fd r env bytes => exact (quiet_receiveFromClone x bytes).moves
  | toClone fd w k hw => exact ((quiet_sendToClone x k).trans (quiet_watch _ .clone _)).moves
  | disconnected call kind hrole =>
      cases hc : x.session.connected kind with
      | true => exact .single (.dropServer kind (Or.inl hc))
      | false =>
          by_cases hfd : x.session.serverfd kind = none
          · exact (disconnectServer_of_none x hfd).symm ▸ .refl
          · exact .single (.dropServer kind (Or.inr ⟨hrole.symm, hfd, hc⟩))

/-- Moves that connect nothing leave no further descriptor behind. -/
theorem residual_of_moves (h : Moves loose (fun _ _ => False) x y) (hok : x.session.Ok)
    (how : x.Owns) {kind : ServerKind} (hy : y.session.Residual kind) :
    x.session.Residual kind := by
  induction h with
  | refl => exact hy
  | @tail u v hu hmove ih =>
      refine ih ?_
      -- only an association could leave a descriptor, and there is none
      obtain ⟨huok, -⟩ := (frame_moves hu).sound hok how
      obtain ⟨hfd, hc⟩ := hy
      cases hmove with
      | quiet hq =>
          refine ⟨?_, (hq.links.connected kind).symm.trans hc⟩
          rwa [Session.serverfd_eq_fdOf, hq.links.fdOf, ← Session.serverfd_eq_fdOf] at hfd
      | dropClient =>
          rw [session_disconnectClient] at hfd hc
          split_ifs at hfd hc <;> cases kind <;> exact ⟨hfd, hc⟩
      | dropServer kind' hdrop =>
          rw [connected_disconnectServer huok] at hc
          rw [session_disconnectServer] at hfd
          by_cases hk : kind = kind'
          · subst hk
            split_ifs at hfd with hsome
            · cases kind <;> exact absurd rfl hfd
            · exact absurd (Option.not_isSome_iff_eq_none.mp hsome) hfd
          · rw [if_neg hk] at hc
            split_ifs at hfd
            · rw [(sameSide_clearServer hk _).serverfd] at hfd
              exact ⟨hfd, hc⟩
            · exact ⟨hfd, hc⟩
      | release reason before hclient hservers =>
          refine ⟨?_, hservers kind⟩
          cases kind <;> exact hfd
      | handOut fd hclosed hclient =>
          cases kind <;> exact ⟨hfd, hc⟩
      | register fd hclient => exact ⟨hfd, hc⟩
      | choose c code hchoice => exact ⟨hfd, hc⟩
      | chose status => exact ⟨hfd, hc⟩
      | leak fd hclosed => exact ⟨hfd, hc⟩
      | associate kind' fd slot hclosed hnone hslot => exact hslot.elim
      | establish kind' fd slot hheld hserver hnot hslot => exact hslot.elim

/-- What every call keeps, an event of the session keeps. -/
theorem serve_keeps {P : Ctx n L → Prop} (hok : x.session.Ok) (hx : P x)
    (hcall : ∀ u v call, u.session.Ok → P u → Effect u call v → P v) {e : Event}
    {env : EventEnv n} (h : serve e env x = some y) : P y := by
  have hhandle : ∀ {u v : Ctx n L} {call : Call}, u.session.Ok → P u → handle call u = some v →
      P v := fun huok hu hv => hcall _ _ _ huok hu (effect_of_handle huok.fresh hv)
  unfold serve at h
  cases hrole : x.session.roleOf e.fd with
  | none =>
      rw [hrole] at h
      exact Option.some.inj h ▸ hx
  | some role =>
      rw [hrole] at h
      rcases serveRole_cases h with ⟨err, hhangup⟩ | ⟨-, -, z, hread, hwrite⟩
      · exact hhandle hok hx hhangup
      have hz : z.session.Ok ∧ P z := by
        rcases hread with ⟨rfl, -⟩ | ⟨-, hread⟩
        · exact ⟨hok, hx⟩
        · exact ⟨ok_handle hok hread, hhandle hok hx hread⟩
      rcases hwrite with ⟨rfl, -⟩ | ⟨-, hwrite⟩
      · exact hz.2
      · exact hhandle hz.1 hz.2 hwrite

/-- **An event of a session is a chain of moves** like those of its handlers. -/
theorem moves_serve (hok : x.session.Ok) (how : x.Owns) {e : Event} {env : EventEnv n}
    (h : serve e env x = some y) :
    Moves (fun kind => x.session.fdOf kind.role = some e.fd ∧ x.session.Residual kind)
      (fun _ _ => False) x y := by
  unfold serve at h
  cases hrole : x.session.roleOf e.fd with
  | none =>
      rw [hrole] at h
      obtain rfl := Option.some.inj h
      exact .refl
  | some role =>
      rw [hrole] at h
      have hfd := Session.fdOf_of_roleOf hrole
      have hcall : ∀ {u v : Ctx n L} {call : Call}, call.role = role → u.session.Ok →
          (∀ kind, u.session.Residual kind → x.session.Residual kind) →
          handle call u = some v →
          Moves (fun kind => x.session.fdOf kind.role = some e.fd ∧ x.session.Residual kind)
            (fun _ _ => False) u v := by
        intro u v call hcallrole huok hres hhandle
        refine Moves.mono ?_ (fun _ _ => id) (moves_effect huok (effect_of_handle huok.fresh hhandle))
        -- the role of the call is the role of the descriptor
        rintro kind ⟨hk, hr⟩
        exact ⟨by rw [hk, hcallrole]; exact hfd, hres kind hr⟩
      rcases serveRole_cases h with ⟨err, hhangup⟩ | ⟨-, -, u, hread, hwrite⟩
      · exact hcall rfl hok (fun _ => id) hhangup
      · have hu : Moves (fun kind => x.session.fdOf kind.role = some e.fd ∧ x.session.Residual kind)
            (fun _ _ => False) x u := by
          rcases hread with ⟨rfl, -⟩ | ⟨-, hread⟩
          · exact .refl
          · exact hcall rfl hok (fun _ => id) hread
        rcases hwrite with ⟨rfl, -⟩ | ⟨-, hwrite⟩
        · exact hu
        · exact hu.trans (hcall rfl ((frame_moves hu).sound hok how).1
            (fun kind => residual_of_moves hu hok how) hwrite)

/-! ## Accepting as a chain of moves -/

/-- The slots that `choose_server` may connect a session to. -/
def ChosenSlot (buf : List UInt8) (x : Chooser L) (kind : ServerKind) (slot : ℕ) : Prop :=
  ∃ c, chooseCandidate buf x = some (c, 0) ∧
    match kind with
    | .member => slot = Balancer.memberSlot c.nextMember
    | .clone => c.useClone = true ∧ slot = Balancer.cloneSlot c.nextClone

theorem moves_connects {kind : ServerKind} {slot : ℕ} (hok : x.session.Ok)
    (h : Connects kind slot x y) (hslot : y = x ∨ slots kind slot) : Moves loose slots x y := by
  rcases hslot with rfl | hslot
  · exact .refl
  cases h with
  | skipped => exact .refl
  | leaked fd hfd hnone => exact .single (.leak fd hfd)
  | associated fd hfd hnone => exact .single (.associate kind fd slot hfd hnone hslot)
  | established fd hfd hnone =>
      have hnot : x.session.connected kind = false :=
        Bool.eq_false_of_not_eq_true fun hc => hok.connected_fd kind hc hnone
      refine (Relation.ReflTransGen.single (.associate kind fd slot hfd hnone hslot)).tail
        (.establish kind fd slot ?_ ?_ ?_ hslot)
      · cases kind <;> rfl
      · cases kind <;> rfl
      · cases kind <;> exact hnot

theorem moves_connectServer (hok : x.session.Ok) (how : x.Owns) (env : ConnectEnv)
    (hmember : slots .member (Balancer.memberSlot x.sys.chooser.nextMember))
    (hclone : x.sys.chooser.useClone = true →
      slots .clone (Balancer.cloneSlot x.sys.chooser.nextClone)) :
    Moves loose slots x (connectServer env x).1 := by
  have hm := connectMember_connects env.member x
  have hmoves : Moves loose slots x (connectMember env.member x).1 :=
    moves_connects hok hm (Or.inr hmember)
  obtain ⟨hnext, huse⟩ := chooser_connects hm
  unfold connectServer
  split_ifs
  · exact hmoves
  · refine hmoves.trans (moves_connects ((frame_moves hmoves).sound hok how).1
      (connectClone_connects env.clone _) ?_)
    by_cases hc : x.sys.chooser.useClone = true
    · rw [hnext]
      exact Or.inr (hclone hc)
    · exact Or.inl (connectClone_of_not_useClone env.clone (by rw [huse]; exact hc))

theorem moves_chooseServer (hok : x.session.Ok) (how : x.Owns) {env : ConnectEnv} {status : ℤ}
    (h : chooseServer env x = some (y, status)) :
    Moves loose (ChosenSlot x.session.clientReadBuffer.cells x.sys.chooser) x y := by
  obtain ⟨c, code, hc, hor⟩ := chooseServer_cases h
  have hchoose : Moves loose (ChosenSlot x.session.clientReadBuffer.cells x.sys.chooser) x
      (x.updateSys fun s => { s with chooser := c }) := .single (.choose c code hc)
  rcases hor with ⟨-, -, rfl⟩ | ⟨rfl, rfl, -⟩
  · exact hchoose.tail (.chose status)
  · -- connecting does not move the cursors, so the slots are those of the choice
    have hslot : ∀ kind slot, (match kind with
        | .member => slot = Balancer.memberSlot c.nextMember
        | .clone => c.useClone = true ∧ slot = Balancer.cloneSlot c.nextClone) →
          ChosenSlot x.session.clientReadBuffer.cells x.sys.chooser kind slot :=
      fun _ _ hs => ⟨c, hc, hs⟩
    refine (hchoose.trans ?_).tail (.chose status)
    exact moves_connectServer (x := x.updateSys fun s => { s with chooser := c }) hok how env
      (hslot .member _ rfl) fun huse => hslot .clone _ ⟨huse, rfl⟩

/-- **The accept branch is a chain of moves** that connects only to slots that
`choose_server` may choose. -/
theorem moves_acceptClient (hok : x.session.Ok) (how : x.Owns)
    (hclient : x.session.clientfd = none) {fd : Fd} (hfd : x.sys.isOpen fd = false)
    {env : AcceptEnv} (h : acceptClient fd env (x.updateSys fun s => s.opened fd) = some y) :
    Moves (fun _ => False) (ChosenSlot x.session.clientReadBuffer.cells x.sys.chooser) x y := by
  have hout : Moves (fun _ => False) (ChosenSlot x.session.clientReadBuffer.cells x.sys.chooser) x
      ((x.updateSys fun s => s.opened fd).handOut fd) := .single (.handOut fd hfd hclient)
  obtain ⟨hok₁, how₁⟩ := (frame_moves hout).sound hok how
  have hregister := hout.tail (.register fd rfl)
  -- refused, waiting for the request, or given its servers
  obtain ⟨hok₂, how₂⟩ := (frame_moves hregister).sound hok how
  rcases acceptClient_cases h with rfl | ⟨-, rfl⟩ | ⟨-, z, status, hz, hor⟩
  · exact hout.trans (moves_deleteSession hok₁ _)
  · exact hregister
  · have hchoose := hregister.trans (moves_chooseServer hok₂ how₂ hz)
    obtain ⟨hok₃, -⟩ := (frame_moves hchoose).sound hok how
    rcases hor with ⟨-, rfl⟩ | ⟨-, rfl⟩
    · exact hchoose.trans (moves_deleteSession hok₃ _)
    · refine hchoose.tail (.quiet (quiet_update z (.of_eq rfl rfl rfl rfl rfl rfl rfl rfl) ?_))
      intro hokz
      exact hokz.of_sameLinks (.of_eq rfl rfl rfl rfl rfl rfl rfl rfl) rfl hokz.client_le
        hokz.member_le hokz.clone_le hokz.quiet

end Chains

end OctopusLB
