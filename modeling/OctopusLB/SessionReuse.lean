/-
# Sessions return to the pool clean

`delete_session` decides from the `CONNECTED` bits what to close, and
`connect_server` decides from the descriptors whether to connect.  A descriptor
that is stored without its bit is therefore never closed and keeps a later
client from being connected.  `connect_server` stores one where `epoll_ctl`
fails after the descriptor has been stored; `returnsClean_of_registered` says
that nothing else does.
-/
import OctopusLB.SelectionFacts
import OctopusLB.SingleRelease

namespace OctopusLB

variable {n : ℕ} {L : Type}

/-! ## Clean sessions -/

/-- What a session in the pool looks like, but for the contents of its buffers
and its stale server pointers. -/
structure Session.Clean (s : Session) : Prop where
  state : s.state = .unused
  fds : ∀ role, s.fdOf role = none
  clientUsedBuffer : s.clientUsedBuffer = 0
  memberUsedBuffer : s.memberUsedBuffer = 0
  cloneUsedBuffer : s.cloneUsedBuffer = 0

/-- No descriptor is stored without its bit. -/
def Session.NoResidue (s : Session) : Prop := ∀ kind, ¬ s.Residual kind

theorem Session.clean_initial (i : ℕ) : (Session.initial i).Clean :=
  ⟨rfl, fun role => by cases role <;> rfl, rfl, rfl, rfl⟩

theorem Session.Clean.noResidue {s : Session} (h : s.Clean) : s.NoResidue := by
  rintro kind ⟨hfd, -⟩
  apply hfd
  rw [Session.serverfd_eq_fdOf]
  exact h.fds kind.role

section Delete

variable {x y : Ctx n L}

/-- Giving up one server leaves the descriptor of the other. -/
theorem serverfd_disconnectServer (kind kind' : ServerKind) :
    (disconnectServer kind x).session.serverfd kind'
      = if kind' = kind then none else x.session.serverfd kind' := by
  rw [session_disconnectServer]
  split_ifs with hfd hk hk
  · subst hk
    cases kind' <;> rfl
  · exact (sameSide_clearServer hk _).serverfd
  · subst hk
    simpa using hfd
  · rfl

theorem serverfd_disconnectClient (kind : ServerKind) :
    (disconnectClient x).session.serverfd kind = x.session.serverfd kind ∧
      (disconnectClient x).session.connected kind = x.session.connected kind := by
  rw [session_disconnectClient]
  split_ifs <;> cases kind <;> exact ⟨rfl, rfl⟩

/-- `delete_session` gives up the servers whose bit is set. -/
theorem serverfd_disconnectAll (hok : x.session.Ok) (kind : ServerKind) :
    (disconnectAll x).session.serverfd kind
      = if x.session.connected kind then none else x.session.serverfd kind := by
  have hclient : ∀ kind, (if x.session.state.cliConnected then disconnectClient x
        else x).session.serverfd kind = x.session.serverfd kind ∧
      (if x.session.state.cliConnected then disconnectClient x else x).session.connected kind
        = x.session.connected kind := by
    intro kind
    split_ifs
    · exact serverfd_disconnectClient kind
    · exact ⟨rfl, rfl⟩
  have hok' : (if x.session.state.cliConnected then disconnectClient x else x).session.Ok := by
    split_ifs
    · exact ok_disconnectClient hok
    · exact hok
  have hserver : ∀ (z : Ctx n L) (kind kind' : ServerKind), z.session.Ok →
      (if z.session.connected kind then disconnectServer kind z else z).session.serverfd kind'
        = (if kind' = kind ∧ z.session.connected kind = true then none
          else z.session.serverfd kind') ∧
      (if z.session.connected kind then disconnectServer kind z else z).session.connected kind'
        = (if kind' = kind then false else z.session.connected kind') := by
    intro z kind kind' hz
    by_cases hc : z.session.connected kind = true
    · rw [if_pos hc, serverfd_disconnectServer, connected_disconnectServer hz]
      simp only [hc, and_true, and_self]
    · rw [if_neg hc, if_neg fun h => hc h.2]
      refine ⟨rfl, ?_⟩
      split_ifs with hk
      · rw [hk]
        exact Bool.eq_false_of_not_eq_true hc
      · rfl
  unfold disconnectAll disconnectMember disconnectClone
  dsimp only
  rw [← (hclient kind).1, ← (hclient kind).2]
  generalize (if x.session.state.cliConnected then disconnectClient x else x) = z at hok'
  have hok'' : (if z.session.connected .member then disconnectServer .member z
      else z).session.Ok := by
    split_ifs
    · exact ok_disconnectServer hok' .member
    · exact hok'
  have hm := hserver z .member
  have ho := (hserver _ .clone kind hok'').1
  refine ho.trans ?_
  rw [(hm .clone hok').2, (hm kind hok').1]
  cases kind <;> simp

/-- What `delete_session` leaves of a descriptor. -/
theorem fdOf_deleteSession (hok : x.session.Ok) (reason : Reason) (role : Role) :
    (deleteSession reason x).session.fdOf role = none ∨
      (deleteSession reason x).session.fdOf role = x.session.fdOf role := by
  have hfds : (deleteSession reason x).session.fdOf role = (disconnectAll x).session.fdOf role := by
    rw [deleteSession_eq]
    cases role <;> rfl
  have hserver : ∀ kind : ServerKind, (disconnectAll x).session.serverfd kind = none ∨
      (disconnectAll x).session.serverfd kind = x.session.serverfd kind := by
    intro kind
    rw [serverfd_disconnectAll hok]
    split_ifs
    · exact Or.inl rfl
    · exact Or.inr rfl
  rw [hfds]
  cases role
  · exact Or.inl (clientfd_disconnectAll hok)
  · exact hserver .member
  · exact hserver .clone

/-- **`delete_session` leaves the session clean** exactly if no descriptor was
stored without its bit. -/
theorem clean_deleteSession_iff (hok : x.session.Ok) (reason : Reason) :
    (deleteSession reason x).session.Clean ↔ x.session.NoResidue := by
  have hfds : ∀ role, (deleteSession reason x).session.fdOf role
      = (disconnectAll x).session.fdOf role := by
    intro role
    rw [deleteSession_eq]
    cases role <;> rfl
  constructor
  · rintro hclean kind ⟨hfd, hc⟩
    have hnone := (hfds kind.role).symm.trans (hclean.fds kind.role)
    rw [← Session.serverfd_eq_fdOf, serverfd_disconnectAll hok, hc, if_neg (by decide)] at hnone
    exact hfd hnone
  · intro hres
    refine ⟨rfl, fun role => ?_, rfl, rfl, rfl⟩
    have hnone : ∀ kind, (disconnectAll x).session.serverfd kind = none := by
      intro kind
      rw [serverfd_disconnectAll hok]
      split_ifs with hc
      · rfl
      · by_contra hfd
        exact hres kind ⟨hfd, Bool.eq_false_of_not_eq_true hc⟩
    rw [hfds]
    cases role
    · exact clientfd_disconnectAll hok
    · exact hnone .member
    · exact hnone .clone

end Delete

/-! ## Calls leave no residue -/

/-- What holds of every session at all times: no residue, and clean unless in
use. -/
structure CleanRecord (s : Session) (h : History) : Prop where
  noResidue : s.NoResidue
  clean : h.inUse = false → s.Clean

theorem CleanRecord.of_clean {s : Session} {h : History} (hs : s.Clean) : CleanRecord s h :=
  ⟨hs.noResidue, fun _ => hs⟩

theorem CleanRecord.of_inUse {s : Session} {h : History} (hs : s.NoResidue)
    (hin : h.inUse = true) : CleanRecord s h :=
  ⟨hs, fun hout => absurd (hin.symm.trans hout) (by decide)⟩

section Calls

variable {x y : Ctx n L}

theorem noResidue_of_sameLinks {s s' : Session} (hl : SameLinks s s') (h : s.NoResidue) :
    s'.NoResidue := by
  rintro kind ⟨hfd, hc⟩
  refine h kind ⟨?_, (hl.connected kind).symm.trans hc⟩
  rwa [Session.serverfd_eq_fdOf, hl.fdOf, ← Session.serverfd_eq_fdOf] at hfd

theorem noResidue_disconnectServer (hok : x.session.Ok) (h : x.session.NoResidue)
    (kind : ServerKind) : (disconnectServer kind x).session.NoResidue := by
  rintro kind' ⟨hfd, hc⟩
  rw [serverfd_disconnectServer] at hfd
  rw [connected_disconnectServer hok] at hc
  split_ifs at hfd hc with hk
  · exact hfd rfl
  · exact h kind' ⟨hfd, hc⟩

/-- A call for a session in use. -/
theorem cleanRecord_effect (hok : x.session.Ok) (h : x.session.NoResidue)
    (hin : x.history.inUse = true) {call : Call} (he : Effect x call y) :
    CleanRecord y.session y.history := by
  have hquiet : ∀ {z : Ctx n L}, Quiet x z → CleanRecord z.session z.history := by
    intro z hz
    obtain ⟨hs, heq, htraffic⟩ := hz.history
    refine .of_inUse (noResidue_of_sameLinks hz.links h) ?_
    rw [heq, History.inUse_append fun o ho => Obs.handsOut_of_isTraffic (htraffic o ho)]
    exact hin
  cases he with
  | clientEof => exact .of_clean ((clean_deleteSession_iff hok _).mpr h)
  | clientGone => exact .of_clean ((clean_deleteSession_iff hok _).mpr h)
  | memberGone => exact .of_clean ((clean_deleteSession_iff hok _).mpr h)
  | delivered fd w hw hm =>
      have hsent := quiet_sendToClient x x.session.memberUsedBuffer
      exact .of_clean ((clean_deleteSession_iff (hsent.ok hok) _).mpr
        (noResidue_of_sameLinks hsent.links h))
  | fromClient fd r env bytes hr hne =>
      have hreceived := quiet_receiveFromClient (Sys.read_eq_some hr).2
      have hokr := hreceived.ok hok
      have hcopy : (copyToClone bytes.length (receiveFromClient bytes x)).session.NoResidue := by
        unfold copyToClone
        split_ifs
        · exact noResidue_disconnectServer hokr (noResidue_of_sameLinks hreceived.links h) .clone
        · exact noResidue_of_sameLinks (hreceived.links.trans (sameLinks_appendClone _ _)) h
        · exact noResidue_of_sameLinks hreceived.links h
      refine .of_inUse ?_ ?_
      · rw [session_forwardClientRead]
        exact noResidue_of_sameLinks (sameLinks_afterClientRead _) hcopy
      · rw [history_forwardClientRead]
        exact hin
  | toClient fd w k hw hm =>
      exact hquiet (((quiet_sendToClient x k).trans (quiet_freeMember _)).trans
        (quiet_maintainClientWrite _))
  | fromMember fd r env bytes hr hne =>
      exact hquiet ((quiet_receiveFromMember (Sys.read_eq_some hr).2).trans
        (quiet_maintainMemberRead _))
  | toMember fd w k hw =>
      exact hquiet ((quiet_sendToMember x k).trans (quiet_maintainMemberWrite _))
  | fromClone fd r env bytes => exact hquiet (quiet_receiveFromClone x bytes)
  | toClone fd w k hw => exact hquiet ((quiet_sendToClone x k).trans (quiet_watch _ .clone _))
  | disconnected call kind hrole =>
      refine .of_inUse (noResidue_disconnectServer hok h kind) ?_
      rw [history_disconnectServer]
      exact hin

/-- A write handler that is called for a clean session with a descriptor that is
no longer open. -/
theorem cleanRecord_write_closed (hok : x.session.Ok) (h : x.session.Clean) {fd : Fd}
    (hfd : x.sys.isOpen fd = false) {role : Role} {w : WriteOutcome} [LoadArith L]
    (hy : handle (.write role fd w) x = some y) : CleanRecord y.session y.history := by
  have hw : ∀ size, x.sys.write fd size w = none := fun size => Sys.write_of_closed size w hfd
  have hnone : ∀ kind, x.session.serverfd kind = none := by
    intro kind
    rw [Session.serverfd_eq_fdOf]
    exact h.fds kind.role
  cases role with
  | client =>
      obtain rfl := Option.some.inj hy
      unfold clientWrite
      rw [hw]
      exact .of_clean ((clean_deleteSession_iff hok _).mpr h.noResidue)
  | member =>
      obtain rfl := Option.some.inj hy
      unfold memberWrite
      rw [hw]
      show CleanRecord (disconnectServer .member x).session (disconnectServer .member x).history
      rw [disconnectServer_of_none x (hnone .member)]
      exact .of_clean h
  | clone =>
      obtain rfl := Option.some.inj hy
      unfold cloneWrite
      rw [hw]
      show CleanRecord (disconnectServer .clone x).session (disconnectServer .clone x).history
      rw [disconnectServer_of_none x (hnone .clone)]
      exact .of_clean h

/-- `delete_session` closes the descriptor of a connected member. -/
theorem isOpen_deleteSession_member (hm : x.session.state.memConnected = true)
    {fd : Fd} (hfd : x.session.memberfd = some fd) (reason : Reason) :
    (deleteSession reason x).sys.isOpen fd = false := by
  have hclosed : ∀ z : Ctx n L, z.session.memberfd = some fd →
      (disconnectServer .member z).sys.isOpen fd = false := by
    intro z hz
    have hserver : z.session.serverfd .member = some fd := hz
    unfold disconnectServer
    rw [hserver]
    exact Function.update_self ..
  have hclient : (if x.session.state.cliConnected then disconnectClient x
        else x).session.memberfd = some fd ∧
      (if x.session.state.cliConnected then disconnectClient x
        else x).session.state.memConnected = true := by
    split_ifs
    · rw [session_disconnectClient]
      split_ifs <;> exact ⟨hfd, hm⟩
    · exact ⟨hfd, hm⟩
  rw [deleteSession_eq]
  show (disconnectAll x).sys.isOpen fd = false
  unfold disconnectAll disconnectMember disconnectClone
  dsimp only
  generalize (if x.session.state.cliConnected then disconnectClient x else x) = z at hclient ⊢
  rw [if_pos hclient.2]
  split_ifs
  · exact isOpen_disconnectServer (hclosed _ hclient.1)
  · exact hclosed _ hclient.1

variable [LoadArith L]

/-- A read that ends the session closes the descriptor it was called with. -/
theorem inUse_or_closed_of_read (hok : x.session.Ok) (h : x.session.NoResidue)
    (hin : x.history.inUse = true) {role : Role} {fd : Fd} (hfd : x.session.fdOf role = some fd)
    {r : ReadOutcome} {env : ConnectEnv} (hy : handle (.read role fd r env) x = some y) :
    y.history.inUse = true ∨ y.sys.isOpen fd = false := by
  cases role with
  | client =>
      change clientRead fd r env x = some y at hy
      rw [clientRead_of_not_fresh hok.fresh, Option.some.injEq] at hy
      rcases hr : x.sys.read fd (messageSizeLimit - x.session.clientUsedBuffer) r with
        _ | _ | ⟨b, bs⟩ <;> rw [hr] at hy <;> subst hy
      · exact Or.inr (isOpen_deleteSession hok hfd _)
      · exact Or.inr (isOpen_deleteSession hok hfd _)
      · left
        rw [history_forwardClientRead]
        exact hin
  | member =>
      have hm : x.session.state.memConnected = true := by
        by_contra hm
        refine h .member ⟨?_, Bool.eq_false_of_not_eq_true hm⟩
        show x.session.memberfd ≠ none
        rw [show x.session.memberfd = some fd from hfd]
        simp
      have hgone : ∀ z, z = (if x.session.state.cliWriteReady = false
          then deleteSession .memberGone x else disconnectMember x) →
            z.history.inUse = true ∨ z.sys.isOpen fd = false := by
        rintro z rfl
        split_ifs
        · exact Or.inr (isOpen_deleteSession_member hm hfd _)
        · left
          show (disconnectServer .member x).history.inUse = true
          rw [history_disconnectServer]
          exact hin
      obtain rfl := Option.some.inj hy
      unfold memberRead
      rcases x.sys.read fd (messageSizeLimit - x.session.memberUsedBuffer) r with _ | _ | ⟨b, bs⟩
      · exact hgone _ rfl
      · exact hgone _ rfl
      · exact Or.inl hin
  | clone =>
      left
      obtain rfl := Option.some.inj hy
      unfold cloneRead
      rcases x.sys.read fd messageSizeLimit r with _ | _ | ⟨b, bs⟩
      · exact (congrArg History.inUse (history_disconnectServer x .clone)).trans hin
      · exact (congrArg History.inUse (history_disconnectServer x .clone)).trans hin
      · exact hin

/-- **An event keeps the record.** -/
theorem cleanRecord_serve (hok : x.session.Ok) (h : CleanRecord x.session x.history) {e : Event}
    {env : EventEnv n} (hy : serve e env x = some y) : CleanRecord y.session y.history := by
  unfold serve at hy
  cases hrole : x.session.roleOf e.fd with
  | none =>
      rw [hrole] at hy
      exact Option.some.inj hy ▸ h
  | some role =>
      rw [hrole] at hy
      have hfd := Session.fdOf_of_roleOf hrole
      -- a session that holds a descriptor is in use
      have hin : x.history.inUse = true := by
        by_contra hout
        have hnone := (h.clean (Bool.eq_false_of_not_eq_true hout)).fds role
        rw [hfd] at hnone
        cases hnone
      have hcall : ∀ {call : Call} {v : Ctx n L}, handle call x = some v →
          CleanRecord v.session v.history := fun hv =>
        cleanRecord_effect hok h.noResidue hin (effect_of_handle hok.fresh hv)
      rcases serveRole_cases hy with ⟨err, hhangup⟩ | ⟨-, -, z, hread, hwrite⟩
      · exact hcall hhangup
      have hz : z.session.Ok ∧ CleanRecord z.session z.history ∧
          (z.history.inUse = true ∨ z.sys.isOpen e.fd = false) := by
        rcases hread with ⟨rfl, -⟩ | ⟨-, hread⟩
        · exact ⟨hok, h, Or.inl hin⟩
        · exact ⟨ok_handle hok hread, hcall hread,
            inUse_or_closed_of_read hok h.noResidue hin hfd hread⟩
      obtain ⟨hokz, hrecord, hor⟩ := hz
      rcases hwrite with ⟨rfl, -⟩ | ⟨-, hwrite⟩
      · exact hrecord
      by_cases hinz : z.history.inUse = true
      · exact cleanRecord_effect hokz hrecord.noResidue hinz (effect_of_handle hokz.fresh hwrite)
      · exact cleanRecord_write_closed hokz (hrecord.clean (Bool.eq_false_of_not_eq_true hinz))
          (hor.resolve_left hinz) hwrite

end Calls

/-! ## Accepting leaves no residue unless a registration fails -/

/-- The member half of `connect_server` comes to `epoll_ctl`, which fails. -/
structure MemberConnect.FailsToRegister (env : MemberConnect) (x : Ctx n L) : Prop where
  memberfd : x.session.memberfd = none
  socket : x.sys.newFd env.socket ≠ none
  nonblock : env.nonblock = true
  bind : env.bind = true
  connect : env.connect = true
  epollAdd : env.epollAdd = false

/-- The clone half of `connect_server` comes to `epoll_ctl`, which fails. -/
structure CloneConnect.FailsToRegister (env : CloneConnect) (x : Ctx n L) : Prop where
  useClone : x.sys.chooser.useClone = true
  clonefd : x.session.clonefd = none
  socket : x.sys.newFd env.socket ≠ none
  nonblock : env.nonblock = true
  sndbuf : env.sndbuf = true
  rcvbuf : env.rcvbuf = true
  reuseaddr : env.reuseaddr = true
  keepalive : env.keepalive = true
  bind : env.bind = true
  connect : env.connect = true
  epollAdd : env.epollAdd = false

/-- One of the two does. -/
def ConnectEnv.FailsToRegister (env : ConnectEnv) (x : Ctx n L) : Prop :=
  env.member.FailsToRegister x ∨
    ((connectMember env.member x).2 ≠ -1 ∧
      env.clone.FailsToRegister (connectMember env.member x).1)

section Connects

variable {x y : Ctx n L}

/-- An established connection has its bit. -/
theorem noResidue_establish {kind : ServerKind} {fd : Fd} {slot : ℕ} (h : x.session.NoResidue) :
    ((x.associate kind fd slot).establish kind fd slot).session.NoResidue := by
  rintro kind' ⟨hfd, hc⟩
  cases kind <;> cases kind'
  · cases hc
  · exact h .clone ⟨hfd, hc⟩
  · exact h .member ⟨hfd, hc⟩
  · cases hc

theorem noResidue_connectMember {env : MemberConnect} (henv : ¬ env.FailsToRegister x)
    (h : x.session.NoResidue) : (connectMember env x).1.session.NoResidue := by
  unfold connectMember
  cases hm : x.session.memberfd with
  | some fd => exact h
  | none =>
      cases hs : x.sys.newFd env.socket with
      | none => exact h
      | some serverfd =>
          dsimp only
          split_ifs with hnonblock hbind hconnect hadd
          · exact h
          · exact h
          · exact h
          · exact absurd ⟨hm, by rw [hs]; simp, by simpa using hnonblock, by simpa using hbind,
              by simpa using hconnect, by simpa using hadd⟩ henv
          · exact noResidue_establish (x := x.updateSys fun y => y.opened serverfd) h

theorem noResidue_connectClone {env : CloneConnect} (henv : ¬ env.FailsToRegister x)
    (h : x.session.NoResidue) : (connectClone env x).1.session.NoResidue := by
  by_cases huse : x.sys.chooser.useClone = true ∧ x.session.clonefd = none
  · cases hs : x.sys.newFd env.socket with
    | none =>
        rw [connectClone_of_noSocket huse hs]
        exact h
    | some clonefd =>
        rw [connectClone_of_socket huse hs]
        dsimp only
        split_ifs with hconfigured hbind hconnect hadd
        · exact h
        · exact h
        · exact h
        · obtain ⟨hnonblock, hsndbuf, hrcvbuf, hreuseaddr, hkeepalive⟩ :=
            env.configured_iff.mp (by simpa using hconfigured)
          exact absurd ⟨huse.1, huse.2, by rw [hs]; simp, hnonblock, hsndbuf, hrcvbuf, hreuseaddr,
            hkeepalive, by simpa using hbind, by simpa using hconnect, by simpa using hadd⟩ henv
        · exact noResidue_establish (x := x.updateSys fun y => y.opened clonefd) h
  · unfold connectClone
    rw [if_neg huse]
    exact h

theorem noResidue_connectServer {env : ConnectEnv} (henv : ¬ env.FailsToRegister x)
    (h : x.session.NoResidue) : (connectServer env x).1.session.NoResidue := by
  have hmember := noResidue_connectMember (fun hfails => henv (Or.inl hfails)) h
  unfold connectServer
  split_ifs with hstatus
  · exact hmember
  · exact noResidue_connectClone (fun hfails => henv (Or.inr ⟨hstatus, hfails⟩)) hmember

end Connects

section Accept

variable [LoadArith L] {x y : Ctx n L}

/-- `choose_server` finds a member, and then `connect_server` fails to register a
descriptor. -/
def ConnectEnv.FailsAfterChoice (env : ConnectEnv) (x : Ctx n L) : Prop :=
  ∃ c, chooseCandidate x.session.clientReadBuffer.cells x.sys.chooser = some (c, 0) ∧
    env.FailsToRegister (x.updateSys fun y => { y with chooser := c })

/-- The accept branch chooses a server, and that happens. -/
structure AcceptEnv.FailsToRegister (env : AcceptEnv) (fd : Fd) (x : Ctx n L) : Prop where
  epollAdd : env.epollAdd = true
  algorithm : x.sys.chooser.balancer.algorithm ≠ .hash ∧
    x.sys.chooser.balancer.algorithm ≠ .static
  connect : env.connect.FailsAfterChoice ((x.handOut fd).updateSys fun y => y.register fd)

theorem noResidue_chooseServer {env : ConnectEnv} (henv : ¬ env.FailsAfterChoice x)
    (h : x.session.NoResidue) {status : ℤ} (hy : chooseServer env x = some (y, status)) :
    y.session.NoResidue := by
  obtain ⟨c, code, hc, ⟨-, -, rfl⟩ | ⟨rfl, rfl, -⟩⟩ := chooseServer_cases hy
  · exact h
  · exact noResidue_connectServer (x := x.updateSys fun s => { s with chooser := c })
      (fun hfails => henv ⟨c, hc, hfails⟩) h

/-- **The accept branch keeps the record**: whatever else fails, the session is
clean again or in use without residue. -/
theorem cleanRecord_acceptClient {fd : Fd} {env : AcceptEnv} (hok : x.session.Ok) (how : x.Owns)
    (hx : x.session.Clean) (hfd : x.sys.isOpen fd = false)
    (henv : ¬ env.FailsToRegister fd (x.updateSys fun s => s.opened fd))
    (hy : acceptClient fd env (x.updateSys fun s => s.opened fd) = some y) :
    CleanRecord y.session y.history := by
  have hout : Moves (fun _ => False) (ChosenSlot x.session.clientReadBuffer.cells x.sys.chooser) x
      ((x.updateSys fun s => s.opened fd).handOut fd) := .single (.handOut fd hfd (hx.fds .client))
  obtain ⟨hok₁, how₁⟩ := (frame_moves hout).sound hok how
  have hres : ((x.updateSys fun s => s.opened fd).handOut fd).session.NoResidue := by
    rintro kind ⟨hkind, hc⟩
    refine hx.noResidue kind ⟨?_, ?_⟩
    · cases kind <;> exact hkind
    · cases kind <;> exact hc
  unfold acceptClient at hy
  dsimp only at hy
  by_cases hadd : (!env.epollAdd) = true
  · rw [if_pos hadd, Option.some.injEq] at hy
    rw [← hy]
    exact .of_clean ((clean_deleteSession_iff hok₁ _).mpr hres)
  have hregister := hout.tail (.register fd rfl)
  obtain ⟨hok₂, how₂⟩ := (frame_moves hregister).sound hok how
  rw [if_neg hadd] at hy
  split_ifs at hy with halg
  · obtain ⟨⟨z, status⟩, hz, hy⟩ := Option.map_eq_some_iff.mp hy
    have hresz : z.session.NoResidue :=
      noResidue_chooseServer (fun hfails => henv ⟨by simpa using hadd, halg, hfails⟩) hres hz
    have hokz : z.session.Ok := ((frame_moves (hregister.trans
      (moves_chooseServer hok₂ how₂ hz))).sound hok how).1
    dsimp only at hy
    split_ifs at hy
    · rw [← hy]
      exact .of_clean ((clean_deleteSession_iff hokz _).mpr hresz)
    · rw [← hy]
      refine .of_inUse (noResidue_of_sameLinks (s := z.session)
        (.of_eq rfl rfl rfl rfl rfl rfl rfl rfl) hresz) ?_
      obtain ⟨hs, heq, hnone⟩ := handsOut_chooseServer hz
      show z.history.inUse = true
      rw [heq, History.inUse_append hnone]
      rfl
  · rw [Option.some.injEq] at hy
    rw [← hy]
    exact .of_inUse hres rfl

end Accept

/-! ## A clean session is as good as a new one -/

/-- Two views that differ at most in the history, the contents of the session's
buffers and the server pointers of the sides without a descriptor. -/
structure SameButLeftovers (x x' : Ctx n L) : Prop where
  sid : x'.sid = x.sid
  sys : x'.sys = x.sys
  state : x'.session.state = x.session.state
  fdOf : ∀ role, x'.session.fdOf role = x.session.fdOf role
  clientUsedBuffer : x'.session.clientUsedBuffer = x.session.clientUsedBuffer
  memberUsedBuffer : x'.session.memberUsedBuffer = x.session.memberUsedBuffer
  cloneUsedBuffer : x'.session.cloneUsedBuffer = x.session.cloneUsedBuffer
  server : ∀ kind, x.session.serverfd kind ≠ none →
    x'.session.server kind = x.session.server kind

namespace SameButLeftovers

variable {x x' : Ctx n L}

theorem updateSys (h : SameButLeftovers x x') (f : Sys n L → Sys n L) :
    SameButLeftovers (x.updateSys f) (x'.updateSys f) :=
  { h with sys := congrArg f h.sys }

theorem observe (h : SameButLeftovers x x') (o : Obs) :
    SameButLeftovers (x.observe o) (x'.observe o) := { h with }

/-- `STATE_FRESH` is cleared. -/
theorem clearFresh (h : SameButLeftovers x x') :
    SameButLeftovers (x.updateState fun state => { state with fresh := false })
      (x'.updateState fun state => { state with fresh := false }) where
  sid := h.sid
  sys := h.sys
  state := by
    show ({ x'.session.state with fresh := false } : SessionState) = _
    rw [h.state]
    rfl
  fdOf := by
    intro role
    have hrole := h.fdOf role
    cases role <;> exact hrole
  clientUsedBuffer := h.clientUsedBuffer
  memberUsedBuffer := h.memberUsedBuffer
  cloneUsedBuffer := h.cloneUsedBuffer
  server := by
    intro kind hfd
    cases kind
    · exact h.server .member hfd
    · exact h.server .clone hfd

theorem serverfd (h : SameButLeftovers x x') (kind : ServerKind) :
    x'.session.serverfd kind = x.session.serverfd kind := by
  rw [Session.serverfd_eq_fdOf, Session.serverfd_eq_fdOf, h.fdOf]

theorem handOut (h : SameButLeftovers x x') (fd : Fd) :
    SameButLeftovers (x.handOut fd) (x'.handOut fd) where
  sid := h.sid
  sys := by
    show (x'.sys.takeSession x'.sid).assign fd (some x'.sid) = _
    rw [h.sys, h.sid]
    rfl
  state := by
    show ({ x'.session.state with cliConnected := true, cliReadReady := true } : SessionState) = _
    rw [h.state]
    rfl
  fdOf := by
    intro role
    cases role
    · rfl
    · exact h.fdOf .member
    · exact h.fdOf .clone
  clientUsedBuffer := h.clientUsedBuffer
  memberUsedBuffer := h.memberUsedBuffer
  cloneUsedBuffer := h.cloneUsedBuffer
  server := by
    intro kind hfd
    cases kind
    · exact h.server .member hfd
    · exact h.server .clone hfd

theorem associate (h : SameButLeftovers x x') (kind : ServerKind) (fd : Fd) (slot : ℕ) :
    SameButLeftovers (x.associate kind fd slot) (x'.associate kind fd slot) where
  sid := h.sid
  sys := by
    show x'.sys.assign fd (some x'.sid) = x.sys.assign fd (some x.sid)
    rw [h.sys, h.sid]
  state := by cases kind <;> exact h.state
  fdOf := by
    intro role
    have hrole := h.fdOf role
    cases kind <;> cases role <;> first | rfl | exact hrole
  clientUsedBuffer := by cases kind <;> exact h.clientUsedBuffer
  memberUsedBuffer := by cases kind <;> exact h.memberUsedBuffer
  cloneUsedBuffer := by cases kind <;> exact h.cloneUsedBuffer
  server := by
    intro kind' hfd
    cases kind <;> cases kind' <;> first
      | rfl
      | exact h.server .member hfd
      | exact h.server .clone hfd

theorem establish (h : SameButLeftovers x x') (kind : ServerKind) (fd : Fd) (slot : ℕ) :
    SameButLeftovers (x.establish kind fd slot) (x'.establish kind fd slot) where
  sid := h.sid
  sys := congrArg (fun y : Sys n L => (y.register fd).modifyServer (some slot)
    fun s => { s with c := s.c + 1 }) h.sys
  state := by
    cases kind
    · show ({ x'.session.state with memConnected := true, memReadReady := true } : SessionState) = _
      rw [h.state]
      rfl
    · show ({ x'.session.state with cloConnected := true, cloReadReady := true } : SessionState) = _
      rw [h.state]
      rfl
  fdOf := by
    intro role
    have hrole := h.fdOf role
    cases kind <;> cases role <;> exact hrole
  clientUsedBuffer := by cases kind <;> exact h.clientUsedBuffer
  memberUsedBuffer := by cases kind <;> exact h.memberUsedBuffer
  cloneUsedBuffer := by cases kind <;> exact h.cloneUsedBuffer
  server := by
    intro kind' hfd
    cases kind <;> cases kind' <;> first
      | exact h.server .member hfd
      | exact h.server .clone hfd

/-- Two outcomes of connecting: the same status, and states that differ in
leftovers. -/
def Outcome (p p' : Ctx n L × ℤ) : Prop := SameButLeftovers p.1 p'.1 ∧ p'.2 = p.2

/-- Both take the same branch. -/
theorem rel_ite {α : Type*} {R : α → α → Prop} {b : Prop} [Decidable b] {u u' v v' : α}
    (hu : R u u') (hv : R v v') : R (if b then u else v) (if b then u' else v') := by
  split_ifs
  · exact hu
  · exact hv

theorem connectMember (h : SameButLeftovers x x') (env : MemberConnect) :
    Outcome (OctopusLB.connectMember env x) (OctopusLB.connectMember env x') := by
  have hfd : x'.session.memberfd = x.session.memberfd := h.fdOf .member
  unfold OctopusLB.connectMember
  rw [hfd, h.sys]
  cases x.session.memberfd with
  | some fd => exact ⟨h, rfl⟩
  | none =>
      cases x.sys.newFd env.socket with
      | none => exact ⟨h, rfl⟩
      | some serverfd =>
          have hopened := h.updateSys fun y => y.opened serverfd
          have hslot : (x'.updateSys fun y => y.opened serverfd).sys.chooser.nextMember
              = (x.updateSys fun y => y.opened serverfd).sys.chooser.nextMember := by
            rw [hopened.sys]
          dsimp only
          rw [hslot]
          have hassociated := hopened.associate .member serverfd
            (Balancer.memberSlot (x.updateSys fun y => y.opened serverfd).sys.chooser.nextMember)
          have hfails : ∀ status : ℤ, Outcome (x.updateSys fun y => y.opened serverfd, status)
              (x'.updateSys fun y => y.opened serverfd, status) := fun _ => ⟨hopened, rfl⟩
          -- nonblock, bind, connect; then epoll_ctl
          apply rel_ite (hfails _)
          apply rel_ite (hfails _)
          apply rel_ite (hfails _)
          apply rel_ite
          · exact ⟨hassociated, rfl⟩
          · exact ⟨hassociated.establish .member serverfd _, rfl⟩

theorem connectClone (h : SameButLeftovers x x') (env : CloneConnect) :
    Outcome (OctopusLB.connectClone env x) (OctopusLB.connectClone env x') := by
  have hfd : x'.session.clonefd = x.session.clonefd := h.fdOf .clone
  unfold OctopusLB.connectClone
  rw [hfd, h.sys]
  by_cases huse : x.sys.chooser.useClone = true ∧ x.session.clonefd = none
  · rw [if_pos huse, if_pos huse]
    cases x.sys.newFd env.socket with
    | none => exact ⟨h, rfl⟩
    | some clonefd =>
        have hopened := h.updateSys fun y => y.opened clonefd
        have hslot : (x'.updateSys fun y => y.opened clonefd).sys.chooser.nextClone
            = (x.updateSys fun y => y.opened clonefd).sys.chooser.nextClone := by
          rw [hopened.sys]
        dsimp only
        rw [hslot]
        have hassociated := hopened.associate .clone clonefd
          (Balancer.cloneSlot (x.updateSys fun y => y.opened clonefd).sys.chooser.nextClone)
        have hfails : ∀ status : ℤ, Outcome (x.updateSys fun y => y.opened clonefd, status)
            (x'.updateSys fun y => y.opened clonefd, status) := fun _ => ⟨hopened, rfl⟩
        -- nonblock, the four socket options, bind, connect; then epoll_ctl
        apply rel_ite (hfails _)
        apply rel_ite (hfails _)
        apply rel_ite (hfails _)
        apply rel_ite (hfails _)
        apply rel_ite (hfails _)
        apply rel_ite (hfails _)
        apply rel_ite (hfails _)
        apply rel_ite
        · exact ⟨hassociated, rfl⟩
        · exact ⟨hassociated.establish .clone clonefd _, rfl⟩
  · rw [if_neg huse, if_neg huse]
    exact ⟨h, rfl⟩

theorem connectServer (h : SameButLeftovers x x') (env : ConnectEnv) :
    Outcome (OctopusLB.connectServer env x) (OctopusLB.connectServer env x') := by
  obtain ⟨hmember, hstatus⟩ := h.connectMember env.member
  unfold OctopusLB.connectServer
  rw [hstatus]
  apply rel_ite
  · exact ⟨hmember, hstatus⟩
  · exact hmember.connectClone env.clone

theorem disconnectServer (h : SameButLeftovers x x') (kind : ServerKind) :
    SameButLeftovers (OctopusLB.disconnectServer kind x) (OctopusLB.disconnectServer kind x') := by
  have hserver := h.server kind
  unfold OctopusLB.disconnectServer
  rw [h.serverfd kind]
  cases hfd : x.session.serverfd kind with
  | none => exact h
  | some fd =>
      have hkind := hserver (by rw [hfd]; simp)
      refine ⟨h.sid, ?_, ?_, ?_, ?_, ?_, ?_, ?_⟩
      · show (x'.sys.modifyServer (x'.session.server kind) _).close fd = _
        rw [h.sys, hkind]
        rfl
      · show (x'.session.clearServer kind).state = (x.session.clearServer kind).state
        have hstate := h.state
        cases kind
        · show ({ x'.session.state with memConnected := false } : SessionState) = _
          rw [hstate]
          rfl
        · show ({ x'.session.state with cloConnected := false } : SessionState) = _
          rw [hstate]
          rfl
      · intro role
        show (x'.session.clearServer kind).fdOf role = (x.session.clearServer kind).fdOf role
        have hrole := h.fdOf role
        cases kind <;> cases role <;> first | rfl | exact hrole
      · cases kind <;> exact h.clientUsedBuffer
      · cases kind <;> exact h.memberUsedBuffer
      · cases kind <;> exact h.cloneUsedBuffer
      · intro kind' hne
        change (x.session.clearServer kind).serverfd kind' ≠ none at hne
        show (x'.session.clearServer kind).server kind' = (x.session.clearServer kind).server kind'
        cases kind <;> cases kind' <;> first
          | exact absurd rfl hne
          | exact h.server .member hne
          | exact h.server .clone hne

theorem disconnectClient (h : SameButLeftovers x x') :
    SameButLeftovers (OctopusLB.disconnectClient x) (OctopusLB.disconnectClient x') := by
  have hfd : x'.session.clientfd = x.session.clientfd := h.fdOf .client
  unfold OctopusLB.disconnectClient
  rw [hfd]
  cases x.session.clientfd with
  | none => exact h
  | some fd =>
      refine ⟨h.sid, congrArg (fun y => y.close fd) h.sys, ?_, ?_, h.clientUsedBuffer,
        h.memberUsedBuffer, h.cloneUsedBuffer, ?_⟩
      · show ({ x'.session.state with cliConnected := false } : SessionState) = _
        rw [h.state]
        rfl
      · intro role
        cases role
        · rfl
        · exact h.fdOf .member
        · exact h.fdOf .clone
      · intro kind hne
        cases kind
        · exact h.server .member hne
        · exact h.server .clone hne

theorem deleteSession (h : SameButLeftovers x x') (reason : Reason) :
    SameButLeftovers (OctopusLB.deleteSession reason x) (OctopusLB.deleteSession reason x') := by
  have hall : SameButLeftovers (disconnectAll x) (disconnectAll x') := by
    unfold disconnectAll
    dsimp only
    rw [h.state]
    have h₁ := rel_ite (b := x.session.state.cliConnected = true) h.disconnectClient h
    rw [h₁.state]
    have h₂ := rel_ite (b := (if x.session.state.cliConnected then OctopusLB.disconnectClient x
      else x).session.state.memConnected = true) (h₁.disconnectServer .member) h₁
    unfold disconnectMember
    rw [h₂.state]
    exact rel_ite (h₂.disconnectServer .clone) h₂
  rw [deleteSession_eq, deleteSession_eq]
  refine ⟨hall.sid, ?_, rfl, ?_, rfl, rfl, rfl, ?_⟩
  rotate_left
  · intro role
    have hrole := hall.fdOf role
    cases role <;> exact hrole
  · intro kind hne
    cases kind
    · exact hall.server .member hne
    · exact hall.server .clone hne
  show (disconnectAll x').sys.addUnusedSession (disconnectAll x').sid = _
  rw [hall.sys, hall.sid]
  rfl

end SameButLeftovers

/-- Without HASH and STATIC the choice does not depend on the request. -/
theorem chooseCandidate_congr_buffer [LoadArith L] {c : Chooser L}
    (halg : c.balancer.algorithm ≠ .hash ∧ c.balancer.algorithm ≠ .static) (buf buf' : List UInt8) :
    chooseCandidate buf c = chooseCandidate buf' c := by
  have hselect : selectServer buf (getAvailableServers c).1
      = selectServer buf' (getAvailableServers c).1 := by
    unfold selectServer
    rw [balancer_getAvailableServers]
    cases hc : c.balancer.algorithm with
    | hash => exact absurd hc halg.1
    | static => exact absurd hc halg.2
    | _ => rfl
  unfold chooseCandidate
  rw [hselect]

/-- **A client is accepted the same way** on two sessions that differ in
leftovers only. -/
theorem same_acceptClient [LoadArith L] {x x' : Ctx n L} (h : SameButLeftovers x x') (fd : Fd)
    (env : AcceptEnv) :
    Option.Rel SameButLeftovers (acceptClient fd env x) (acceptClient fd env x') := by
  have hout := h.handOut fd
  have hregister := hout.updateSys fun y => y.register fd
  unfold acceptClient
  dsimp only
  rw [hregister.sys]
  by_cases hadd : (!env.epollAdd) = true
  · rw [if_pos hadd, if_pos hadd]
    exact .some (hout.deleteSession _)
  rw [if_neg hadd, if_neg hadd]
  by_cases halg : ((x.handOut fd).updateSys fun y => y.register fd).sys.chooser.balancer.algorithm
      ≠ .hash ∧
    ((x.handOut fd).updateSys fun y => y.register fd).sys.chooser.balancer.algorithm ≠ .static
  · rw [if_pos halg, if_pos halg]
    generalize (x.handOut fd).updateSys (fun y => y.register fd) = u at hregister halg ⊢
    generalize (x'.handOut fd).updateSys (fun y => y.register fd) = u' at hregister ⊢
    unfold chooseServer
    rw [hregister.sys, chooseCandidate_congr_buffer halg u'.session.clientReadBuffer.cells
      u.session.clientReadBuffer.cells]
    rcases chooseCandidate u.session.clientReadBuffer.cells u.sys.chooser with _ | ⟨c, code⟩
    · exact .none
    have hchosen := hregister.updateSys fun y => { y with chooser := c }
    by_cases hcode : code = 0
    · obtain ⟨hconnected, hstatus⟩ := hchosen.connectServer env.connect
      simp only [hcode, ne_eq, not_true_eq_false, if_false, Option.map_some]
      rw [hstatus]
      split_ifs
      · exact .some ((hconnected.observe _).deleteSession _)
      · exact .some (hconnected.observe _).clearFresh
    · simp only [hcode, ne_eq, not_false_eq_true, if_true, Option.map_some]
      exact .some ((hchosen.observe _).deleteSession _)
  · rw [if_neg halg, if_neg halg]
    exact .some hregister

/-- A clean session and a new one differ in leftovers only. -/
theorem Session.Clean.sameButLeftovers {x : Ctx n L} (h : x.session.Clean) (i : ℕ) :
    SameButLeftovers x (x.update fun _ => .initial i) where
  sid := rfl
  sys := rfl
  state := h.state.symm
  fdOf := fun role => by rw [h.fds role]; cases role <;> rfl
  clientUsedBuffer := h.clientUsedBuffer.symm
  memberUsedBuffer := h.memberUsedBuffer.symm
  cloneUsedBuffer := h.cloneUsedBuffer.symm
  server := by
    intro kind hfd
    rw [Session.serverfd_eq_fdOf] at hfd
    exact absurd (h.fds kind.role) hfd

/-! ## Which runs return sessions clean -/

/-- Every session that is not in use is clean, and a client is accepted on it
exactly as on one that was never used. -/
structure World.ReturnsClean [LoadArith L] (w : World n L) : Prop where
  clean : ∀ s, (w.histories s).inUse = false → (w.sessions s).Clean
  as_new : ∀ s, (w.histories s).inUse = false → ∀ fd env,
    Option.Rel SameButLeftovers
      (acceptClient fd env ((w.ctx s).updateSys fun y => y.opened fd))
      (acceptClient fd env (((w.ctx s).updateSys fun y => y.opened fd).update fun _ =>
        .initial s))

/-- If a client is accepted, `connect_server` does not fail to register a
descriptor for it. -/
def RegistersServers [LoadArith L] (m : MainLoop n L) (i : LoopInput n L) : Prop :=
  ∀ env fd s, Listens m i env → m.world.Accepts env fd s →
    ¬ env.accept.FailsToRegister fd ((m.world.ctx s).updateSys fun y => y.opened fd)

/-- **Sessions return to the pool clean** in every run in which no `epoll_ctl` of
`connect_server` fails. -/
theorem returnsClean_of_registered [LoadArith L] {w : World n L} (h : w.Start)
    (inputs : List (LoopInput n L))
    (hgood : ∀ v ∈ (loopMachine n L).visits ⟨w, []⟩ inputs, RegistersServers v.1 v.2) :
    ∀ m ∈ (loopMachine n L).states ⟨w, []⟩ inputs, m.world.ReturnsClean := by
  have hinv : ∀ m ∈ (loopMachine n L).states ⟨w, []⟩ inputs, m.world.Owned ∧
      ∀ s, CleanRecord (m.world.sessions s) (m.world.histories s) := by
    refine (loopMachine n L).states_invariant_of_visits ?_ ?_ hgood
    · rintro m i m' ⟨how, hrecord⟩ hreg hstep
      refine ⟨how.loop hstep, loop_sessions hrecord ?_ ?_ hstep⟩
      · intro s y fd env hlistens haccepts hy
        have hclean := (hrecord s).clean (how.out_of_unused haccepts.unused)
        exact cleanRecord_acceptClient (x := m.world.ctx s) (how.ok s) (how.owns s) hclean
          haccepts.isOpen (hreg env fd s hlistens haccepts) hy
      · intro env e es s y _ _ _ _ hserve
        exact cleanRecord_serve (how.ok s) (hrecord s) hserve
    · refine ⟨.start h, fun s => .of_clean ?_⟩
      show (w.sessions s).Clean
      rw [h.sessions]
      exact Session.clean_initial s
  intro m hm
  obtain ⟨-, hrecord⟩ := hinv m hm
  refine ⟨fun s => (hrecord s).clean, fun s hout fd env => ?_⟩
  have hclean : ((m.world.ctx s).updateSys fun y => y.opened fd).session.Clean :=
    (hrecord s).clean hout
  exact same_acceptClient (hclean.sameButLeftovers s) fd env

/-- The outcomes of an input have no failing `epoll_ctl` of `connect_server`. -/
def LoopInput.registers : LoopInput n L → Bool
  | .process env => env.accept.connect.member.epollAdd && env.accept.connect.clone.epollAdd
  | _ => true

theorem registersServers_of_registers [LoadArith L] {m : MainLoop n L} {i : LoopInput n L}
    (h : i.registers = true) : RegistersServers m i := by
  rintro env fd s hlistens - hfails
  rw [hlistens.input] at h
  obtain ⟨hmember, hclone⟩ := Bool.and_eq_true_iff.mp h
  obtain ⟨c, -, hfail | ⟨-, hfail⟩⟩ := hfails.connect
  · exact absurd (hmember.symm.trans hfail.epollAdd) (by decide)
  · exact absurd (hclone.symm.trans hfail.epollAdd) (by decide)

/-- A client connects and hangs up, and the next one gets the session. -/
def clientHangsUp : List (LoopInput 1 ℤ) :=
  clientConnects ++ [.poll [⟨5, false, false, false, true⟩], .process (sampleEventEnv .error)]
    ++ clientConnects

/-- Clients come and go and the session stays clean. -/
theorem returnsClean_of_hangup :
    sampleWorld.Start ∧ ∀ m ∈ (loopMachine 1 ℤ).states ⟨sampleWorld, []⟩ clientHangsUp,
      m.world.ReturnsClean := by
  refine ⟨start_sampleWorld, returnsClean_of_registered start_sampleWorld _ ?_⟩
  have hregisters : ∀ v ∈ (loopMachine 1 ℤ).visits ⟨sampleWorld, []⟩ clientHangsUp,
      v.2.registers = true := by decide +kernel
  exact fun v hv => registersServers_of_registers (hregisters v hv)

/-- The member of a new client cannot be registered with epoll. -/
def memberNotRegistered : List (LoopInput 1 ℤ) :=
  [.poll [⟨3, true, false, false, false⟩],
    .process { sampleEventEnv .error with
      accept := { sampleEnv with
        connect := { sampleEnv.connect with member := ⟨some 6, true, true, true, false⟩ } } }]

/-- The session goes back to the pool with the descriptor of the member. -/
theorem descriptor_left_in_pool :
    sampleWorld.Start ∧ ¬ ∀ m ∈ (loopMachine 1 ℤ).states ⟨sampleWorld, []⟩ memberNotRegistered,
      m.world.ReturnsClean := by
  refine ⟨start_sampleWorld, fun hall => ?_⟩
  have hrun : ((loopMachine 1 ℤ).run ⟨sampleWorld, []⟩ memberNotRegistered).any (fun m =>
      decide ((m.world.histories 0).inUse = false ∧
        (m.world.sessions 0).fdOf .member = some 6)) = true := by decide +kernel
  obtain ⟨m, hm, hcond⟩ := (Option.any_eq_true _ _).mp hrun
  obtain ⟨hout, hfd⟩ := of_decide_eq_true hcond
  have hclean := (hall m ((loopMachine 1 ℤ).mem_states_of_run hm)).clean 0 hout
  exact absurd (hfd.symm.trans (hclean.fds .member)) nofun

end OctopusLB
