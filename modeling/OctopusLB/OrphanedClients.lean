/-
# Clients whose member is gone

When the connection to a member is dropped, the client is either flushed and
closed, if bytes are pending for it, or closed at once.  `member_read` makes the
choice; the main loop's reaction to `EPOLLERR` and `EPOLLHUP` and the error path
of `member_write` always call `disconnect_member`.  `noOrphan_always_iff` says
exactly when this leaves a client behind that nothing will ever close.
-/
import OctopusLB.Ownership

namespace OctopusLB

variable {n : ℕ} {L : Type}

/-! ## The property -/

/-- A connection to a member was established. -/
def Obs.isMemberConnected : Obs → Bool
  | .connected .member _ => true
  | _ => false

/-- A member has been connected since the session was handed out. -/
def History.MemberEstablished (h : History) : Prop :=
  ∃ o ∈ h.sinceAllocated, o.isMemberConnected = true

/-- A client that is still connected although its member connection has been
established and dropped has bytes pending. -/
def NotOrphaned (s : Session) (h : History) : Prop :=
  s.state.cliConnected = true → h.MemberEstablished → s.state.memConnected = false →
    0 < s.memberUsedBuffer ∧ s.state.cliWriteReady = true

/-- Both peers are connected and nothing is pending for the client. -/
structure Session.NothingPending (s : Session) : Prop where
  client : s.state.cliConnected = true
  member : s.state.memConnected = true
  ready : s.state.cliWriteReady = false

/-- What holds of every session at all times: a member is connected only in a
session in use that has the connection in its history, and
`STATE_CLI_WRITE_READY` means that bytes are pending. -/
structure MemberRecord (s : Session) (h : History) : Prop where
  connected : s.state.memConnected = true → h.inUse = true ∧ h.MemberEstablished
  pending : s.state.cliWriteReady = true → 0 < s.memberUsedBuffer

/-! ## Histories -/

/-- Nothing but the connection of a member makes it established. -/
theorem History.memberEstablished_cons {o : Obs} {h : History} (ho : o.isAllocated = false)
    (hm : o.isMemberConnected = false) :
    History.MemberEstablished (o :: h) ↔ History.MemberEstablished h := by
  unfold History.MemberEstablished
  rw [History.sinceAllocated_cons, ho, if_neg (by decide)]
  simp only [List.mem_cons, exists_eq_or_imp, hm, Bool.false_eq_true, false_or]

theorem History.memberEstablished_append {h h' : History}
    (htraffic : ∀ o ∈ h', o.isTraffic = true) :
    History.MemberEstablished (h' ++ h) ↔ History.MemberEstablished h := by
  induction h' with
  | nil => exact Iff.rfl
  | cons o os ih =>
      obtain ⟨ho, hos⟩ := List.forall_mem_cons.mp htraffic
      have hnot : o.isAllocated = false ∧ o.isMemberConnected = false := by
        cases o <;> first | exact ⟨rfl, rfl⟩ | cases ho
      rw [← ih hos]
      exact History.memberEstablished_cons hnot.1 hnot.2

/-! ## The record along a run -/

section Record

variable {x y : Ctx n L}

/-- A released session has nothing to record. -/
theorem memberRecord_of_unused {s : Session} {h : History} (hs : s.state = .unused) :
    MemberRecord s h := by
  constructor
  all_goals
    intro hbit
    rw [hs] at hbit
    cases hbit

theorem notOrphaned_of_unused {s : Session} {h : History} (hs : s.state = .unused) :
    NotOrphaned s h := by
  intro hc
  rw [hs] at hc
  cases hc

/-- A call keeps the record. -/
theorem memberRecord_effect (h : MemberRecord x.session x.history) {call : Call}
    (he : Effect x call y) : MemberRecord y.session y.history := by
  have hkeep : ∀ (s : Session) {o : Obs}, o.isTraffic = true →
      s.state.memConnected = x.session.state.memConnected →
      (s.state.cliWriteReady = true → 0 < s.memberUsedBuffer) →
      MemberRecord s (o :: x.history) := by
    intro s o ho hm hpending
    have htraffic : ∀ o' ∈ [o], o'.isTraffic = true := by simpa using ho
    refine ⟨fun hc => ?_, hpending⟩
    have hin := History.inUse_append (h := x.history)
      fun o' ho' => Obs.handsOut_of_isTraffic (htraffic o' ho')
    have hest := History.memberEstablished_append (h := x.history) htraffic
    rw [List.singleton_append] at hin hest
    rw [hin, hest]
    exact h.connected (hm ▸ hc)
  cases he with
  | clientEof => exact memberRecord_of_unused rfl
  | clientGone => exact memberRecord_of_unused rfl
  | delivered => exact memberRecord_of_unused rfl
  | memberGone => exact memberRecord_of_unused rfl
  | fromClient fd r env bytes hr hne =>
      obtain ⟨connected, fd', buffer, used, hs⟩ :=
        session_copyToClone bytes.length (receiveFromClient bytes x)
      rw [session_forwardClientRead, hs, history_forwardClientRead]
      exact hkeep _ rfl rfl h.pending
  | toClient fd w k hw hm =>
      refine hkeep _ rfl ?_ ?_
      · show (x.session.drainMember k).freeMember.state.memConnected = _
        unfold Session.freeMember
        split_ifs <;> rfl
      · have hdrain : (x.session.drainMember k).state.cliWriteReady = true →
            0 < (x.session.drainMember k).memberUsedBuffer := by
          show (if x.session.memberUsedBuffer - k = 0 then false
            else x.session.state.cliWriteReady) = true → 0 < x.session.memberUsedBuffer - k
          split_ifs with hz
          · exact fun hc => by cases hc
          · omega
        show (x.session.drainMember k).freeMember.state.cliWriteReady = true →
          0 < (x.session.drainMember k).freeMember.memberUsedBuffer
        unfold Session.freeMember
        split_ifs <;> exact hdrain
  | fromMember fd r env bytes hr hne =>
      refine hkeep (x.session.appendMember bytes) rfl rfl fun _ => ?_
      have hpos := List.length_pos_of_ne_nil hne
      show 0 < x.session.memberUsedBuffer + bytes.length
      omega
  | toMember fd w k hw => exact hkeep _ rfl rfl h.pending
  | fromClone fd r env bytes =>
      exact hkeep _ rfl rfl h.pending
  | toClone fd w k hw => exact hkeep _ rfl rfl h.pending
  | disconnected call kind hrole =>
      rw [session_disconnectServer, history_disconnectServer]
      split_ifs
      · cases kind
        · exact ⟨(fun hc => by cases hc), h.pending⟩
        · exact ⟨h.connected, h.pending⟩
      · exact h

/-- A call for the client or the clone leaves no client behind. -/
theorem notOrphaned_effect (h : NotOrphaned x.session x.history) {call : Call}
    (he : Effect x call y) (hrole : call.role ≠ .member) : NotOrphaned y.session y.history := by
  have hkeep : ∀ {s : Session} {o : Obs}, o.isTraffic = true →
      s.state.cliConnected = x.session.state.cliConnected →
      s.state.memConnected = x.session.state.memConnected →
      s.memberUsedBuffer = x.session.memberUsedBuffer →
      s.state.cliWriteReady = x.session.state.cliWriteReady →
      NotOrphaned s (o :: x.history) := by
    intro s o ho hc hm hused hready hcli hest hmem
    have htraffic : ∀ o' ∈ [o], o'.isTraffic = true := by simpa using ho
    rw [hused, hready]
    exact h (hc ▸ hcli) ((History.memberEstablished_append htraffic).mp hest) (hm ▸ hmem)
  cases he with
  | clientEof => exact notOrphaned_of_unused rfl
  | clientGone => exact notOrphaned_of_unused rfl
  | delivered => exact notOrphaned_of_unused rfl
  | memberGone => exact absurd rfl hrole
  | fromClient fd r env bytes hr hne =>
      obtain ⟨connected, fd', buffer, used, hs⟩ :=
        session_copyToClone bytes.length (receiveFromClient bytes x)
      rw [session_forwardClientRead, hs, history_forwardClientRead]
      exact hkeep rfl rfl rfl rfl rfl
  | toClient fd w k hw hall =>
      intro hc hest hm
      obtain ⟨-, hle, -⟩ := Sys.write_eq_some hw
      have hsame := sameLinks_freeMember (x.session.drainMember k)
      rw [session_maintainClientWrite] at hc hm ⊢
      have hm' : x.session.state.memConnected = false := (hsame.connected .member).symm.trans hm
      -- the member is gone, so this write has left something
      have hpart : k ≠ x.session.memberUsedBuffer := fun hk =>
        absurd ((hall hk).symm.trans hm') (by decide)
      have htraffic : ∀ o ∈ [Obs.sent .client ((x.session.memberReadBuffer.contents
          x.session.memberUsedBuffer).take k)], o.isTraffic = true := by simp [Obs.isTraffic]
      obtain ⟨hpos, hready⟩ := h (hsame.cliConnected.symm.trans hc)
        ((History.memberEstablished_append htraffic).mp hest) hm'
      have hdrain : 0 < (x.session.drainMember k).memberUsedBuffer ∧
          (x.session.drainMember k).state.cliWriteReady = true := by
        constructor
        · show 0 < x.session.memberUsedBuffer - k
          omega
        · show (if x.session.memberUsedBuffer - k = 0 then false
            else x.session.state.cliWriteReady) = true
          rw [if_neg (by omega)]
          exact hready
      show 0 < (x.session.drainMember k).freeMember.memberUsedBuffer ∧
        (x.session.drainMember k).freeMember.state.cliWriteReady = true
      unfold Session.freeMember
      split_ifs <;> exact hdrain
  | fromMember => exact absurd rfl hrole
  | toMember => exact absurd rfl hrole
  | fromClone fd r env bytes => exact hkeep rfl rfl rfl rfl rfl
  | toClone fd w k hw => exact hkeep rfl rfl rfl rfl rfl
  | disconnected call kind hkind =>
      cases kind with
      | member => exact absurd hkind hrole
      | clone =>
          unfold NotOrphaned
          rw [session_disconnectServer, history_disconnectServer]
          split_ifs <;> exact h

/-- `disconnect_member` leaves a client behind exactly if nothing is pending for
it. -/
theorem notOrphaned_disconnectMember_iff (hok : x.session.Ok)
    (hrecord : MemberRecord x.session x.history) (h : NotOrphaned x.session x.history) :
    NotOrphaned (disconnectMember x).session (disconnectMember x).history
      ↔ ¬ x.session.NothingPending := by
  have hclient : (disconnectMember x).session.state.cliConnected = x.session.state.cliConnected :=
    field_disconnectServer (fun s => s.state.cliConnected) rfl
  have hwrite : (disconnectMember x).session.state.cliWriteReady = x.session.state.cliWriteReady :=
    field_disconnectServer (fun s => s.state.cliWriteReady) rfl
  have hused : (disconnectMember x).session.memberUsedBuffer = x.session.memberUsedBuffer :=
    field_disconnectServer Session.memberUsedBuffer rfl
  have hmem : (disconnectMember x).session.state.memConnected = false :=
    connected_disconnectServer hok .member .member
  have hhist : (disconnectMember x).history = x.history := history_disconnectServer x .member
  unfold NotOrphaned
  rw [hclient, hwrite, hused, hmem, hhist]
  constructor
  · rintro hnot ⟨hc, hm, hready⟩
    obtain ⟨-, hready'⟩ := hnot hc (hrecord.connected hm).2 rfl
    exact absurd (hready.symm.trans hready') (by decide)
  · intro hpending hc hest _
    by_cases hm : x.session.state.memConnected = true
    · have hready : x.session.state.cliWriteReady = true := by
        by_contra hnot
        exact hpending ⟨hc, hm, Bool.eq_false_of_not_eq_true hnot⟩
      exact ⟨hrecord.pending hready, hready⟩
    · exact h hc hest (Bool.eq_false_of_not_eq_true hm)

/-- **`member_read` makes the right choice**, and leaves nothing for a write
handler after it to drop. -/
theorem notOrphaned_memberRead (hok : x.session.Ok) (hrecord : MemberRecord x.session x.history)
    (h : NotOrphaned x.session x.history) (fd : Fd) (r : ReadOutcome) :
    NotOrphaned (memberRead fd r x).session (memberRead fd r x).history ∧
      ¬ (memberRead fd r x).session.NothingPending := by
  have hgone : ∀ z, z = (if x.session.state.cliWriteReady = false then deleteSession .memberGone x
      else disconnectMember x) → NotOrphaned z.session z.history ∧ ¬ z.session.NothingPending := by
    rintro z rfl
    split_ifs with hready
    · exact ⟨notOrphaned_of_unused rfl, fun hnone => by cases hnone.client⟩
    · refine ⟨(notOrphaned_disconnectMember_iff hok hrecord h).mpr fun hnone =>
        hready hnone.ready, fun hnone => ?_⟩
      have hmem : (disconnectMember x).session.state.memConnected = false :=
        connected_disconnectServer hok .member .member
      exact absurd (hmem.symm.trans hnone.member) (by decide)
  unfold memberRead
  rcases x.sys.read fd (messageSizeLimit - x.session.memberUsedBuffer) r with _ | _ | ⟨b, bs⟩
  · exact hgone _ rfl
  · exact hgone _ rfl
  · refine ⟨fun _ _ _ => ⟨?_, rfl⟩, fun hnone => by cases hnone.ready⟩
    show 0 < x.session.memberUsedBuffer + (b :: bs).length
    rw [List.length_cons]
    omega

/-- `member_write` leaves a client behind only if its write fails. -/
theorem notOrphaned_memberWrite (hok : x.session.Ok) (hrecord : MemberRecord x.session x.history)
    (h : NotOrphaned x.session x.history) {fd : Fd} {w : WriteOutcome}
    (hw : x.sys.write fd x.session.clientUsedBuffer w = none → ¬ x.session.NothingPending) :
    NotOrphaned (memberWrite fd w x).session (memberWrite fd w x).history := by
  unfold memberWrite
  cases hwrite : x.sys.write fd x.session.clientUsedBuffer w with
  | none => exact (notOrphaned_disconnectMember_iff hok hrecord h).mpr (hw hwrite)
  | some k =>
      intro hc hest hm
      exact h hc ((History.memberEstablished_cons rfl rfl).mp hest) hm

/-- A session in use that has just been given its servers: a member is connected
exactly if its connection was established. -/
structure JustConnected (s : Session) (h : History) : Prop where
  in_use : h.inUse = true
  connected : s.state.memConnected = true ↔ h.MemberEstablished
  pending : s.state.cliWriteReady = true → 0 < s.memberUsedBuffer

theorem JustConnected.memberRecord {s : Session} {h : History} (hj : JustConnected s h) :
    MemberRecord s h :=
  ⟨fun hm => ⟨hj.in_use, hj.connected.mp hm⟩, hj.pending⟩

theorem JustConnected.notOrphaned {s : Session} {h : History} (hj : JustConnected s h) :
    NotOrphaned s h := fun _ hest hm => absurd ((hj.connected.mpr hest).symm.trans hm) (by decide)

/-- An entry about neither the pool nor a member. -/
theorem JustConnected.observe {s : Session} {h : History} (hj : JustConnected s h) {o : Obs}
    (hout : o.handsOut = none) (hm : o.isMemberConnected = false) : JustConnected s (o :: h) := by
  have ho : o.isAllocated = false := by
    cases o <;> first | rfl | cases hout
  refine ⟨?_, hj.connected.trans (History.memberEstablished_cons ho hm).symm, hj.pending⟩
  rw [History.inUse_cons, hout]
  exact hj.in_use

/-- The two halves of `connect_server`. -/
theorem justConnected_connects {kind : ServerKind} {slot : ℕ} (h : Connects kind slot x y)
    (hj : JustConnected x.session x.history) : JustConnected y.session y.history := by
  cases h with
  | skipped => exact hj
  | leaked => exact hj
  | associated fd hfd hnone =>
      cases kind
      · exact ⟨hj.in_use, hj.connected, hj.pending⟩
      · exact ⟨hj.in_use, hj.connected, hj.pending⟩
  | established fd hfd hnone =>
      cases kind with
      | member =>
          refine ⟨hj.in_use, iff_of_true rfl ?_, hj.pending⟩
          exact ⟨_, List.mem_cons_self, rfl⟩
      | clone =>
          have hclone := hj.observe (o := .connected .clone slot) rfl rfl
          exact ⟨hclone.in_use, hclone.connected, hclone.pending⟩

variable [LoadArith L]

theorem justConnected_chooseServer {env : ConnectEnv} {status : ℤ}
    (h : chooseServer env x = some (y, status)) (hj : JustConnected x.session x.history) :
    JustConnected y.session y.history := by
  obtain ⟨c, code, -, ⟨-, -, rfl⟩ | ⟨-, rfl, -⟩⟩ := chooseServer_cases h
  · exact hj.observe (o := .chose status) rfl rfl
  · apply JustConnected.observe (o := .chose status) _ rfl rfl
    have hmember := justConnected_connects
      (connectMember_connects env.member (x.updateSys fun s => { s with chooser := c })) hj
    unfold connectServer
    split_ifs
    · exact hmember
    · exact justConnected_connects (connectClone_connects env.clone _) hmember

/-- The accept branch releases the session again, or leaves it with its member
connected if one was. -/
theorem justConnected_acceptClient {fd : Fd} {env : AcceptEnv}
    (hmem : x.session.state.memConnected = false)
    (hpending : x.session.state.cliWriteReady = true → 0 < x.session.memberUsedBuffer)
    (h : acceptClient fd env x = some y) :
    y.session.state = .unused ∨ JustConnected y.session y.history := by
  have hout : JustConnected (x.handOut fd).session (x.handOut fd).history := by
    refine ⟨rfl, iff_of_false ?_ ?_, hpending⟩
    · show ¬ x.session.state.memConnected = true
      rw [hmem]
      decide
    · rintro ⟨o, ho, -⟩
      cases ho
  rcases acceptClient_cases h with rfl | ⟨-, rfl⟩ | ⟨-, z, status, hz, hor⟩
  · exact Or.inl rfl
  · exact Or.inr hout
  · have hj := justConnected_chooseServer hz hout
    rcases hor with ⟨-, rfl⟩ | ⟨-, rfl⟩
    · exact Or.inl rfl
    · exact Or.inr ⟨hj.in_use, hj.connected, hj.pending⟩

end Record

/-! ## Exactly which runs leave no client behind -/

/-- The event has the member dropped by `disconnect_member`: an error, a hang-up,
or a write that fails without a read before it. -/
def Event.DropsMember (e : Event) (env : EventEnv n) : Prop :=
  e.err = true ∨ e.hup = true ∨ (e.input = false ∧ e.output = true ∧ env.write = .error)

/-- The main loop comes to such an event of a member while nothing is pending
for the client. -/
def DropsQuietly (m : MainLoop n L) (i : LoopInput n L) : Prop :=
  ∃ env e es s, i = .process env ∧ m.pending = e :: es ∧ e.fd ≠ m.world.listenerfd ∧
    m.world.sys.fds e.fd = some s ∧ (m.world.sessions s).roleOf e.fd = some .member ∧
    (m.world.sessions s).NothingPending ∧ e.DropsMember env

/-- The descriptors and the records of all sessions are in order. -/
structure World.Recorded (w : World n L) : Prop where
  owned : w.Owned
  records : ∀ s, MemberRecord (w.sessions s) (w.histories s)

theorem World.Start.recorded {w : World n L} (h : w.Start) : w.Recorded := by
  refine ⟨.start h, fun s => memberRecord_of_unused ?_⟩
  rw [h.sessions]
  rfl

theorem memberConnected_idle {w : World n L} (h : w.Recorded) {s : Fin n}
    (hs : w.sys.unused s = true) : (w.sessions s).state.memConnected = false := by
  by_contra hm
  have hin := ((h.records s).connected (Bool.eq_true_of_not_eq_false hm)).1
  rw [h.owned.unused s, hin] at hs
  cases hs

theorem Sys.write_eq_none_iff {y : Sys n L} {fd : Fd} {size : ℕ} {w : WriteOutcome}
    (hopen : y.isOpen fd = true) : y.write fd size w = none ↔ w = .error := by
  cases w with
  | error => exact iff_of_true rfl rfl
  | accept count =>
      rw [Sys.write, if_pos hopen]
      exact iff_of_false (Option.some_ne_none _) (by simp)

section Loop

variable [LoadArith L] {m m' : MainLoop n L} {i : LoopInput n L}

/-- What an event of the bad kind does. -/
theorem serve_of_dropsMember {e : Event} {env : EventEnv n} {x : Ctx n L}
    (hrole : x.session.roleOf e.fd = some .member) (h : e.DropsMember env) :
    serve e env x = some (disconnectMember x) := by
  unfold serve serveRole
  rw [hrole]
  dsimp only
  by_cases herr : e.err = true
  · rw [if_pos herr]
    rfl
  by_cases hhup : e.hup = true
  · rw [if_neg herr, if_pos hhup]
    rfl
  obtain ⟨hin, hout, hw⟩ := (h.resolve_left herr).resolve_left hhup
  rw [if_neg herr, if_neg hhup, hin, hout, if_neg (by decide), Option.bind_some, if_pos rfl, hw]
  rfl

/-- An event that does not drop the member quietly. -/
theorem notOrphaned_serve {e : Event} {env : EventEnv n} {x y : Ctx n L} (hok : x.session.Ok)
    (hopen : x.Owns) (hrecord : MemberRecord x.session x.history)
    (h : NotOrphaned x.session x.history)
    (hgood : x.session.roleOf e.fd = some .member → x.session.NothingPending → ¬ e.DropsMember env)
    (hserve : serve e env x = some y) : NotOrphaned y.session y.history := by
  cases hrole : x.session.roleOf e.fd with
  | none =>
      unfold serve at hserve
      rw [hrole] at hserve
      exact Option.some.inj hserve ▸ h
  | some role =>
      have hbranch : serveRole role e env x = some y := by
        unfold serve at hserve
        rw [hrole] at hserve
        exact hserve
      by_cases hmember : role = .member
      · subst hmember
        by_cases hdrop : e.DropsMember env
        · rw [serve_of_dropsMember hrole hdrop] at hserve
          rw [← Option.some.inj hserve]
          exact (notOrphaned_disconnectMember_iff hok hrecord h).mpr fun hnone =>
            hgood hrole hnone hdrop
        -- what is left is the read handler and then the write handler
        have herr : ¬ e.err = true := fun herr => hdrop (Or.inl herr)
        have hhup : ¬ e.hup = true := fun hhup => hdrop (Or.inr (Or.inl hhup))
        unfold serveRole at hbranch
        rw [if_neg herr, if_neg hhup, Option.bind_eq_some_iff] at hbranch
        obtain ⟨z, hz, hy⟩ := hbranch
        have hread : z.session.Ok ∧ MemberRecord z.session z.history ∧
            NotOrphaned z.session z.history ∧ (e.output = true →
              z.sys.write e.fd z.session.clientUsedBuffer env.write = none →
                ¬ z.session.NothingPending) := by
          by_cases hin : e.input = true
          · rw [if_pos hin] at hz
            have heffect := effect_of_handle hok.fresh hz
            obtain rfl := Option.some.inj hz
            obtain ⟨hnot, hnone⟩ := notOrphaned_memberRead hok hrecord h e.fd env.read
            exact ⟨ok_handle hok hz, memberRecord_effect hrecord heffect, hnot, fun _ _ => hnone⟩
          · rw [if_neg hin] at hz
            obtain rfl := Option.some.inj hz
            refine ⟨hok, hrecord, h, fun hout hw _ => hdrop (Or.inr (Or.inr ?_))⟩
            have hfd := (hopen .member e.fd (Session.fdOf_of_roleOf hrole)).2
            exact ⟨Bool.eq_false_of_not_eq_true hin, hout, (Sys.write_eq_none_iff hfd).mp hw⟩
        obtain ⟨hokz, hrecordz, hz, hw⟩ := hread
        by_cases hout : e.output = true
        · rw [if_pos hout] at hy
          rw [← Option.some.inj hy]
          exact notOrphaned_memberWrite hokz hrecordz hz (hw hout)
        · rw [if_neg hout] at hy
          exact Option.some.inj hy ▸ hz
      · -- the other two roles: every call is one for a role that is not the member
        have hcall : ∀ {u v : Ctx n L} {call : Call}, call.role = role → u.session.Ok →
            NotOrphaned u.session u.history → handle call u = some v →
            NotOrphaned v.session v.history := fun hr hu hnot hv =>
          notOrphaned_effect hnot (effect_of_handle hu.fresh hv) (hr ▸ hmember)
        rcases serveRole_cases hbranch with ⟨err, hhangup⟩ | ⟨-, -, z, hread, hwrite⟩
        · exact hcall rfl hok h hhangup
        have hz : z.session.Ok ∧ NotOrphaned z.session z.history := by
          rcases hread with ⟨rfl, -⟩ | ⟨-, hread⟩
          · exact ⟨hok, h⟩
          · exact ⟨ok_handle hok hread, hcall rfl hok h hread⟩
        rcases hwrite with ⟨rfl, -⟩ | ⟨-, hwrite⟩
        · exact hz.2
        · exact hcall rfl hz.1 hz.2 hwrite

/-- Every step keeps the records. -/
theorem World.Recorded.loop (h : m.world.Recorded)
    (hstep : (loopMachine n L).step m i = some m') : m'.world.Recorded := by
  refine ⟨h.owned.loop hstep, loop_sessions h.records ?_ ?_ hstep⟩
  · intro s y fd env _ haccepts hy
    have hj := justConnected_acceptClient (x := (m.world.ctx s).updateSys fun x => x.opened fd)
      (memberConnected_idle h haccepts.unused) (h.records s).pending hy
    exact hj.elim memberRecord_of_unused JustConnected.memberRecord
  · intro env e es s y hi hpending hne hs hserve
    exact serve_keeps (P := fun z => MemberRecord z.session z.history) (h.owned.ok s) (h.records s)
      (fun u v call _ hu he => memberRecord_effect hu he) hserve

/-- **No client is orphaned** in exactly the runs in which no event has a member
dropped by `disconnect_member` while nothing is pending for its client. -/
theorem noOrphan_always_iff {w : World n L} (h : w.Start) (inputs : List (LoopInput n L)) :
    (∀ m ∈ (loopMachine n L).states ⟨w, []⟩ inputs,
        ∀ s, NotOrphaned (m.world.sessions s) (m.world.histories s))
      ↔ ∀ v ∈ (loopMachine n L).visits ⟨w, []⟩ inputs, ¬ DropsQuietly v.1 v.2 := by
  apply (loopMachine n L).always_iff (fun m => m.world.Recorded)
    (fun m => ∀ s, NotOrphaned (m.world.sessions s) (m.world.histories s)) DropsQuietly
  · exact fun m i m' hm hstep => hm.loop hstep
  · intro m i m' hm hnot hgood hstep
    refine loop_sessions hnot ?_ ?_ hstep
    · intro s y fd env _ haccepts hy
      have hj := justConnected_acceptClient (x := (m.world.ctx s).updateSys fun x => x.opened fd)
        (memberConnected_idle hm haccepts.unused) (hm.records s).pending hy
      exact hj.elim notOrphaned_of_unused JustConnected.notOrphaned
    · intro env e es s y hi hpending hne hs hserve
      exact notOrphaned_serve (hm.owned.ok s) (hm.owned.owns s) (hm.records s) (hnot s)
        (fun hrole hnone hdrop => hgood ⟨env, e, es, s, hi, hpending, hne, hs, hrole, hnone, hdrop⟩)
        hserve
  · rintro ⟨w', pending⟩ i hm hnot ⟨env, e, es, s, rfl, rfl, hne, hs, hrole, hnone, hdrop⟩
    refine ⟨⟨w'.put (disconnectMember (w'.ctx s)), es⟩, ?_, fun hall => ?_⟩
    · show (OctopusLB.processEvent e env w').map _ = _
      unfold OctopusLB.processEvent
      rw [if_neg hne, hs]
      dsimp only
      rw [serve_of_dropsMember (x := w'.ctx s) hrole hdrop]
      rfl
    · have hsid : (disconnectMember (w'.ctx s)).sid = s := sid_disconnectServer (w'.ctx s) .member
      have hbad := hall s
      rw [World.sessions_put_of_sid _ hsid, World.histories_put_of_sid _ hsid] at hbad
      exact (notOrphaned_disconnectMember_iff (x := w'.ctx s) (hm.owned.ok s) (hm.records s)
        (hnot s)).mp hbad hnone
  · exact h.recorded
  · intro s
    apply notOrphaned_of_unused
    rw [h.sessions]
    rfl

end Loop

/-- A client connects, its member answers and hangs up, and the answer is
delivered. -/
def answerThenHangup : List (LoopInput 1 ℤ) :=
  clientConnects ++ [.poll [⟨6, true, false, false, false⟩],
    .process (sampleEventEnv (.data [65])), .poll [⟨6, false, false, false, true⟩],
    .process (sampleEventEnv .error), .poll [⟨5, false, true, false, false⟩],
    .process (sampleEventEnv .error)]

/-- A member that hangs up after its answer leaves nobody behind. -/
theorem noOrphan_of_answer_pending :
    sampleWorld.Start ∧ ∀ m ∈ (loopMachine 1 ℤ).states ⟨sampleWorld, []⟩ answerThenHangup,
      ∀ s, NotOrphaned (m.world.sessions s) (m.world.histories s) := by
  refine ⟨start_sampleWorld, (noOrphan_always_iff start_sampleWorld _).mpr ?_⟩
  intro v hv hbad
  have hpending : ∀ v ∈ (loopMachine 1 ℤ).visits ⟨sampleWorld, []⟩ answerThenHangup,
      ∀ e ∈ v.1.pending, (v.1.world.sessions 0).roleOf e.fd = some .member →
        (v.1.world.sessions 0).state.cliWriteReady = true ∨
          (e.err = false ∧ e.hup = false ∧ e.input = true) := by decide +kernel
  obtain ⟨env, e, es, s, -, hhead, -, -, hrole, hnone, hdrop⟩ := hbad
  obtain rfl : s = 0 := Subsingleton.elim s 0
  have hmem : e ∈ v.1.pending := by
    rw [hhead]
    exact List.mem_cons_self
  rcases hpending v hv e hmem hrole with hready | ⟨herr, hhup, hin⟩
  · exact absurd (hnone.ready.symm.trans hready) (by decide)
  · rcases hdrop with h | h | ⟨h, -⟩
    · exact absurd (herr.symm.trans h) (by decide)
    · exact absurd (hhup.symm.trans h) (by decide)
    · exact absurd (h.symm.trans hin) (by decide)

/-- The member resets its connection before it has answered. -/
def memberResets : List (LoopInput 1 ℤ) :=
  clientConnects ++ [.poll [⟨6, false, false, true, false⟩], .process (sampleEventEnv .error)]

/-- The client of a member that resets its connection stays, and nothing is
pending for it. -/
theorem client_left_behind :
    sampleWorld.Start ∧ ¬ ∀ m ∈ (loopMachine 1 ℤ).states ⟨sampleWorld, []⟩ memberResets,
      ∀ s, NotOrphaned (m.world.sessions s) (m.world.histories s) := by
  refine ⟨start_sampleWorld, fun hall => ?_⟩
  have hrun : ((loopMachine 1 ℤ).run ⟨sampleWorld, []⟩ memberResets).any (fun m =>
      decide ((m.world.sessions 0).state.cliConnected = true ∧
        (m.world.sessions 0).state.memConnected = false ∧
        (m.world.sessions 0).state.cliWriteReady = false ∧
        ∃ o ∈ (m.world.histories 0).sinceAllocated, o.isMemberConnected = true)) = true := by
    decide +kernel
  obtain ⟨m, hm, hcond⟩ := (Option.any_eq_true _ _).mp hrun
  obtain ⟨hc, hdropped, hready, hest⟩ := of_decide_eq_true hcond
  obtain ⟨-, hready'⟩ := hall m ((loopMachine 1 ℤ).mem_states_of_run hm) 0 hc hest hdropped
  exact absurd (hready.symm.trans hready') (by decide)

end OctopusLB
