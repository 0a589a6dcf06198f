/-
# Reads are requested only when there is room

A session asks for input from a peer in two ways: by a `READ_READY` bit and by
registering the peer's descriptor for `EPOLLIN` (`Invites`).  A read with a full
buffer has no space, returns 0, and is then taken for end of file; so both must
imply that the buffer has room.

The client half always holds (`clientRoom_handle`).  The member half fails:
`member_write` sets `STATE_MEM_READ_READY` whatever the fill of the member
buffer.  `room_always_iff` says that this is the only way: a run keeps the
property exactly if it makes no successful `member_write` while the member
buffer is full.
-/
import OctopusLB.SessionRun

namespace OctopusLB

variable {n : ℕ} {L : Type}

/-! ## Invitations -/

/-- The peer's descriptor is registered for `EPOLLIN`. -/
def Invites (x : Ctx n L) (role : Role) : Prop :=
  ∃ fd i, x.session.fdOf role = some fd ∧ x.sys.interest fd = some i ∧ i.input = true

theorem invites_iff (x : Ctx n L) (role : Role) :
    Invites x role ↔ ((x.session.fdOf role).bind x.sys.interest).any Interest.input = true := by
  rw [Option.any_eq_true]
  constructor
  · rintro ⟨fd, i, hfd, hi, hin⟩
    exact ⟨i, Option.bind_eq_some_iff.mpr ⟨fd, hfd, hi⟩, hin⟩
  · rintro ⟨i, hbind, hin⟩
    obtain ⟨fd, hfd, hi⟩ := Option.bind_eq_some_iff.mp hbind
    exact ⟨fd, i, hfd, hi, hin⟩

instance (x : Ctx n L) (role : Role) : Decidable (Invites x role) :=
  decidable_of_iff _ (invites_iff x role).symm

/-- Only the descriptors and their interests are looked at. -/
theorem Invites.congr {x y : Ctx n L} {role : Role} (h : Invites y role)
    (hfd : y.session.fdOf role = x.session.fdOf role) (hi : y.sys.interest = x.sys.interest) :
    Invites x role := by
  obtain ⟨fd, i, hrole, hint, hin⟩ := h
  exact ⟨fd, i, hfd.symm.trans hrole, (congrFun hi fd).symm.trans hint, hin⟩

theorem interest_epollMod (y : Sys n L) (fd : Option Fd) (i : Interest) (fd' : Fd) :
    (y.epollMod fd i).interest fd'
      = if fd = some fd' ∧ (y.interest fd').isSome then some i else y.interest fd' := by
  cases fd with
  | none => simp [Sys.epollMod]
  | some fd =>
      unfold Sys.epollMod
      dsimp only
      by_cases hfd : fd = fd'
      · subst hfd
        by_cases hreg : (y.interest fd).isSome = true
        · simp [hreg]
        · simp [hreg]
      · by_cases hreg : (y.interest fd).isSome = true
        · simp [hreg, hfd, Function.update_of_ne (Ne.symm hfd)]
        · simp [hreg, hfd]

/-- A descriptor that has just been watched is invited by the interest it is
watched for. -/
theorem invites_watch_self {x : Ctx n L} {role : Role} {i : Interest}
    (h : Invites (x.watch role i) role) : i.input = true := by
  obtain ⟨fd, j, hfd, hj, hin⟩ := h
  change (x.sys.epollMod (x.session.fdOf role) i).interest fd = some j at hj
  rw [interest_epollMod] at hj
  split_ifs at hj with hreg
  · rw [Option.some.inj hj]
    exact hin
  · have hnone : x.sys.interest fd = none := by
      by_contra hsome
      exact hreg ⟨hfd, Option.isSome_iff_ne_none.mpr hsome⟩
    rw [hnone] at hj
    cases hj

/-- Watching one descriptor does not invite another peer. -/
theorem invites_watch_of_ne {x : Ctx n L} (hok : x.session.Ok) {role role' : Role}
    (hne : role' ≠ role) {i : Interest} (h : Invites (x.watch role i) role') :
    Invites x role' := by
  obtain ⟨fd, j, hfd, hj, hin⟩ := h
  change (x.sys.epollMod (x.session.fdOf role) i).interest fd = some j at hj
  have hother : x.session.fdOf role ≠ some fd :=
    fun hr => hne (hok.distinct role' role fd hfd hr)
  rw [interest_epollMod, if_neg fun hc => hother hc.1] at hj
  exact ⟨fd, j, hfd, hj, hin⟩

/-- Giving up a server invites nobody. -/
theorem invites_disconnectServer {x : Ctx n L} {kind : ServerKind} {role : Role}
    (h : Invites (disconnectServer kind x) role) : Invites x role := by
  unfold disconnectServer at h
  cases hfd : x.session.serverfd kind with
  | none =>
      rw [hfd] at h
      exact h
  | some fd =>
      rw [hfd] at h
      obtain ⟨fd', i, hrole, hi, hin⟩ := h
      change (x.session.clearServer kind).fdOf role = some fd' at hrole
      change ((x.sys.modifyServer (x.session.server kind) _).close fd).interest fd' = some i at hi
      have hrole' : x.session.fdOf role = some fd' := by
        cases kind <;> cases role <;> first
          | exact hrole
          | exact absurd hrole (by simp [Session.clearServer, Session.fdOf])
      have hi' : x.sys.interest fd' = some i := by
        change Function.update (x.sys.modifyServer (x.session.server kind) _).interest fd none fd'
          = some i at hi
        by_cases heq : fd' = fd
        · rw [heq, Function.update_self] at hi
          cases hi
        · rw [Function.update_of_ne heq, Sys.interest_modifyServer] at hi
          exact hi
      exact ⟨fd', i, hrole', hi', hin⟩

/-! ## Invitations after maintenance -/

section Maintenance

variable {x : Ctx n L}

/-- `client_read` registers the clone's descriptor last. -/
theorem invites_maintainClientRead (hok : x.session.Ok) {role : Role} (hne : role ≠ .clone)
    (h : Invites (maintainClientRead x) role) :
    Invites ((x.watch .client
      (interestOf x.session.state.cliReadReady x.session.state.cliWriteReady)).watch .member
        (if x.session.state.memReadReady then .rw else .wr)) role := by
  unfold maintainClientRead at h
  dsimp only at h
  by_cases hc : x.session.state.cloConnected = true
  · rw [if_pos hc] at h
    exact invites_watch_of_ne (by exact hok) hne h
  · rw [if_neg hc] at h
    exact h

theorem invites_client_maintainClientRead (hok : x.session.Ok)
    (h : Invites (maintainClientRead x) .client) : x.session.state.cliReadReady = true := by
  have hmem := invites_maintainClientRead hok (by decide) h
  have hself := invites_watch_self (invites_watch_of_ne (by exact hok) (by decide) hmem)
  simpa using hself

theorem invites_member_maintainClientRead (hok : x.session.Ok)
    (h : Invites (maintainClientRead x) .member) : x.session.state.memReadReady = true := by
  have hself := invites_watch_self (invites_maintainClientRead hok (by decide) h)
  by_contra hm
  rw [if_neg hm] at hself
  cases hself

theorem invites_client_maintainClientWrite (hok : x.session.Ok)
    (h : Invites (maintainClientWrite x) .client) : x.session.state.cliReadReady = true := by
  have hself := invites_watch_self (invites_watch_of_ne (by exact hok) (by decide) h)
  simpa using hself

theorem invites_client_maintainMemberRead (hok : x.session.Ok)
    (h : Invites (maintainMemberRead x) .client) : x.session.state.cliReadReady = true := by
  have hself := invites_watch_self (invites_watch_of_ne (by exact hok) (by decide) h)
  by_contra hc
  rw [if_neg hc] at hself
  cases hself

theorem invites_member_maintainMemberRead
    (h : Invites (maintainMemberRead x) .member) : x.session.state.memReadReady = true := by
  have hself := invites_watch_self h
  simpa using hself

end Maintenance

/-! ## Room -/

/-- Asking the client for input implies room in the client buffer. -/
structure ClientRoom (x : Ctx n L) : Prop where
  ready : x.session.state.cliReadReady = true → x.session.clientUsedBuffer < messageSizeLimit
  invited : Invites x .client → x.session.clientUsedBuffer < messageSizeLimit

/-- Asking the member for input implies room in the member buffer. -/
structure MemberRoom (x : Ctx n L) : Prop where
  ready : x.session.state.memReadReady = true → x.session.memberUsedBuffer < messageSizeLimit
  invited : Invites x .member → x.session.memberUsedBuffer < messageSizeLimit

/-- While both peers are connected, reads are requested only when there is
room. -/
def RoomOk (x : Ctx n L) : Prop :=
  x.session.state.cliConnected = true → x.session.state.memConnected = true →
    ClientRoom x ∧ MemberRoom x

/-- A peer that is connected after a call was connected before. -/
theorem connected_of_effect {x y : Ctx n L} {call : Call} (he : Effect x call y) :
    (y.session.state.cliConnected = true → x.session.state.cliConnected = true) ∧
      (y.session.state.memConnected = true → x.session.state.memConnected = true) := by
  cases he with
  | clientEof => exact ⟨nofun, nofun⟩
  | clientGone => exact ⟨nofun, nofun⟩
  | delivered => exact ⟨nofun, nofun⟩
  | memberGone => exact ⟨nofun, nofun⟩
  | fromClient fd r env bytes hr hne =>
      obtain ⟨connected, fd', buffer, used, hs⟩ :=
        session_copyToClone bytes.length (receiveFromClient bytes x)
      rw [session_forwardClientRead, hs]
      exact ⟨id, id⟩
  | toClient fd w k hw hm =>
      have hl := (sameLinks_drainMember x.session k).trans (sameLinks_freeMember _)
      exact ⟨fun h => hl.cliConnected.symm.trans h, fun h => (hl.connected .member).symm.trans h⟩
  | fromMember fd r env bytes hr hne => exact ⟨id, id⟩
  | toMember fd w k hw => exact ⟨id, id⟩
  | fromClone fd r env bytes => exact ⟨id, id⟩
  | toClone fd w k hw => exact ⟨id, id⟩
  | disconnected call kind hrole =>
      rw [session_disconnectServer]
      split_ifs
      · cases kind
        · exact ⟨id, nofun⟩
        · exact ⟨id, id⟩
      · exact ⟨id, id⟩

/-- **The client half** needs no condition: `STATE_CLI_READ_READY` is cleared
when the buffer fills up and set again by a write that makes room. -/
theorem clientRoom_effect {x y : Ctx n L} (hok : x.session.Ok)
    (h : x.session.state.cliConnected = true → ClientRoom x) {call : Call}
    (he : Effect x call y) (hc : y.session.state.cliConnected = true) : ClientRoom y := by
  have hroom := h ((connected_of_effect he).1 hc)
  cases he with
  | clientEof => cases hc
  | clientGone => cases hc
  | delivered => cases hc
  | memberGone => cases hc
  | fromClient fd r env bytes hr hne =>
      have hlen := (Sys.read_eq_some hr).2
      have hready : (forwardClientRead bytes.length
          (receiveFromClient bytes x)).session.state.cliReadReady = true →
            (forwardClientRead bytes.length (receiveFromClient bytes x)).session.clientUsedBuffer
              < messageSizeLimit := by
        obtain ⟨connected, fd', buffer, used, hs⟩ :=
          session_copyToClone bytes.length (receiveFromClient bytes x)
        rw [session_forwardClientRead, hs]
        show (if x.session.clientUsedBuffer + bytes.length = messageSizeLimit then false else _)
          = true → x.session.clientUsedBuffer + bytes.length < messageSizeLimit
        have hle := hok.client_le
        split_ifs with hfull
        · exact nofun
        · intro _
          omega
      refine ⟨hready, fun hinv => ?_⟩
      have hbit := invites_client_maintainClientRead
        (ok_copyToClone (hok.appendClient hlen) _).afterClientRead hinv
      rw [session_forwardClientRead] at hready ⊢
      exact hready hbit
  | toClient fd w k hw hm =>
      have hsame : ((x.session.drainMember k).freeMember).clientUsedBuffer
          = x.session.clientUsedBuffer
        ∧ ((x.session.drainMember k).freeMember).state.cliReadReady
          = x.session.state.cliReadReady := by
        unfold Session.freeMember
        split_ifs <;> exact ⟨rfl, rfl⟩
      have hready : ((x.session.drainMember k).freeMember).state.cliReadReady = true →
          ((x.session.drainMember k).freeMember).clientUsedBuffer < messageSizeLimit := by
        rw [hsame.1, hsame.2]
        exact hroom.ready
      exact ⟨hready, fun hinv => hready
        (invites_client_maintainClientWrite (hok.drainMember k).freeMember hinv)⟩
  | fromMember fd r env bytes hr hne =>
      have hokm : (receiveFromMember bytes x).session.Ok :=
        hok.appendMember (Sys.read_eq_some hr).2
      refine ⟨hroom.ready, fun hinv => ?_⟩
      have hbit := invites_client_maintainMemberRead hokm hinv
      exact hroom.ready hbit
  | toMember fd w k hw =>
      -- a write that succeeds leaves room, whatever is registered afterwards
      obtain ⟨-, hle, hpos⟩ := Sys.write_eq_some hw
      have hlim := hok.client_le
      have hmpos := messageSizeLimit_pos
      have hlt : x.session.clientUsedBuffer - k < messageSizeLimit := by omega
      exact ⟨fun _ => hlt, fun _ => hlt⟩
  | fromClone fd r env bytes =>
      refine ⟨hroom.ready, fun hinv => hroom.invited ?_⟩
      exact hinv.congr rfl (Sys.interest_modifyServer _ _ _)
  | toClone fd w k hw =>
      refine ⟨hroom.ready, fun hinv => hroom.invited ?_⟩
      have hinv' := invites_watch_of_ne (hok.drainClone k) (by decide) hinv
      exact hinv'.congr rfl (Sys.interest_modifyServer _ _ _)
  | disconnected call kind hrole =>
      have hused : (disconnectServer kind x).session.clientUsedBuffer =
          x.session.clientUsedBuffer :=
        field_disconnectServer Session.clientUsedBuffer (by cases kind <;> rfl)
      have hready : (disconnectServer kind x).session.state.cliReadReady =
          x.session.state.cliReadReady :=
        field_disconnectServer (fun s => s.state.cliReadReady) (by cases kind <;> rfl)
      constructor
      · rw [hused, hready]
        exact hroom.ready
      · intro hinv
        rw [hused]
        exact hroom.invited (invites_disconnectServer hinv)

/-- A successful `member_write` of a connected session whose member buffer is
full. -/
def WritesWhileFull (x : Ctx n L) (call : Call) : Prop :=
  ∃ fd count, call = .write .member fd (.accept count) ∧ x.session.memberfd = some fd ∧
    x.sys.isOpen fd = true ∧ x.session.state.cliConnected = true ∧
    x.session.state.memConnected = true ∧ x.session.memberUsedBuffer = messageSizeLimit

/-- **The member half** is kept by every other call. -/
theorem memberRoom_effect {x y : Ctx n L} (hok : x.session.Ok) (hroom : MemberRoom x)
    {call : Call} (he : Effect x call y)
    (hbad : ∀ fd w k, call = .write .member fd w →
      x.sys.write fd x.session.clientUsedBuffer w = some k →
        x.session.memberUsedBuffer ≠ messageSizeLimit) : MemberRoom y := by
  have hle := hok.member_le
  have hmpos := messageSizeLimit_pos
  have hzero : ∀ (reason : Reason) (z : Ctx n L), MemberRoom (deleteSession reason z) :=
    fun _ _ => ⟨nofun, fun _ => hmpos⟩
  cases he with
  | clientEof => exact hzero _ _
  | clientGone => exact hzero _ _
  | delivered => exact hzero _ _
  | memberGone => exact hzero _ _
  | fromClient fd r env bytes hr hne =>
      have hok' := (ok_copyToClone (x := receiveFromClient bytes x)
        (hok.appendClient (Sys.read_eq_some hr).2) bytes.length).afterClientRead
      obtain ⟨connected, fd', buffer, used, hs⟩ :=
        session_copyToClone bytes.length (receiveFromClient bytes x)
      have hready : (forwardClientRead bytes.length
          (receiveFromClient bytes x)).session.state.memReadReady = true →
            (forwardClientRead bytes.length (receiveFromClient bytes x)).session.memberUsedBuffer
              < messageSizeLimit := by
        rw [session_forwardClientRead, hs]
        exact hroom.ready
      refine ⟨hready, fun hinv => ?_⟩
      have hbit := invites_member_maintainClientRead hok' hinv
      rw [session_forwardClientRead] at hready ⊢
      exact hready hbit
  | toClient fd w k hw hm =>
      obtain ⟨-, hk, hpos⟩ := Sys.write_eq_some hw
      have hlt : ((x.session.drainMember k).freeMember).memberUsedBuffer < messageSizeLimit := by
        have hused : ((x.session.drainMember k).freeMember).memberUsedBuffer
            = x.session.memberUsedBuffer - k := by
          unfold Session.freeMember
          split_ifs <;> rfl
        omega
      exact ⟨fun _ => hlt, fun _ => hlt⟩
  | fromMember fd r env bytes hr hne =>
      have hlen := (Sys.read_eq_some hr).2
      have hready : (x.session.appendMember bytes).state.memReadReady = true →
          (x.session.appendMember bytes).memberUsedBuffer < messageSizeLimit := by
        show (if x.session.memberUsedBuffer + bytes.length = messageSizeLimit then false else _)
          = true → x.session.memberUsedBuffer + bytes.length < messageSizeLimit
        split_ifs with hfull
        · exact nofun
        · intro _
          omega
      exact ⟨hready, fun hinv => hready (invites_member_maintainMemberRead hinv)⟩
  | toMember fd w k hw =>
      have hne := hbad fd w k rfl hw
      have hlt : x.session.memberUsedBuffer < messageSizeLimit := by omega
      exact ⟨fun _ => hlt, fun _ => hlt⟩
  | fromClone fd r env bytes =>
      refine ⟨hroom.ready, fun hinv => hroom.invited ?_⟩
      exact hinv.congr rfl (Sys.interest_modifyServer _ _ _)
  | toClone fd w k hw =>
      refine ⟨hroom.ready, fun hinv => hroom.invited ?_⟩
      have hinv' := invites_watch_of_ne (hok.drainClone k) (by decide) hinv
      exact hinv'.congr rfl (Sys.interest_modifyServer _ _ _)
  | disconnected call kind hrole =>
      have hused : (disconnectServer kind x).session.memberUsedBuffer =
          x.session.memberUsedBuffer :=
        field_disconnectServer Session.memberUsedBuffer (by cases kind <;> rfl)
      have hready : (disconnectServer kind x).session.state.memReadReady =
          x.session.state.memReadReady :=
        field_disconnectServer (fun s => s.state.memReadReady) (by cases kind <;> rfl)
      constructor
      · rw [hused, hready]
        exact hroom.ready
      · intro hinv
        rw [hused]
        exact hroom.invited (invites_disconnectServer hinv)

/-! ## Runs -/

/-- What the exactness argument carries along. -/
structure RoomInv (x : Ctx n L) : Prop where
  ok : x.session.Ok
  client : x.session.state.cliConnected = true → ClientRoom x

theorem roomInv_handle [LoadArith L] {x y : Ctx n L} (h : RoomInv x) {call : Call}
    (hcall : handle call x = some y) : RoomInv y :=
  have he := effect_of_handle h.ok.fresh hcall
  ⟨ok_effect h.ok he, clientRoom_effect h.ok h.client he⟩

theorem roomOk_handle [LoadArith L] {x y : Ctx n L} (h : RoomInv x) (hP : RoomOk x) {call : Call}
    (hgood : ¬ WritesWhileFull x call) (hpossible : call.Possible x)
    (hcall : handle call x = some y) : RoomOk y := by
  intro hc hm
  have he := effect_of_handle h.ok.fresh hcall
  obtain ⟨hcx, hmx⟩ := connected_of_effect he
  refine ⟨clientRoom_effect h.ok h.client he hc,
    memberRoom_effect h.ok (hP (hcx hc) (hmx hm)).2 he ?_⟩
  rintro fd w k rfl hw hfull
  have hopen := (Sys.write_eq_some hw).1
  have hfd : x.session.memberfd = some fd := by
    rcases hpossible with hfd | hclosed
    · exact hfd
    · exact absurd (hopen.symm.trans hclosed) (by decide)
  cases w with
  | error => cases hw
  | accept count => exact hgood ⟨fd, count, rfl, hfd, hopen, hcx hc, hmx hm, hfull⟩

/-- The bad call sets `STATE_MEM_READ_READY` on a full buffer. -/
theorem not_roomOk_of_writesWhileFull [LoadArith L] {x : Ctx n L} {call : Call}
    (h : WritesWhileFull x call) :
    ∃ y, (sessionMachine n L).step x call = some y ∧ ¬ RoomOk y := by
  obtain ⟨fd, count, rfl, hfd, hopen, hc, hm, hfull⟩ := h
  have hpossible : Call.Possible x (.write .member fd (.accept count)) := Or.inl hfd
  have hwrite : ∃ k, x.sys.write fd x.session.clientUsedBuffer (.accept count) = some k := by
    rw [Sys.write, if_pos hopen]
    exact ⟨_, rfl⟩
  obtain ⟨k, hk⟩ := hwrite
  refine ⟨maintainMemberWrite (sendToMember k x), ?_, fun hP => ?_⟩
  · show (if _ then _ else _) = _
    rw [if_pos hpossible]
    show some (memberWrite fd (.accept count) x) = _
    rw [memberWrite, hk]
  · have hroom := (hP hc hm).2.ready rfl
    change x.session.memberUsedBuffer < messageSizeLimit at hroom
    omega

theorem roomOk_accepted [LoadArith L] {x : Ctx n L} (h : Accepted x) : RoomInv x ∧ RoomOk x := by
  have hok := accepted_ok h
  rcases accepted_cases h with hx | ⟨z, reason, hz, -, rfl⟩
  · have hc : ClientRoom x := by
      constructor <;> intro _ <;> rw [hx.clientUsedBuffer] <;> exact messageSizeLimit_pos
    have hm : MemberRoom x := by
      constructor <;> intro _ <;> rw [hx.memberUsedBuffer] <;> exact messageSizeLimit_pos
    exact ⟨⟨hok, fun _ => hc⟩, fun _ _ => ⟨hc, hm⟩⟩
  · exact ⟨⟨hok, nofun⟩, nofun⟩

/-- **Exactly when reads are requested only with room.**  A run keeps the
property in all its states exactly if it makes no successful `member_write`
while the member buffer is full. -/
theorem room_always_iff [LoadArith L] {x : Ctx n L} (h : Accepted x) (calls : List Call) :
    (∀ y ∈ (sessionMachine n L).states x calls, RoomOk y)
      ↔ ∀ v ∈ (sessionMachine n L).visits x calls, ¬ WritesWhileFull v.1 v.2 := by
  obtain ⟨hinv, hP⟩ := roomOk_accepted h
  refine (sessionMachine n L).always_iff RoomInv RoomOk WritesWhileFull ?_ ?_ ?_ hinv hP calls
  · intro s call t hs hstep
    exact roomInv_handle hs (sessionMachine_step hstep).2
  · intro s call t hs hPs hgood hstep
    obtain ⟨hpossible, hcall⟩ := sessionMachine_step hstep
    exact roomOk_handle hs hPs hgood hpossible hcall
  · intro s call _ _ hbad
    exact not_roomOk_of_writesWhileFull hbad

/-- One request and one answer. -/
def shortExchange : List Call :=
  [.read .client 5 (.data [65]) sampleEnv.connect, .write .member 6 (.accept 1),
    .read .member 6 (.data [66]) sampleEnv.connect]

/-- The exchange makes no such call. -/
theorem room_of_short_exchange :
    Accepted sampleSession
      ∧ ∀ y ∈ (sessionMachine 1 ℤ).states sampleSession shortExchange, RoomOk y := by
  refine ⟨accepted_sampleSession, (room_always_iff accepted_sampleSession _).mpr ?_⟩
  intro v hv hbad
  obtain ⟨fd, count, -, -, -, -, -, hfull⟩ := hbad
  have hsmall : ∀ v ∈ (sessionMachine 1 ℤ).visits sampleSession shortExchange,
      v.1.session.memberUsedBuffer ≠ messageSizeLimit := by decide +kernel
  exact hsmall v hv hfull

/-- The member buffer is full when the session writes one byte to the member. -/
def fullThenWrite : List Call :=
  [.read .client 5 (.data [65]) sampleEnv.connect,
    .read .member 6 (.data (List.replicate messageSizeLimit 66)) sampleEnv.connect,
    .write .member 6 (.accept 1)]

/-- A read is requested although there is no room. -/
theorem read_requested_without_room :
    Accepted sampleSession
      ∧ ¬ ∀ y ∈ (sessionMachine 1 ℤ).states sampleSession fullThenWrite, RoomOk y := by
  refine ⟨accepted_sampleSession, fun h => ?_⟩
  have hrun : ((sessionMachine 1 ℤ).run sampleSession fullThenWrite).any (fun y =>
      y.session.state.cliConnected && y.session.state.memConnected
        && y.session.state.memReadReady && (y.session.memberUsedBuffer == messageSizeLimit))
      = true := by decide +kernel
  obtain ⟨y, hy, hcond⟩ := (Option.any_eq_true _ _).mp hrun
  simp only [Bool.and_eq_true, beq_iff_eq] at hcond
  obtain ⟨⟨⟨hc, hm⟩, hready⟩, hfull⟩ := hcond
  have hroom := (h y ((sessionMachine 1 ℤ).mem_states_of_run hy) hc hm).2.ready hready
  exact absurd hfull (Nat.ne_of_lt hroom)

end OctopusLB
