/-
# The copy for the clone

What the client sends is queued a second time for a connected clone.  The copy
is made with `strncpy`, which stops at the first zero byte and pads: it is exact
only for bytes that have nothing but zero bytes after the first one.
`cloneStream_always_iff` says that this is the only thing that goes wrong, and
that giving up the clone is harmless to the rest of the session.
-/
import OctopusLB.BufferRoom

namespace OctopusLB

variable {n : ℕ} {L : Type}

/-- The bytes waiting for the clone. -/
def Session.cloneQueue (s : Session) : List UInt8 :=
  s.cloneWriteBuffer.contents s.cloneUsedBuffer

/-! ## What the session functions do to the queue -/

/-- The chunk for the clone is what `strncpy` makes of the bytes just read. -/
theorem cloneChunk_appendClient {s : Session} {bytes : List UInt8} (hs : s.Ok)
    (h : bytes.length ≤ messageSizeLimit - s.clientUsedBuffer) :
    (s.appendClient bytes).cloneChunk bytes.length = CString.strncpy bytes.length bytes := by
  have hle := hs.client_le
  have hslice := s.clientReadBuffer.slice_store s.clientUsedBuffer bytes (by omega)
  have hoff : (s.appendClient bytes).clientUsedBuffer - bytes.length = s.clientUsedBuffer :=
    Nat.add_sub_cancel ..
  rw [Session.cloneChunk, hoff, ← CString.strncpy_take]
  exact congrArg (CString.strncpy bytes.length) hslice

theorem cloneQueue_appendClone {s : Session} {nbytes : ℕ} (hs : s.Ok)
    (h : nbytes ≤ messageSizeLimit - s.cloneUsedBuffer) :
    (s.appendClone nbytes).cloneQueue = s.cloneQueue ++ s.cloneChunk nbytes := by
  have hle := hs.clone_le
  have hlen : (s.cloneChunk nbytes).length = nbytes := CString.length_strncpy ..
  have hstore := s.cloneWriteBuffer.contents_store s.cloneUsedBuffer (s.cloneChunk nbytes)
    (by omega)
  rw [hlen] at hstore
  exact hstore

theorem cloneQueue_drainClone {s : Session} {k : ℕ} (hs : s.Ok) (h : k ≤ s.cloneUsedBuffer) :
    s.cloneQueue.take k ++ (s.drainClone k).cloneQueue = s.cloneQueue :=
  s.cloneWriteBuffer.take_append_contents_drain h hs.clone_le

/-! ## Giving up the clone -/

/-- The client and member sides are the same in `y` as in `x`: the record up to
its clone fields, the two descriptors, the servers other than the clone, and the
history. -/
structure SidesKept (x y : Ctx n L) : Prop where
  session : ∃ connected fd buffer used, y.session = { x.session with
    state := { x.session.state with cloConnected := connected }
    clonefd := fd
    cloneWriteBuffer := buffer
    cloneUsedBuffer := used }
  isOpen : ∀ role fd, role ≠ .clone → x.session.fdOf role = some fd →
    y.sys.isOpen fd = x.sys.isOpen fd
  interest : ∀ role fd, role ≠ .clone → x.session.fdOf role = some fd →
    y.sys.interest fd = x.sys.interest fd
  fds : y.sys.fds = x.sys.fds
  unused : y.sys.unused = x.sys.unused
  servers : ∀ p, x.session.clone ≠ some p →
    y.sys.chooser.balancer.servers p = x.sys.chooser.balancer.servers p
  history : y.history = x.history

theorem SidesKept.refl (x : Ctx n L) : SidesKept x x :=
  ⟨⟨_, _, _, _, rfl⟩, fun _ _ _ _ => rfl, fun _ _ _ _ => rfl, rfl, rfl, fun _ _ => rfl, rfl⟩

/-- **`disconnect_clone` is harmless.** -/
theorem sidesKept_disconnectClone {x : Ctx n L} (hok : x.session.Ok) :
    SidesKept x (disconnectClone x) := by
  unfold disconnectClone disconnectServer
  cases hfd : x.session.serverfd .clone with
  | none => exact .refl x
  | some fd =>
      have hne : ∀ role fd', role ≠ .clone → x.session.fdOf role = some fd' → fd' ≠ fd := by
        rintro role fd' hrole hr rfl
        exact hrole (hok.distinct role .clone fd' hr hfd)
      refine ⟨⟨_, _, _, _, rfl⟩, ?_, ?_, ?_, ?_, ?_, rfl⟩
      · intro role fd' hrole hr
        show Function.update (x.sys.modifyServer (x.session.server .clone) _).isOpen fd false fd' = _
        rw [Function.update_of_ne (hne role fd' hrole hr), Sys.isOpen_modifyServer]
      · intro role fd' hrole hr
        show Function.update (x.sys.modifyServer (x.session.server .clone) _).interest fd none fd'
          = _
        rw [Function.update_of_ne (hne role fd' hrole hr), Sys.interest_modifyServer]
      · exact Sys.fds_modifyServer ..
      · exact Sys.unused_modifyServer ..
      · intro p hp
        exact (Sys.servers_modifyServer ..).trans (if_neg hp)

/-- Passing bytes on to the clone is harmless, also when they do not fit. -/
theorem sidesKept_copyToClone {x : Ctx n L} (hok : x.session.Ok) (nbytes : ℕ) :
    SidesKept x (copyToClone nbytes x) := by
  unfold copyToClone
  split_ifs
  · exact sidesKept_disconnectClone hok
  · exact ⟨⟨_, _, _, _, rfl⟩, fun _ _ _ _ => rfl, fun _ _ _ _ => rfl, rfl, rfl, fun _ _ => rfl, rfl⟩
  · exact .refl x

/-- A clone that is given up is no longer connected. -/
theorem cloConnected_disconnectClone {x : Ctx n L} (hok : x.session.Ok) :
    (disconnectServer .clone x).session.state.cloConnected = false :=
  connected_disconnectServer hok .clone .clone

/-! ## The property -/

/-- The copy for the clone is exact, and giving the clone up is harmless,
whether in `clone_read`, in `clone_write` or for want of room in `client_read`. -/
structure CloneExact (x : Ctx n L) : Prop where
  used_le : x.session.cloneUsedBuffer ≤ messageSizeLimit
  balanced : x.session.state.cloConnected = true →
    x.history.Balanced Obs.isCloneConnected .client .clone x.session.cloneQueue
  cutLoose : SidesKept x (disconnectClone x)
  overflow : ∀ bytes, bytes.length ≤ messageSizeLimit - x.session.clientUsedBuffer →
    SidesKept (receiveFromClient bytes x) (copyToClone bytes.length (receiveFromClient bytes x))

/-- What the invariant of the record gives. -/
theorem cloneExact_of_ok {x : Ctx n L} (hok : x.session.Ok)
    (h : x.session.state.cloConnected = true →
      x.history.Balanced Obs.isCloneConnected .client .clone x.session.cloneQueue) :
    CloneExact x where
  used_le := hok.clone_le
  balanced := h
  cutLoose := sidesKept_disconnectClone hok
  overflow := fun bytes hlen =>
    sidesKept_copyToClone (x := receiveFromClient bytes x) (hok.appendClient hlen) bytes.length

/-- A read from the client whose bytes are passed on to a connected clone and
have a byte other than zero after a zero byte. -/
def ClipsCopy (x : Ctx n L) (call : Call) : Prop :=
  ∃ fd bytes env, call = .read .client fd (.data bytes) env ∧ x.session.clientfd = some fd ∧
    x.sys.isOpen fd = true ∧ x.session.state.cloConnected = true ∧
    (bytes.take (messageSizeLimit - x.session.clientUsedBuffer)).length
      ≤ messageSizeLimit - x.session.cloneUsedBuffer ∧
    ¬ CString.ZeroPadded (bytes.take (messageSizeLimit - x.session.clientUsedBuffer))

/-- The state of the clone side after a read from the client. -/
theorem session_forwardClientRead_fits {x : Ctx n L} {bytes : List UInt8}
    (hc : x.session.state.cloConnected = true)
    (hfits : bytes.length ≤ messageSizeLimit - x.session.cloneUsedBuffer) :
    (forwardClientRead bytes.length (receiveFromClient bytes x)).session
      = ((x.session.appendClient bytes).appendClone bytes.length).afterClientRead := by
  have hroom : ¬ bytes.length
      > messageSizeLimit - (receiveFromClient bytes x).session.cloneUsedBuffer := not_lt.mpr hfits
  have hc' : (receiveFromClient bytes x).session.state.cloConnected = true := hc
  rw [session_forwardClientRead, copyToClone, if_pos hc', if_neg hroom]
  rfl

/-- Bytes that fit are queued as `strncpy` copies them. -/
theorem cloneQueue_forwardClientRead {x : Ctx n L} (hok : x.session.Ok) {bytes : List UInt8}
    (hlen : bytes.length ≤ messageSizeLimit - x.session.clientUsedBuffer)
    (hc : x.session.state.cloConnected = true)
    (hfits : bytes.length ≤ messageSizeLimit - x.session.cloneUsedBuffer) :
    (forwardClientRead bytes.length (receiveFromClient bytes x)).session.cloneQueue
      = x.session.cloneQueue ++ CString.strncpy bytes.length bytes := by
  rw [session_forwardClientRead_fits hc hfits]
  show ((x.session.appendClient bytes).appendClone bytes.length).cloneQueue = _
  rw [cloneQueue_appendClone (hok.appendClient hlen) hfits, cloneChunk_appendClient hok hlen]
  rfl

/-- A clone that is still connected after a read from the client was connected
before it, and the bytes fitted. -/
theorem fits_of_cloConnected {x : Ctx n L} (hok : x.session.Ok) {bytes : List UInt8}
    (hlen : bytes.length ≤ messageSizeLimit - x.session.clientUsedBuffer)
    (h : (forwardClientRead bytes.length
      (receiveFromClient bytes x)).session.state.cloConnected = true) :
    x.session.state.cloConnected = true
      ∧ bytes.length ≤ messageSizeLimit - x.session.cloneUsedBuffer := by
  rw [session_forwardClientRead] at h
  change (copyToClone bytes.length (receiveFromClient bytes x)).session.state.cloConnected = true
    at h
  unfold copyToClone at h
  split_ifs at h with hc hroom
  · rw [disconnectClone, cloConnected_disconnectClone (hok.appendClient hlen)] at h
    cases h
  · exact ⟨hc, not_lt.mp hroom⟩
  · exact absurd h hc

/-- Every other call keeps the copy exact. -/
theorem cloneBalanced_effect {x y : Ctx n L} (hok : x.session.Ok)
    (h : x.session.state.cloConnected = true →
      x.history.Balanced Obs.isCloneConnected .client .clone x.session.cloneQueue)
    {call : Call} (he : Effect x call y)
    (hgood : ∀ fd r env bytes, call = .read .client fd r env →
      x.sys.read fd (messageSizeLimit - x.session.clientUsedBuffer) r = some bytes →
        x.session.state.cloConnected = true →
          bytes.length ≤ messageSizeLimit - x.session.cloneUsedBuffer →
            CString.ZeroPadded bytes)
    (hc : y.session.state.cloConnected = true) :
    y.history.Balanced Obs.isCloneConnected .client .clone y.session.cloneQueue := by
  cases he with
  | clientEof => cases hc
  | clientGone => cases hc
  | delivered => cases hc
  | memberGone => cases hc
  | fromClient fd r env bytes hr hne =>
      have hlen := (Sys.read_eq_some hr).2
      obtain ⟨hcx, hfits⟩ := fits_of_cloConnected hok hlen hc
      have hexact := (CString.strncpy_eq_self_iff bytes).mpr (hgood fd r env bytes rfl hr hcx hfits)
      rw [cloneQueue_forwardClientRead hok hlen hcx hfits, hexact, history_forwardClientRead]
      exact (h hcx).receive rfl
  | toClient fd w k hw hm =>
      have hsame : ((x.session.drainMember k).freeMember).cloneQueue = x.session.cloneQueue
          ∧ ((x.session.drainMember k).freeMember).state.cloConnected
            = x.session.state.cloConnected := by
        unfold Session.freeMember
        split_ifs <;> exact ⟨rfl, rfl⟩
      have hb := (h (hsame.2.symm.trans hc)).other
        (o := .sent .client ((x.session.memberReadBuffer.contents
          x.session.memberUsedBuffer).take k)) rfl rfl rfl
      rw [← hsame.1] at hb
      exact hb
  | fromMember fd r env bytes hr hne => exact (h hc).other rfl rfl rfl
  | toMember fd w k hw => exact (h hc).other rfl rfl rfl
  | fromClone fd r env bytes => exact (h hc).other rfl rfl rfl
  | toClone fd w k hw =>
      have hb := h hc
      rw [← cloneQueue_drainClone hok (Sys.write_eq_some hw).2.1] at hb
      exact hb.send rfl
  | disconnected call kind hrole =>
      cases kind with
      | member =>
          have hqueue : (disconnectServer .member x).session.cloneQueue = x.session.cloneQueue :=
            field_disconnectServer Session.cloneQueue rfl
          have hclone : (disconnectServer .member x).session.state.cloConnected =
              x.session.state.cloConnected :=
            field_disconnectServer (fun s => s.state.cloConnected) rfl
          rw [history_disconnectServer, hqueue]
          exact h (hclone.symm.trans hc)
      | clone =>
          rw [cloConnected_disconnectClone hok] at hc
          cases hc

/-- The bad call queues other bytes than it has read. -/
theorem not_cloneExact_of_clipsCopy [LoadArith L] {x : Ctx n L} (hok : x.session.Ok)
    (hx : CloneExact x) {call : Call} (h : ClipsCopy x call) :
    ∃ y, (sessionMachine n L).step x call = some y ∧ ¬ CloneExact y := by
  obtain ⟨fd, data, env, rfl, hfd, hopen, hc, hfits, hzero⟩ := h
  have hpossible : Call.Possible x (.read .client fd (.data data) env) := hfd
  have hread : x.sys.read fd (messageSizeLimit - x.session.clientUsedBuffer) (.data data)
      = some (data.take (messageSizeLimit - x.session.clientUsedBuffer)) := by
    rw [Sys.read, if_pos hopen]
  generalize data.take (messageSizeLimit - x.session.clientUsedBuffer) = bytes at hread hfits hzero
  have hlen := (Sys.read_eq_some hread).2
  refine ⟨forwardClientRead bytes.length (receiveFromClient bytes x), ?_, fun hy => ?_⟩
  · show (if _ then _ else _) = _
    rw [if_pos hpossible]
    show clientRead fd (.data data) env x = _
    rw [clientRead_of_not_fresh hok.fresh, hread]
    cases bytes with
    | nil => exact absurd (fun b hb => absurd hb List.not_mem_nil) hzero
    | cons b bs => rfl
  · have hcy : (forwardClientRead bytes.length
        (receiveFromClient bytes x)).session.state.cloConnected = true := by
      rw [session_forwardClientRead_fits hc hfits]
      exact hc
    have hbal := hy.balanced hcy
    rw [cloneQueue_forwardClientRead hok hlen hc hfits, history_forwardClientRead] at hbal
    have hexact : x.history.Balanced Obs.isCloneConnected .client .clone
        (x.session.cloneQueue) := hx.balanced hc
    have hgood : History.Balanced Obs.isCloneConnected .client .clone
        (x.session.cloneQueue ++ bytes) (.received .client bytes :: x.history) :=
      hexact.receive rfl
    -- both queues complete the same bytes sent to the same bytes received
    have hqueue := List.append_cancel_left (hbal.trans hgood.symm)
    exact hzero ((CString.strncpy_eq_self_iff bytes).mp (List.append_cancel_left hqueue))

theorem cloneExact_accepted [LoadArith L] {x : Ctx n L} (h : Accepted x) : CloneExact x := by
  refine cloneExact_of_ok (accepted_ok h) fun hc => ?_
  rcases accepted_cases h with hx | ⟨z, reason, -, -, rfl⟩
  · obtain ⟨hrecv, hsent⟩ := hx.noCloneBytes hc
    show x.history.sinceCloneConnected.sent .clone ++ _ =
      x.history.sinceCloneConnected.received .client
    rw [hrecv, hsent, Session.cloneQueue, hx.cloneUsedBuffer]
    rfl
  · cases hc

/-- **Client-to-clone integrity, exactly.**  A run keeps the copy exact exactly
if no read from the client passes on a byte other than zero after a zero
byte. -/
theorem cloneStream_always_iff [LoadArith L] {x : Ctx n L} (h : Accepted x)
    (calls : List Call) :
    (∀ y ∈ (sessionMachine n L).states x calls, CloneExact y)
      ↔ ∀ v ∈ (sessionMachine n L).visits x calls, ¬ ClipsCopy v.1 v.2 := by
  refine (sessionMachine n L).always_iff (fun y => y.session.Ok) CloneExact ClipsCopy ?_ ?_ ?_
    (accepted_ok h) (cloneExact_accepted h) calls
  · intro s call t hok hstep
    exact ok_handle hok (sessionMachine_step hstep).2
  · intro s call t hok hs hgood hstep
    obtain ⟨hpossible, hcall⟩ := sessionMachine_step hstep
    refine cloneExact_of_ok (ok_handle hok hcall)
      (cloneBalanced_effect hok hs.balanced (effect_of_handle hok.fresh hcall) ?_)
    rintro fd r env bytes rfl hr hc hfits
    by_contra hzero
    have hopen := (Sys.read_eq_some hr).1
    cases r with
    | error => cases hr
    | data data =>
        rw [Sys.read, if_pos hopen, Option.some.injEq] at hr
        subst hr
        exact hgood ⟨fd, data, env, rfl, hpossible, hopen, hc, hfits, hzero⟩
  · intro s call hok hs hbad
    exact not_cloneExact_of_clipsCopy hok hs hbad

/-- A request without zero bytes. -/
def textRequest : List Call :=
  [.read .client 5 (.data [71, 69, 84]) sampleEnv.connect, .write .clone 7 (.accept 2)]

/-- It is copied exactly. -/
theorem cloneStream_of_text_request :
    Accepted sampleSession
      ∧ ∀ y ∈ (sessionMachine 1 ℤ).states sampleSession textRequest, CloneExact y := by
  refine ⟨accepted_sampleSession, (cloneStream_always_iff accepted_sampleSession _).mpr ?_⟩
  intro v hv hbad
  obtain ⟨fd, bytes, env, hcall, -, -, -, -, hzero⟩ := hbad
  rcases List.mem_cons.mp hv with rfl | hv
  · obtain ⟨-, -, hdata, -⟩ := Call.read.inj hcall
    rw [← ReadOutcome.data.inj hdata] at hzero
    exact hzero (by decide +kernel)
  · have hwrites : ∀ v ∈ ((sessionMachine 1 ℤ).visits sampleSession textRequest).tail,
        v.2.role = .clone := by decide +kernel
    have hrole := hwrites v hv
    rw [hcall] at hrole
    cases hrole

/-- The client sends a zero byte and then another one. -/
def binaryRequest : List Call := [.read .client 5 (.data [65, 0, 66]) sampleEnv.connect]

/-- The byte after the zero byte is queued for the clone as zero. -/
theorem binary_request_clipped :
    Accepted sampleSession
      ∧ ¬ ∀ y ∈ (sessionMachine 1 ℤ).states sampleSession binaryRequest, CloneExact y := by
  refine ⟨accepted_sampleSession, fun h => ?_⟩
  have hrun : ((sessionMachine 1 ℤ).run sampleSession binaryRequest).any (fun y =>
      y.session.state.cloConnected && y.session.cloneQueue == [65, 0, 0]
        && History.sent .clone (History.since Obs.isCloneConnected y.history) == []
        && History.received .client (History.since Obs.isCloneConnected y.history) == [65, 0, 66])
      = true := by decide +kernel
  obtain ⟨y, hy, hcond⟩ := (Option.any_eq_true _ _).mp hrun
  simp only [Bool.and_eq_true, beq_iff_eq] at hcond
  obtain ⟨⟨⟨hc, hqueue⟩, hsent⟩, hrecv⟩ := hcond
  have hbal := (h y ((sessionMachine 1 ℤ).mem_states_of_run hy)).balanced hc
  rw [History.Balanced, hqueue, hsent, hrecv] at hbal
  exact absurd hbal (by decide)

end OctopusLB
