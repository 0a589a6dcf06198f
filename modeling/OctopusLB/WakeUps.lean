/-
# No wake-up is lost

A session moves bytes only when epoll reports one of its descriptors, so what
is still to be done must always be among the events that the descriptors are
registered for.  Every handler registers them again by hand, with case lists
that rely on what the state bits mean; `Session.Flags` says what they mean, and
`wakes_of_mem_states` that the registrations always cover what is to be done.
-/
import OctopusLB.CloneStream

namespace OctopusLB

variable {n : ℕ} {L : Type}

/-! ## Registered interest -/

/-- The interest last registered for the descriptor of a peer. -/
def Ctx.watched (x : Ctx n L) (role : Role) : Option Interest :=
  (x.session.fdOf role).bind x.sys.interest

/-- The descriptor is registered, for `EPOLLIN` and for `EPOLLOUT` where they
are wanted. -/
def Covers (o : Option Interest) (input output : Prop) : Prop :=
  ∃ i, o = some i ∧ (input → i.input = true) ∧ (output → i.output = true)

theorem Covers.mono {o : Option Interest} {input output input' output' : Prop}
    (h : Covers o input output) (hin : input' → input) (hout : output' → output) :
    Covers o input' output' := by
  obtain ⟨i, hi, hinput, houtput⟩ := h
  exact ⟨i, hi, fun hw => hinput (hin hw), fun hw => houtput (hout hw)⟩

/-- What the four-way choice registers covers the two bits it is made from. -/
theorem covers_interestOf {o : Option Interest} {read write : Bool}
    (h : o = some (interestOf read write)) : Covers o (read = true) (write = true) :=
  ⟨_, h, fun hr => (interestOf_input read write).trans hr,
    fun hw => (interestOf_output read write).trans hw⟩

section Watched

variable {x y : Ctx n L}

/-- Where neither the descriptor nor its registration changes. -/
theorem watched_congr {role : Role} (hfd : y.session.fdOf role = x.session.fdOf role)
    (hi : ∀ fd, x.session.fdOf role = some fd → y.sys.interest fd = x.sys.interest fd) :
    y.watched role = x.watched role := by
  unfold Ctx.watched
  rw [hfd]
  cases hr : x.session.fdOf role with
  | none => rfl
  | some fd => exact hi fd hr

theorem watched_watch_self {role : Role} {i j : Interest} (h : x.watched role = some j) :
    (x.watch role i).watched role = some i := by
  obtain ⟨fd, hfd, hj⟩ := Option.bind_eq_some_iff.mp h
  refine Option.bind_eq_some_iff.mpr ⟨fd, hfd, ?_⟩
  show (x.sys.epollMod (x.session.fdOf role) i).interest fd = some i
  rw [interest_epollMod, if_pos ⟨hfd, by rw [hj]; rfl⟩]

theorem watched_watch_of_ne (hok : x.session.Ok) {role role' : Role} (hne : role' ≠ role)
    (i : Interest) : (x.watch role i).watched role' = x.watched role' := by
  refine watched_congr rfl fun fd hr => ?_
  show (x.sys.epollMod (x.session.fdOf role) i).interest fd = _
  rw [interest_epollMod, if_neg]
  rintro ⟨hfd, -⟩
  exact hne (hok.distinct role' role fd hr hfd)

/-- What registering two descriptors in turn leaves. -/
theorem watched_watch_both (hok : x.session.Ok) {i j : Interest}
    (hc : x.watched .client = some i) (hm : x.watched .member = some j) (i' j' : Interest) :
    ((x.watch .client i').watch .member j').watched .client = some i' ∧
      ((x.watch .client i').watch .member j').watched .member = some j' ∧
      ((x.watch .client i').watch .member j').watched .clone = x.watched .clone := by
  have hok' : (x.watch .client i').session.Ok := hok
  refine ⟨?_, ?_, ?_⟩
  · rw [watched_watch_of_ne hok' (by decide)]
    exact watched_watch_self hc
  · apply watched_watch_self (j := j)
    rw [watched_watch_of_ne hok (by decide)]
    exact hm
  · rw [watched_watch_of_ne hok' (by decide), watched_watch_of_ne hok (by decide)]

/-- Giving up the clone leaves the others registered as they are. -/
theorem watched_disconnectClone (hok : x.session.Ok) {role : Role} (hne : role ≠ .clone) :
    (disconnectServer .clone x).watched role = x.watched role := by
  have hkept := sidesKept_disconnectClone hok
  apply watched_congr
  · rw [session_disconnectServer]
    split_ifs
    · cases role
      · rfl
      · rfl
      · exact absurd rfl hne
    · rfl
  · intro fd hr
    exact hkept.interest role fd hne hr

theorem watched_copyToClone (hok : x.session.Ok) {role : Role} (hne : role ≠ .clone)
    (nbytes : ℕ) : (copyToClone nbytes x).watched role = x.watched role := by
  unfold copyToClone
  split_ifs
  · exact watched_disconnectClone hok hne
  · exact watched_congr (by cases role <;> rfl) fun _ _ => rfl
  · rfl

end Watched

/-! ## What the state bits mean -/

/-- The state bits and the fill of the buffers agree. -/
structure Session.Flags (s : Session) : Prop where
  write_client : 0 < s.memberUsedBuffer → s.state.cliWriteReady = true
  write_member : 0 < s.clientUsedBuffer → s.state.memWriteReady = true
  write_clone : s.state.cloConnected = true → 0 < s.cloneUsedBuffer →
    s.state.cloWriteReady = true
  read_client : s.clientUsedBuffer < messageSizeLimit → s.state.cliReadReady = true
  read_member : s.memberUsedBuffer < messageSizeLimit → s.state.memReadReady = true
  full_client : s.state.cliReadReady = false → s.state.cliBuffFull = true
  full_member : s.state.memReadReady = false → s.state.memBuffFull = true

namespace Session.Flags

variable {s : Session}

/-- A read from the client, whatever becomes of the clone. -/
theorem forwardClientRead (h : s.Flags) {bytes : List UInt8} (connected : Bool) (fd : Option Fd)
    (buffer : FixedBuffer UInt8 messageSizeLimit) (used : ℕ) :
    (Session.afterClientRead { s.appendClient bytes with
      state := { s.state with cloConnected := connected }
      clonefd := fd
      cloneWriteBuffer := buffer
      cloneUsedBuffer := used }).Flags where
  write_client := h.write_client
  write_member := fun _ => rfl
  write_clone := fun _ _ => rfl
  read_client := by
    intro hroom
    change s.clientUsedBuffer + bytes.length < messageSizeLimit at hroom
    show (if s.clientUsedBuffer + bytes.length = messageSizeLimit then false
      else s.state.cliReadReady) = true
    rw [if_neg (by omega)]
    exact h.read_client (by omega)
  read_member := h.read_member
  full_client := by
    show (if s.clientUsedBuffer + bytes.length = messageSizeLimit then false
        else s.state.cliReadReady) = false →
      (if s.clientUsedBuffer + bytes.length = messageSizeLimit then true
        else s.state.cliBuffFull) = true
    split_ifs
    · exact fun _ => rfl
    · exact h.full_client
  full_member := h.full_member

/-- A write to the client, and the room that it makes. -/
theorem drainMember (h : s.Flags) (k : ℕ) :
    (s.drainMember k).freeMember.Flags := by
  have hwrite : 0 < s.memberUsedBuffer - k →
      (if s.memberUsedBuffer - k = 0 then false else s.state.cliWriteReady) = true := by
    intro hpos
    rw [if_neg (by omega)]
    exact h.write_client (by omega)
  by_cases hfull : s.state.memBuffFull = true
  · have hfree : (s.drainMember k).freeMember = { s.drainMember k with
        state := { (s.drainMember k).state with memBuffFull := false, memReadReady := true } } :=
      if_pos hfull
    rw [hfree]
    exact ⟨hwrite, h.write_member, h.write_clone, h.read_client, fun _ => rfl, h.full_client,
      fun hr => by cases hr⟩
  · have hfree : (s.drainMember k).freeMember = s.drainMember k := if_neg hfull
    have hready : s.state.memReadReady = true := by
      by_contra hr
      exact hfull (h.full_member (Bool.eq_false_of_not_eq_true hr))
    rw [hfree]
    exact ⟨hwrite, h.write_member, h.write_clone, h.read_client, fun _ => hready, h.full_client,
      h.full_member⟩

/-- A read from the member. -/
theorem appendMember (h : s.Flags) (bytes : List UInt8) : (s.appendMember bytes).Flags where
  write_client := fun _ => rfl
  write_member := h.write_member
  write_clone := h.write_clone
  read_client := h.read_client
  read_member := by
    intro hroom
    change s.memberUsedBuffer + bytes.length < messageSizeLimit at hroom
    show (if s.memberUsedBuffer + bytes.length = messageSizeLimit then false
      else s.state.memReadReady) = true
    rw [if_neg (by omega)]
    exact h.read_member (by omega)
  full_client := h.full_client
  full_member := by
    show (if s.memberUsedBuffer + bytes.length = messageSizeLimit then false
        else s.state.memReadReady) = false →
      (if s.memberUsedBuffer + bytes.length = messageSizeLimit then true
        else s.state.memBuffFull) = true
    split_ifs
    · exact fun _ => rfl
    · exact h.full_member

/-- A write to the member. -/
theorem drainClient (h : s.Flags) (k : ℕ) : (s.drainClient k).Flags := by
  -- whether or not the buffer was full, the client may be read again
  have hready : (if s.state.cliBuffFull then true else s.state.cliReadReady) = true := by
    split_ifs with hfull
    · rfl
    · by_contra hr
      exact hfull (h.full_client (Bool.eq_false_of_not_eq_true hr))
  refine ⟨h.write_client, ?_, h.write_clone, fun _ => hready, fun _ => rfl, ?_, fun hr => ?_⟩
  · intro hpos
    change 0 < s.clientUsedBuffer - k at hpos
    show (if s.clientUsedBuffer - k = 0 then false else s.state.memWriteReady) = true
    rw [if_neg (by omega)]
    exact h.write_member (by omega)
  · intro hr
    exact absurd (hready.symm.trans hr) (by decide)
  · cases hr

/-- A write to the clone. -/
theorem drainClone (h : s.Flags) (k : ℕ) : (s.drainClone k).Flags where
  write_client := h.write_client
  write_member := h.write_member
  write_clone := by
    intro hc hpos
    change 0 < s.cloneUsedBuffer - k at hpos
    show (if s.cloneUsedBuffer - k = 0 then false else s.state.cloWriteReady) = true
    rw [if_neg (by omega)]
    exact h.write_clone hc (by omega)
  read_client := h.read_client
  read_member := h.read_member
  full_client := h.full_client
  full_member := h.full_member

/-- The clone is given up. -/
theorem clearClone (h : s.Flags) : (s.clearServer .clone).Flags :=
  { h with write_clone := fun hc => by cases hc }

end Session.Flags

/-! ## The property -/

/-- What is to be done is among the events that are waited for: bytes for a peer
mean `EPOLLOUT`, room for bytes from a peer means `EPOLLIN`. -/
structure Wakes (x : Ctx n L) : Prop where
  client : Covers (x.watched .client) (x.session.clientUsedBuffer < messageSizeLimit)
    (0 < x.session.memberUsedBuffer)
  member : Covers (x.watched .member) (x.session.memberUsedBuffer < messageSizeLimit)
    (0 < x.session.clientUsedBuffer)
  clone : x.session.state.cloConnected = true →
    Covers (x.watched .clone) True (0 < x.session.cloneUsedBuffer)

/-- What the induction over calls carries along. -/
structure WakeInv (x : Ctx n L) : Prop where
  ok : x.session.Ok
  flags : x.session.state.cliConnected = true → x.session.state.memConnected = true →
    x.session.Flags
  wakes : x.session.state.cliConnected = true → x.session.state.memConnected = true → Wakes x

section Effects

variable {x y : Ctx n L}

theorem flags_effect (h : x.session.Flags) {call : Call}
    (he : Effect x call y) (hc : y.session.state.cliConnected = true)
    (hm : y.session.state.memConnected = true) : y.session.Flags := by
  cases he with
  | clientEof => cases hc
  | clientGone => cases hc
  | delivered => cases hc
  | memberGone => cases hc
  | fromClient fd r env bytes hr hne =>
      obtain ⟨connected, fd', buffer, used, hs⟩ :=
        session_copyToClone bytes.length (receiveFromClient bytes x)
      rw [session_forwardClientRead, hs]
      exact h.forwardClientRead connected fd' buffer used
  | toClient fd w k hw _ => exact h.drainMember k
  | fromMember fd r env bytes hr hne => exact h.appendMember bytes
  | toMember fd w k hw => exact h.drainClient k
  | fromClone fd r env bytes => exact h
  | toClone fd w k hw => exact h.drainClone k
  | disconnected call kind hrole =>
      rw [session_disconnectServer] at hm ⊢
      split_ifs at hm ⊢
      · cases kind
        · cases hm
        · exact h.clearClone
      · exact h

/-- After a read from the client, both descriptors are registered for the bits,
and a clone that is still connected for everything. -/
theorem wakes_maintainClientRead (hok : x.session.Ok) (h : x.session.Flags) {i j : Interest}
    (hc : x.watched .client = some i) (hm : x.watched .member = some j)
    (hclone : x.session.state.cloConnected = true → ∃ k, x.watched .clone = some k) :
    Wakes (maintainClientRead x) := by
  obtain ⟨hwc, hwm, hwo⟩ := watched_watch_both hok hc hm
    (interestOf x.session.state.cliReadReady x.session.state.cliWriteReady)
    (if x.session.state.memReadReady then .rw else .wr)
  have hclient := (covers_interestOf hwc).mono h.read_client h.write_client
  have hmember : Covers (((x.watch .client
      (interestOf x.session.state.cliReadReady x.session.state.cliWriteReady)).watch .member
        (if x.session.state.memReadReady then .rw else .wr)).watched .member)
      (x.session.memberUsedBuffer < messageSizeLimit) (0 < x.session.clientUsedBuffer) := by
    refine ⟨_, hwm, fun hroom => ?_, fun _ => ?_⟩
    · rw [if_pos (h.read_member hroom)]
      rfl
    · split_ifs <;> rfl
  unfold maintainClientRead
  dsimp only
  by_cases ho : x.session.state.cloConnected = true
  · rw [if_pos ho]
    obtain ⟨k, hk⟩ := hclone ho
    refine ⟨?_, ?_, fun _ => ?_⟩
    · rw [watched_watch_of_ne (by exact hok) (by decide)]
      exact hclient
    · rw [watched_watch_of_ne (by exact hok) (by decide)]
      exact hmember
    · exact ⟨.rw, watched_watch_self (hwo.trans hk), fun _ => rfl, fun _ => rfl⟩
  · rw [if_neg ho]
    exact ⟨hclient, hmember, fun hc => absurd hc ho⟩

/-- Each of the other three handlers of the two peers registers both, and leaves
the clone. -/
theorem wakes_watch_both (hok : x.session.Ok) (h : x.session.Flags) {i j i' j' : Interest}
    (hc : x.watched .client = some i) (hm : x.watched .member = some j)
    (hclone : x.session.state.cloConnected = true →
      Covers (x.watched .clone) True (0 < x.session.cloneUsedBuffer))
    (hci : x.session.state.cliReadReady = true → i'.input = true)
    (hco : x.session.state.cliWriteReady = true → i'.output = true)
    (hmi : x.session.state.memReadReady = true → j'.input = true)
    (hmo : x.session.state.memWriteReady = true → j'.output = true) :
    Wakes ((x.watch .client i').watch .member j') := by
  obtain ⟨hwc, hwm, hwo⟩ := watched_watch_both hok hc hm i' j'
  refine ⟨⟨i', hwc, ?_, ?_⟩, ⟨j', hwm, ?_, ?_⟩, fun ho => ?_⟩
  · exact fun hroom => hci (h.read_client hroom)
  · exact fun hpos => hco (h.write_client hpos)
  · exact fun hroom => hmi (h.read_member hroom)
  · exact fun hpos => hmo (h.write_member hpos)
  · rw [hwo]
    exact hclone ho

/-- Taking bytes from the client, and copying them for the clone, leaves what is
watched of the two peers. -/
theorem watched_afterClientRead (hok : x.session.Ok) {bytes : List UInt8}
    (hlen : bytes.length ≤ messageSizeLimit - x.session.clientUsedBuffer) {role : Role}
    (hrole : role ≠ .clone) :
    ((copyToClone bytes.length (receiveFromClient bytes x)).update
      Session.afterClientRead).watched role = x.watched role := by
  have hx : (receiveFromClient bytes x).session.Ok := hok.appendClient hlen
  have hbits : ((copyToClone bytes.length (receiveFromClient bytes x)).update
      Session.afterClientRead).watched role
        = (copyToClone bytes.length (receiveFromClient bytes x)).watched role :=
    watched_congr ((sameLinks_afterClientRead _).fdOf role) fun _ _ => rfl
  rw [hbits, watched_copyToClone hx hrole]
  exact watched_congr ((sameLinks_appendClient x.session bytes).fdOf role) fun _ _ => rfl

/-- **Reading from the client.** -/
theorem wakes_forwardClientRead (hok : x.session.Ok) (h : Wakes x) {bytes : List UInt8}
    (hlen : bytes.length ≤ messageSizeLimit - x.session.clientUsedBuffer)
    (hoky : (forwardClientRead bytes.length (receiveFromClient bytes x)).session.Ok)
    (hy : (forwardClientRead bytes.length (receiveFromClient bytes x)).session.Flags) :
    Wakes (forwardClientRead bytes.length (receiveFromClient bytes x)) := by
  obtain ⟨i, hi, -, -⟩ := h.client
  obtain ⟨j, hj, -, -⟩ := h.member
  rw [session_forwardClientRead] at hy hoky
  refine wakes_maintainClientRead hoky hy
    ((watched_afterClientRead hok hlen (by decide)).trans hi)
    ((watched_afterClientRead hok hlen (by decide)).trans hj) fun ho => ?_
  -- a clone that is still connected was not touched
  have hcy : (forwardClientRead bytes.length
      (receiveFromClient bytes x)).session.state.cloConnected = true := by
    rw [session_forwardClientRead]
    exact ho
  obtain ⟨hcx, hfits⟩ := fits_of_cloConnected hok hlen hcy
  obtain ⟨k, hk, -⟩ := h.clone hcx
  refine ⟨k, ?_⟩
  rw [← hk, copyToClone, if_pos (by exact hcx), if_neg (by exact not_lt.mpr hfits)]
  rfl

/-- **Writing to the clone.** -/
theorem wakes_maintainCloneWrite (hok : x.session.Ok) (h : Wakes x) (k : ℕ)
    (hy : (maintainCloneWrite (sendToClone k x)).session.Flags) :
    Wakes (maintainCloneWrite (sendToClone k x)) := by
  have hkept : ∀ role, (sendToClone k x).watched role = x.watched role :=
    fun role => watched_congr (by cases role <;> rfl) fun fd' _ =>
      congrFun (Sys.interest_modifyServer x.sys x.session.clone _) fd'
  have hoky := hok.drainClone k
  unfold maintainCloneWrite
  refine ⟨?_, ?_, fun ho => ?_⟩
  · rw [watched_watch_of_ne (by exact hoky) (by decide), hkept]
    exact h.client
  · rw [watched_watch_of_ne (by exact hoky) (by decide), hkept]
    exact h.member
  · obtain ⟨l, hl, -⟩ := h.clone ho
    refine ⟨_, watched_watch_self ((hkept .clone).trans hl), fun _ => ?_, fun hpos => ?_⟩
    · split_ifs <;> rfl
    · have hready : (sendToClone k x).session.state.cloWriteReady = true :=
        hy.write_clone ho hpos
      rw [if_pos hready]
      rfl

/-- **Giving up the clone.** -/
theorem wakes_disconnectClone (hok : x.session.Ok) (h : Wakes x) :
    Wakes (disconnectServer .clone x) := by
  have hclient : (disconnectServer .clone x).session.clientUsedBuffer =
      x.session.clientUsedBuffer := field_disconnectServer Session.clientUsedBuffer rfl
  have hmember : (disconnectServer .clone x).session.memberUsedBuffer =
      x.session.memberUsedBuffer := field_disconnectServer Session.memberUsedBuffer rfl
  refine ⟨?_, ?_, fun ho => ?_⟩
  · rw [watched_disconnectClone hok (by decide), hclient, hmember]
    exact h.client
  · rw [watched_disconnectClone hok (by decide), hclient, hmember]
    exact h.member
  · rw [cloConnected_disconnectClone hok] at ho
    cases ho

/-- **Every call** leaves what is to be done covered. -/
theorem wakes_effect (hok : x.session.Ok) (hflags : x.session.Flags) (h : Wakes x) {call : Call}
    (he : Effect x call y) (hc : y.session.state.cliConnected = true)
    (hm : y.session.state.memConnected = true) : Wakes y := by
  have hy := flags_effect hflags he hc hm
  have hoky := ok_effect hok he
  obtain ⟨i, hi, -, -⟩ := h.client
  obtain ⟨j, hj, -, -⟩ := h.member
  cases he with
  | clientEof => cases hc
  | clientGone => cases hc
  | delivered => cases hc
  | memberGone => cases hc
  | fromClient fd r env bytes hr hne =>
      exact wakes_forwardClientRead hok h (Sys.read_eq_some hr).2 hoky hy
  | toClient fd w k hw hdel =>
      have hsame := (sameLinks_drainMember x.session k).trans (sameLinks_freeMember _)
      have hkept : ∀ role, ((sendToClient k x).update Session.freeMember).watched role
          = x.watched role := fun role => watched_congr (hsame.fdOf role) fun _ _ => rfl
      have hclone : ((sendToClient k x).update Session.freeMember).session.cloneUsedBuffer
          = x.session.cloneUsedBuffer := by
        show ((x.session.drainMember k).freeMember).cloneUsedBuffer = _
        unfold Session.freeMember
        split_ifs <;> rfl
      refine wakes_watch_both (x := (sendToClient k x).update Session.freeMember) hoky hy
        ((hkept .client).trans hi) ((hkept .member).trans hj) (fun ho => ?_) ?_ ?_ ?_ ?_
      · rw [hkept, hclone]
        exact h.clone ((hsame.connected .clone).symm.trans ho)
      · exact fun hb => by rw [interestOf_input]; exact hb
      · exact fun hb => by rw [interestOf_output]; exact hb
      · exact fun hb => by rw [interestOf_input]; exact hb
      · exact fun hb => by rw [interestOf_output]; exact hb
  | fromMember fd r env bytes hr hne =>
      have hkept : ∀ role, (receiveFromMember bytes x).watched role = x.watched role :=
        fun role => watched_congr (by cases role <;> rfl) fun fd' _ =>
          congrFun (Sys.interest_modifyServer x.sys x.session.member _) fd'
      refine wakes_watch_both (x := receiveFromMember bytes x) hoky hy ((hkept .client).trans hi)
        ((hkept .member).trans hj) (fun ho => ?_) ?_ ?_ ?_ ?_
      · rw [hkept]
        exact h.clone ho
      · exact fun hb => by rw [if_pos hb]; rfl
      · exact fun _ => by split_ifs <;> rfl
      · exact fun hb => by rw [interestOf_input]; exact hb
      · exact fun hb => by rw [interestOf_output]; exact hb
  | toMember fd w k hw =>
      have hkept : ∀ role, (sendToMember k x).watched role = x.watched role :=
        fun role => watched_congr (by cases role <;> rfl) fun fd' _ =>
          congrFun (Sys.interest_modifyServer x.sys x.session.member _) fd'
      refine wakes_watch_both (x := sendToMember k x) hoky hy ((hkept .client).trans hi)
        ((hkept .member).trans hj) (fun ho => ?_) ?_ ?_ ?_ ?_
      · rw [hkept]
        exact h.clone ho
      · exact fun _ => by split_ifs <;> rfl
      · exact fun hb => by rw [if_pos hb]; rfl
      · exact fun hb => by rw [interestOf_input]; exact hb
      · exact fun hb => by rw [interestOf_output]; exact hb
  | fromClone fd r env bytes =>
      have hkept : ∀ role, (receiveFromClone bytes x).watched role = x.watched role :=
        fun role => watched_congr rfl fun fd' _ =>
          congrFun (Sys.interest_modifyServer x.sys x.session.clone _) fd'
      refine ⟨?_, ?_, fun ho => ?_⟩
      · rw [hkept]
        exact h.client
      · rw [hkept]
        exact h.member
      · rw [hkept]
        exact h.clone ho
  | toClone fd w k hw => exact wakes_maintainCloneWrite hok h k hy
  | disconnected call kind hrole =>
      cases kind with
      | member =>
          rw [session_disconnectServer] at hm
          split_ifs at hm with hsome
          · cases hm
          · rw [disconnectServer_of_none x (Option.not_isSome_iff_eq_none.mp hsome)]
            exact h
      | clone => exact wakes_disconnectClone hok h

end Effects

/-! ## The start of a run -/

/-- In the accept branch the client is registered for input, and so is every
server that is connected. -/
structure Enrolled (x : Ctx n L) : Prop where
  admitted : Admitted x
  client : x.watched .client = some .ro
  ready : x.session.state.cliReadReady = true
  server : ∀ kind, x.session.connected kind = true → x.watched kind.role = some .ro
  member : x.session.state.memConnected = true → x.session.state.memReadReady = true

namespace Enrolled

variable {x y : Ctx n L}

/-- A change of the surroundings that leaves what is registered. -/
theorem updateSys (h : Enrolled x) {f : Sys n L → Sys n L}
    (hopen : ∀ fd, x.sys.isOpen fd = true → (f x.sys).isOpen fd = true)
    (hi : (f x.sys).interest = x.sys.interest) : Enrolled (x.updateSys f) := by
  have hwatched : ∀ role, (x.updateSys f).watched role = x.watched role :=
    fun role => watched_congr rfl fun fd _ => congrFun hi fd
  refine ⟨h.admitted.updateSys hopen, ?_, h.ready, fun kind hk => ?_, h.member⟩
  · rw [hwatched]
    exact h.client
  · rw [hwatched]
    exact h.server kind hk

/-- A descriptor is taken up for a server that is not connected. -/
theorem associate (h : Enrolled x) {kind : ServerKind} {fd : Fd} (hfd : x.sys.isOpen fd = false)
    (hnone : x.session.serverfd kind = none) (slot : ℕ) :
    Enrolled ((x.updateSys fun y => y.opened fd).associate kind fd slot) := by
  have hwatched : ∀ role, role ≠ kind.role →
      ((x.updateSys fun y => y.opened fd).associate kind fd slot).watched role
        = x.watched role := by
    intro role hne
    apply watched_congr
    · cases kind <;> cases role <;> first | rfl | exact absurd rfl hne
    · exact fun _ _ => rfl
  refine ⟨h.admitted.associate hfd slot, ?_, ?_, fun kind' hk => ?_, ?_⟩
  · rw [hwatched .client (by cases kind <;> decide)]
    exact h.client
  · cases kind <;> exact h.ready
  · have hconnected : x.session.connected kind' = true := by
      cases kind <;> cases kind' <;> exact hk
    have hne : kind' ≠ kind := by
      rintro rfl
      exact h.admitted.ok.connected_fd kind' hconnected hnone
    rw [hwatched kind'.role (ServerKind.role_ne hne)]
    exact h.server kind' hconnected
  · cases kind <;> exact h.member

/-- The descriptor is registered and the server is connected. -/
theorem establish (h : Enrolled x) {kind : ServerKind} {fd : Fd}
    (hfd : x.session.serverfd kind = some fd) (slot : ℕ) :
    Enrolled (x.establish kind fd slot) := by
  have hinterest : ∀ fd', (x.establish kind fd slot).sys.interest fd'
      = if fd' = fd then some .ro else x.sys.interest fd' := by
    intro fd'
    show ((x.sys.register fd).modifyServer (some slot) _).interest fd' = _
    rw [Sys.interest_modifyServer]
    show Function.update x.sys.interest fd (some .ro) fd' = _
    rw [Function.update_apply]
  have hrole : x.session.fdOf kind.role = some fd := (Session.serverfd_eq_fdOf kind _) ▸ hfd
  have hself : (x.establish kind fd slot).watched kind.role = some .ro := by
    refine Option.bind_eq_some_iff.mpr ⟨fd, ?_, ?_⟩
    · cases kind <;> exact hrole
    · rw [hinterest, if_pos rfl]
  have hwatched : ∀ role, role ≠ kind.role →
      (x.establish kind fd slot).watched role = x.watched role := by
    intro role hne
    refine watched_congr (by cases kind <;> cases role <;> rfl) fun fd' hr => ?_
    rw [hinterest, if_neg]
    rintro rfl
    exact hne (h.admitted.ok.distinct role kind.role fd' hr hrole)
  refine ⟨h.admitted.establish (by rw [hfd]; simp) slot, ?_, ?_, fun kind' hk => ?_, ?_⟩
  · rw [hwatched .client (by cases kind <;> decide)]
    exact h.client
  · cases kind <;> exact h.ready
  · by_cases hkind : kind' = kind
    · rw [hkind]
      exact hself
    · rw [hwatched kind'.role (ServerKind.role_ne hkind)]
      apply h.server
      exact (sameSide_setConnected hkind _).connected.symm.trans hk
  · cases kind
    · exact fun _ => rfl
    · exact h.member

theorem connects (h : Enrolled x) {kind : ServerKind} {slot : ℕ} (hc : Connects kind slot x y) :
    Enrolled y := by
  cases hc with
  | skipped => exact h
  | leaked fd hfd hnone => exact h.updateSys (fun _ ho => Sys.isOpen_opened.mpr (Or.inr ho)) rfl
  | associated fd hfd hnone => exact h.associate hfd hnone slot
  | established fd hfd hnone =>
      refine (h.associate hfd hnone slot).establish ?_ slot
      cases kind <;> rfl

theorem chooseServer [LoadArith L] (h : Enrolled x) {env : ConnectEnv} {status : ℤ}
    (hc : chooseServer env x = some (y, status)) : Enrolled y := by
  obtain ⟨c, code, -, hor⟩ := chooseServer_cases hc
  have hx : Enrolled (x.updateSys fun s => { s with chooser := c }) :=
    h.updateSys (fun _ ho => ho) rfl
  have hobserve : ∀ {z : Ctx n L}, Enrolled z → Enrolled (z.observe (.chose status)) :=
    fun hz => ⟨hz.admitted.observe status, hz.client, hz.ready, hz.server, hz.member⟩
  rcases hor with ⟨-, -, rfl⟩ | ⟨-, rfl, -⟩
  · exact hobserve hx
  · have hm := hx.connects (connectMember_connects env.member _)
    unfold connectServer
    split_ifs
    · exact hobserve hm
    · exact hobserve (hm.connects (connectClone_connects env.clone _))

/-- With nothing to do yet, being registered for input is enough. -/
theorem wakeInv (h : Enrolled x) : WakeInv x := by
  obtain ⟨hadm, hclient, hready, hserver, hmember⟩ := h
  have hzero : ∀ {k : ℕ}, k = 0 → ¬ 0 < k := fun hk hpos => by omega
  refine ⟨hadm.ok, fun _ hm => ?_, fun _ hm => ⟨?_, ?_, fun ho => ?_⟩⟩
  · refine ⟨fun hpos => ?_, fun hpos => ?_, fun _ hpos => ?_, fun _ => hready,
      fun _ => hmember hm, fun hr => ?_, fun hr => ?_⟩
    · exact absurd hpos (hzero hadm.memberUsedBuffer)
    · exact absurd hpos (hzero hadm.clientUsedBuffer)
    · exact absurd hpos (hzero hadm.cloneUsedBuffer)
    · exact absurd (hready.symm.trans hr) (by decide)
    · exact absurd ((hmember hm).symm.trans hr) (by decide)
  · exact ⟨.ro, hclient, fun _ => rfl, fun hpos => absurd hpos (hzero hadm.memberUsedBuffer)⟩
  · exact ⟨.ro, hserver .member hm, fun _ => rfl,
      fun hpos => absurd hpos (hzero hadm.clientUsedBuffer)⟩
  · exact ⟨.ro, hserver .clone ho, fun _ => rfl,
      fun hpos => absurd hpos (hzero hadm.cloneUsedBuffer)⟩

end Enrolled

section Runs

variable [LoadArith L] {x y : Ctx n L}

/-- What the accept branch leaves. -/
theorem wakeInv_accepted (h : Accepted x) : WakeInv x := by
  obtain ⟨x₀, fd, env, hidle, hfd, haccept⟩ := h
  have hok : ((x₀.updateSys fun y => y.opened fd).handOut fd).session.Ok :=
    (admitted_handOut hidle hfd).ok
  have hdeleted : ∀ {z : Ctx n L} (reason : Reason), z.session.Ok →
      WakeInv (deleteSession reason z) :=
    fun reason hz => ⟨ok_deleteSession hz reason, nofun, nofun⟩
  have hnew : Enrolled
      (((x₀.updateSys fun y => y.opened fd).handOut fd).updateSys fun y => y.register fd) := by
    refine ⟨(admitted_handOut hidle hfd).updateSys fun _ ho => ho, ?_, rfl, fun kind hk => ?_,
      fun hm => ?_⟩
    · refine Option.bind_eq_some_iff.mpr ⟨fd, rfl, ?_⟩
      exact Function.update_self ..
    · have hidle' : x₀.session.connected kind = true := by cases kind <;> exact hk
      cases kind <;> simp [Session.connected, hidle.state, SessionState.unused] at hidle'
    · change x₀.session.state.memConnected = true at hm
      rw [hidle.state] at hm
      cases hm
  rcases acceptClient_cases haccept with rfl | ⟨-, rfl⟩ | ⟨-, z, status, hz, hor⟩
  · exact hdeleted .notRegistered hok
  · exact hnew.wakeInv
  · have hz' := hnew.chooseServer hz
    rcases hor with ⟨-, rfl⟩ | ⟨-, rfl⟩
    · exact hdeleted .noServer hz'.admitted.ok
    · have hsame : (z.updateState fun state => { state with fresh := false }) = z := by
        show ({ z with session := { z.session with
          state := { z.session.state with fresh := false } } } : Ctx n L) = z
        rw [← hz'.admitted.ok.fresh]
      rw [hsame]
      exact hz'.wakeInv

/-- **No wake-up is lost.**  In every state of every run in which client and
member are connected, what is to be done is among the events that the
descriptors are registered for. -/
theorem wakes_of_mem_states (h : Accepted x) (calls : List Call) :
    ∀ y ∈ (sessionMachine n L).states x calls, y.session.state.cliConnected = true →
      y.session.state.memConnected = true → Wakes y := by
  have hinv : ∀ y ∈ (sessionMachine n L).states x calls, WakeInv y := by
    refine (sessionMachine n L).states_invariant ?_ (wakeInv_accepted h) calls
    intro s call t hs hstep
    have he := effect_of_handle hs.ok.fresh (sessionMachine_step hstep).2
    have hconn := connected_of_effect he
    refine ⟨ok_effect hs.ok he, fun hc hm => ?_, fun hc hm => ?_⟩
    · exact flags_effect (hs.flags (hconn.1 hc) (hconn.2 hm)) he hc hm
    · exact wakes_effect hs.ok (hs.flags (hconn.1 hc) (hconn.2 hm))
        (hs.wakes (hconn.1 hc) (hconn.2 hm)) he hc hm
  exact fun y hy => (hinv y hy).wakes

end Runs

/-- A full buffer in one direction, and a write in the other. -/
theorem wakes_of_fullThenWrite :
    Accepted sampleSession ∧ ∀ y ∈ (sessionMachine 1 ℤ).states sampleSession fullThenWrite,
      y.session.state.cliConnected = true → y.session.state.memConnected = true → Wakes y :=
  ⟨accepted_sampleSession, wakes_of_mem_states accepted_sampleSession fullThenWrite⟩

end OctopusLB
