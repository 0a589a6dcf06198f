/-
# What the handlers can do

For each function of `Handlers` the facts that later modules use in its place.
`Effect` lists what a call can do to a session, and `effect_of_handle` says that
the list is complete; nothing after this file unfolds a handler.
-/
import OctopusLB.Handlers
import OctopusLB.History

namespace OctopusLB

variable {n : ℕ} {L : Type}

/-! ## System calls -/

/-- A successful read finds the descriptor open and fits the space. -/
theorem Sys.read_eq_some {y : Sys n L} {fd : Fd} {room : ℕ} {r : ReadOutcome}
    {bytes : List UInt8} (h : y.read fd room r = some bytes) :
    y.isOpen fd = true ∧ bytes.length ≤ room := by
  cases r with
  | error => cases h
  | data bs =>
      rw [Sys.read] at h
      split_ifs at h with hopen
      rw [← Option.some.inj h]
      exact ⟨hopen, List.length_take_le room bs⟩

/-- A successful write takes at most what there is, and something if there is
anything. -/
theorem Sys.write_eq_some {y : Sys n L} {fd : Fd} {size k : ℕ} {w : WriteOutcome}
    (h : y.write fd size w = some k) :
    y.isOpen fd = true ∧ k ≤ size ∧ (0 < size → 0 < k) := by
  cases w with
  | error => cases h
  | accept count =>
      rw [Sys.write] at h
      split_ifs at h with hopen
      have hk := Option.some.inj h
      exact ⟨hopen, by omega, by omega⟩

theorem Sys.write_of_closed {y : Sys n L} {fd : Fd} (size : ℕ) (w : WriteOutcome)
    (h : y.isOpen fd = false) : y.write fd size w = none := by
  cases w with
  | error => rfl
  | accept count => rw [Sys.write, if_neg (by simp [h])]

section ModifyServer

variable (y : Sys n L) (p : Option ℕ) (f : Server L → Server L)

@[simp] theorem Sys.fds_modifyServer : (y.modifyServer p f).fds = y.fds := by cases p <;> rfl
@[simp] theorem Sys.isOpen_modifyServer : (y.modifyServer p f).isOpen = y.isOpen := by
  cases p <;> rfl
@[simp] theorem Sys.interest_modifyServer : (y.modifyServer p f).interest = y.interest := by
  cases p <;> rfl
@[simp] theorem Sys.unused_modifyServer : (y.modifyServer p f).unused = y.unused := by
  cases p <;> rfl

/-- Only the server that is pointed to changes. -/
theorem Sys.servers_modifyServer (q : ℕ) :
    (y.modifyServer p f).chooser.balancer.servers q
      = if p = some q then f (y.chooser.balancer.servers q)
        else y.chooser.balancer.servers q := by
  cases p with
  | none => rfl
  | some p =>
      show (Function.update y.chooser.balancer.servers p (f (y.chooser.balancer.servers p))) q = _
      by_cases hq : q = p
      · rw [hq, Function.update_self, if_pos rfl]
      · rw [Function.update_of_ne hq, if_neg fun h => hq (Option.some.inj h).symm]

end ModifyServer

/-! ## Maintenance changes only interest -/

section Watch

variable (x : Ctx n L) (role : Role) (i : Interest)

@[simp] theorem sid_watch : (x.watch role i).sid = x.sid := rfl
@[simp] theorem session_watch : (x.watch role i).session = x.session := rfl
@[simp] theorem history_watch : (x.watch role i).history = x.history := rfl

end Watch

section Maintain

variable (x : Ctx n L)

@[simp] theorem session_maintainClientRead : (maintainClientRead x).session = x.session := by
  unfold maintainClientRead
  dsimp only
  split_ifs <;> rfl

@[simp] theorem history_maintainClientRead : (maintainClientRead x).history = x.history := by
  unfold maintainClientRead
  dsimp only
  split_ifs <;> rfl

@[simp] theorem session_maintainClientWrite : (maintainClientWrite x).session = x.session := rfl
@[simp] theorem history_maintainClientWrite : (maintainClientWrite x).history = x.history := rfl

@[simp] theorem session_maintainMemberRead : (maintainMemberRead x).session = x.session := rfl
@[simp] theorem history_maintainMemberRead : (maintainMemberRead x).history = x.history := rfl

@[simp] theorem session_maintainMemberWrite : (maintainMemberWrite x).session = x.session := rfl
@[simp] theorem history_maintainMemberWrite : (maintainMemberWrite x).history = x.history := rfl

end Maintain

/-! ## Tearing down -/

section TearDown

variable (x : Ctx n L)

@[simp] theorem sid_disconnectServer (kind : ServerKind) :
    (disconnectServer kind x).sid = x.sid := by
  unfold disconnectServer
  cases x.session.serverfd kind <;> rfl

@[simp] theorem history_disconnectServer (kind : ServerKind) :
    (disconnectServer kind x).history = x.history := by
  unfold disconnectServer
  cases x.session.serverfd kind <;> rfl

/-- Without a descriptor there is nothing to give up. -/
theorem disconnectServer_of_none {kind : ServerKind} (h : x.session.serverfd kind = none) :
    disconnectServer kind x = x := by
  unfold disconnectServer
  rw [h]

/-- `disconnect_member` and `disconnect_clone` touch one side of the session. -/
theorem session_disconnectServer (kind : ServerKind) :
    (disconnectServer kind x).session
      = if (x.session.serverfd kind).isSome then x.session.clearServer kind else x.session := by
  unfold disconnectServer
  cases x.session.serverfd kind <;> rfl

/-- What `clearServer` leaves is left by giving up a server. -/
theorem field_disconnectServer {α : Sort*} (g : Session → α) {kind : ServerKind} {x : Ctx n L}
    (hg : g (x.session.clearServer kind) = g x.session) :
    g (disconnectServer kind x).session = g x.session := by
  rw [session_disconnectServer]
  split_ifs
  · exact hg
  · rfl

@[simp] theorem sid_disconnectClient : (disconnectClient x).sid = x.sid := by
  unfold disconnectClient
  cases x.session.clientfd <;> rfl

@[simp] theorem history_disconnectClient : (disconnectClient x).history = x.history := by
  unfold disconnectClient
  cases x.session.clientfd <;> rfl

theorem session_disconnectClient :
    (disconnectClient x).session
      = if x.session.clientfd.isSome then
          { x.session with
            state := { x.session.state with cliConnected := false }, clientfd := none }
        else x.session := by
  unfold disconnectClient
  cases x.session.clientfd <;> rfl

/-- The three steps of `delete_session` before it restores the defaults. -/
def disconnectAll : Ctx n L :=
  let x := if x.session.state.cliConnected then disconnectClient x else x
  let x := if x.session.state.memConnected then disconnectMember x else x
  if x.session.state.cloConnected then disconnectClone x else x

theorem deleteSession_eq (reason : Reason) :
    deleteSession reason x
      = (((disconnectAll x).update Session.reset).updateSys fun y =>
          y.addUnusedSession (disconnectAll x).sid).observe (.released reason x.session) := rfl

@[simp] theorem sid_disconnectAll : (disconnectAll x).sid = x.sid := by
  unfold disconnectAll disconnectMember disconnectClone
  dsimp only
  split_ifs <;> simp

@[simp] theorem history_disconnectAll : (disconnectAll x).history = x.history := by
  unfold disconnectAll disconnectMember disconnectClone
  dsimp only
  split_ifs <;> simp

@[simp] theorem sid_deleteSession (reason : Reason) :
    (deleteSession reason x).sid = x.sid := by
  rw [deleteSession_eq, Ctx.sid_observe, Ctx.sid_updateSys, Ctx.sid_update, sid_disconnectAll]

@[simp] theorem history_deleteSession (reason : Reason) :
    (deleteSession reason x).history = .released reason x.session :: x.history := by
  rw [deleteSession_eq, Ctx.history_observe, Ctx.history_updateSys, Ctx.history_update,
    history_disconnectAll]

@[simp] theorem state_deleteSession (reason : Reason) :
    (deleteSession reason x).session.state = .unused := rfl

@[simp] theorem clientUsedBuffer_deleteSession (reason : Reason) :
    (deleteSession reason x).session.clientUsedBuffer = 0 := rfl

@[simp] theorem memberUsedBuffer_deleteSession (reason : Reason) :
    (deleteSession reason x).session.memberUsedBuffer = 0 := rfl

@[simp] theorem cloneUsedBuffer_deleteSession (reason : Reason) :
    (deleteSession reason x).session.cloneUsedBuffer = 0 := rfl

end TearDown

/-! ## The clone side of a read from the client -/

/-- Passing bytes on to the clone changes the clone side of the session only. -/
theorem session_copyToClone (nbytes : ℕ) (x : Ctx n L) :
    ∃ connected fd buffer used, (copyToClone nbytes x).session = { x.session with
      state := { x.session.state with cloConnected := connected }
      clonefd := fd
      cloneWriteBuffer := buffer
      cloneUsedBuffer := used } := by
  unfold copyToClone
  split_ifs with hclo hroom
  · rw [disconnectClone, session_disconnectServer]
    split_ifs
    · exact ⟨false, none, x.session.cloneWriteBuffer, x.session.cloneUsedBuffer, rfl⟩
    · exact ⟨_, _, _, _, rfl⟩
  · exact ⟨_, _, _, _, rfl⟩
  · exact ⟨_, _, _, _, rfl⟩

@[simp] theorem history_copyToClone (nbytes : ℕ) (x : Ctx n L) :
    (copyToClone nbytes x).history = x.history := by
  unfold copyToClone
  split_ifs
  · exact history_disconnectServer x .clone
  · rfl
  · rfl

theorem session_forwardClientRead (nbytes : ℕ) (x : Ctx n L) :
    (forwardClientRead nbytes x).session = (copyToClone nbytes x).session.afterClientRead := by
  rw [forwardClientRead, session_maintainClientRead, Ctx.session_update]

/-- It leaves the bytes that are queued for the member. -/
theorem clientUsedBuffer_forwardClientRead (nbytes : ℕ) (x : Ctx n L) :
    (forwardClientRead nbytes x).session.clientUsedBuffer = x.session.clientUsedBuffer := by
  obtain ⟨_, _, _, _, hcopy⟩ := session_copyToClone nbytes x
  rw [session_forwardClientRead]
  show (copyToClone nbytes x).session.clientUsedBuffer = _
  rw [hcopy]

@[simp] theorem history_forwardClientRead (nbytes : ℕ) (x : Ctx n L) :
    (forwardClientRead nbytes x).history = x.history := by
  rw [forwardClientRead, history_maintainClientRead, Ctx.history_update, history_copyToClone]

/-! ## The read and write handlers -/

/-- `client_read` of a session that already has its servers. -/
theorem clientRead_of_not_fresh [LoadArith L] {x : Ctx n L} (h : x.session.state.fresh = false)
    (fd : Fd) (r : ReadOutcome) (env : ConnectEnv) :
    clientRead fd r env x
      = some (match x.sys.read fd (messageSizeLimit - x.session.clientUsedBuffer) r with
        | none => deleteSession .clientReadError x
        | some [] => deleteSession .clientEof x
        | some (b :: bs) =>
            forwardClientRead (b :: bs).length (receiveFromClient (b :: bs) x)) := by
  have hfresh : ∀ bytes, (receiveFromClient bytes x).session.state.fresh = false := fun _ => h
  unfold clientRead
  rcases x.sys.read fd (messageSizeLimit - x.session.clientUsedBuffer) r with _ | _ | ⟨b, bs⟩
  · rfl
  · rfl
  · dsimp only
    rw [if_neg (by simp [hfresh])]

/-- **What a call can do** to a session that has its servers, with what the
system call must have returned for it. -/
inductive Effect (x : Ctx n L) : Call → Ctx n L → Prop
  | clientEof (fd : Fd) (r : ReadOutcome) (env : ConnectEnv)
      (hr : x.sys.read fd (messageSizeLimit - x.session.clientUsedBuffer) r = some []) :
      Effect x (.read .client fd r env) (deleteSession .clientEof x)
  | clientGone (call : Call) (reason : Reason) (hrole : call.role = .client)
      (hclient : reason.isClient = true) (hne : reason ≠ .clientEof) :
      Effect x call (deleteSession reason x)
  | fromClient (fd : Fd) (r : ReadOutcome) (env : ConnectEnv) (bytes : List UInt8)
      (hr : x.sys.read fd (messageSizeLimit - x.session.clientUsedBuffer) r = some bytes)
      (hne : bytes ≠ []) :
      Effect x (.read .client fd r env)
        (forwardClientRead bytes.length (receiveFromClient bytes x))
  | delivered (fd : Fd) (w : WriteOutcome)
      (hw : x.sys.write fd x.session.memberUsedBuffer w = some x.session.memberUsedBuffer)
      (hm : x.session.state.memConnected = false) :
      Effect x (.write .client fd w)
        (deleteSession .delivered (sendToClient x.session.memberUsedBuffer x))
  | toClient (fd : Fd) (w : WriteOutcome) (k : ℕ)
      (hw : x.sys.write fd x.session.memberUsedBuffer w = some k)
      (hm : k = x.session.memberUsedBuffer → x.session.state.memConnected = true) :
      Effect x (.write .client fd w)
        (maintainClientWrite ((sendToClient k x).update Session.freeMember))
  | memberGone (fd : Fd) (r : ReadOutcome) (env : ConnectEnv)
      (hr : ∀ bytes, x.sys.read fd (messageSizeLimit - x.session.memberUsedBuffer) r = some bytes →
        bytes = [])
      (hq : x.session.state.cliWriteReady = false) :
      Effect x (.read .member fd r env) (deleteSession .memberGone x)
  | fromMember (fd : Fd) (r : ReadOutcome) (env : ConnectEnv) (bytes : List UInt8)
      (hr : x.sys.read fd (messageSizeLimit - x.session.memberUsedBuffer) r = some bytes)
      (hne : bytes ≠ []) :
      Effect x (.read .member fd r env) (maintainMemberRead (receiveFromMember bytes x))
  | toMember (fd : Fd) (w : WriteOutcome) (k : ℕ)
      (hw : x.sys.write fd x.session.clientUsedBuffer w = some k) :
      Effect x (.write .member fd w) (maintainMemberWrite (sendToMember k x))
  | fromClone (fd : Fd) (r : ReadOutcome) (env : ConnectEnv) (bytes : List UInt8) :
      Effect x (.read .clone fd r env) (receiveFromClone bytes x)
  | toClone (fd : Fd) (w : WriteOutcome) (k : ℕ)
      (hw : x.sys.write fd x.session.cloneUsedBuffer w = some k) :
      Effect x (.write .clone fd w) (maintainCloneWrite (sendToClone k x))
  | disconnected (call : Call) (kind : ServerKind) (hrole : call.role = kind.role) :
      Effect x call (disconnectServer kind x)

theorem effect_clientWrite (fd : Fd) (w : WriteOutcome) (x : Ctx n L) :
    Effect x (.write .client fd w) (clientWrite fd w x) := by
  unfold clientWrite
  cases hw : x.sys.write fd x.session.memberUsedBuffer w with
  | none => exact .clientGone _ .clientWriteError rfl rfl (by decide)
  | some k =>
      obtain ⟨-, hle, -⟩ := Sys.write_eq_some hw
      have hused : (sendToClient k x).session.memberUsedBuffer
          = x.session.memberUsedBuffer - k := rfl
      have hmem : (sendToClient k x).session.state.memConnected
          = x.session.state.memConnected := rfl
      dsimp only
      rw [hused, hmem]
      by_cases hdone : x.session.memberUsedBuffer - k = 0 ∧ x.session.state.memConnected = false
      · obtain rfl : k = x.session.memberUsedBuffer := by omega
        rw [if_pos hdone]
        exact .delivered fd w hw hdone.2
      · rw [if_neg hdone]
        refine .toClient fd w k hw fun hk => ?_
        by_contra hm
        exact hdone ⟨by omega, by simpa using hm⟩

theorem effect_memberRead (fd : Fd) (r : ReadOutcome) (env : ConnectEnv) (x : Ctx n L) :
    Effect x (.read .member fd r env) (memberRead fd r x) := by
  unfold memberRead
  rcases hr : x.sys.read fd (messageSizeLimit - x.session.memberUsedBuffer) r with
    _ | _ | ⟨b, bs⟩
  · cases hc : x.session.state.cliWriteReady with
    | false => exact .memberGone fd r env (fun _ h => absurd (hr.symm.trans h) nofun) hc
    | true => exact .disconnected _ .member rfl
  · cases hc : x.session.state.cliWriteReady with
    | false =>
        exact .memberGone fd r env (fun _ h => (Option.some.inj (hr.symm.trans h)).symm) hc
    | true => exact .disconnected _ .member rfl
  · exact .fromMember fd r env (b :: bs) hr (by simp)

theorem effect_clientRead [LoadArith L] {x y : Ctx n L} (hfresh : x.session.state.fresh = false)
    {fd : Fd} {r : ReadOutcome} {env : ConnectEnv} (h : clientRead fd r env x = some y) :
    Effect x (.read .client fd r env) y := by
  rw [clientRead_of_not_fresh hfresh, Option.some.injEq] at h
  rcases hr : x.sys.read fd (messageSizeLimit - x.session.clientUsedBuffer) r with
    _ | _ | ⟨b, bs⟩ <;> rw [hr] at h <;> subst h
  · exact .clientGone _ .clientReadError rfl rfl (by decide)
  · exact .clientEof fd r env hr
  · exact .fromClient fd r env (b :: bs) hr (by simp)

/-- Every call has one of the effects. -/
theorem effect_of_handle [LoadArith L] {x y : Ctx n L} (hfresh : x.session.state.fresh = false)
    {call : Call} (h : handle call x = some y) : Effect x call y := by
  rcases call with ⟨role, fd, r, env⟩ | ⟨role, fd, w⟩ | ⟨role, fd, err⟩ <;> cases role
  · exact effect_clientRead hfresh h
  · exact Option.some.inj h ▸ effect_memberRead fd r env x
  · obtain rfl := Option.some.inj h
    unfold cloneRead
    rcases x.sys.read fd messageSizeLimit r with _ | _ | ⟨b, bs⟩
    · exact .disconnected _ .clone rfl
    · exact .disconnected _ .clone rfl
    · exact .fromClone fd r env (b :: bs)
  · exact Option.some.inj h ▸ effect_clientWrite fd w x
  · obtain rfl := Option.some.inj h
    unfold memberWrite
    cases hw : x.sys.write fd x.session.clientUsedBuffer w with
    | none => exact .disconnected _ .member rfl
    | some k => exact .toMember fd w k hw
  · obtain rfl := Option.some.inj h
    unfold cloneWrite
    cases hw : x.sys.write fd x.session.cloneUsedBuffer w with
    | none => exact .disconnected _ .clone rfl
    | some k => exact .toClone fd w k hw
  · obtain rfl := Option.some.inj h
    refine .clientGone _ _ rfl ?_ ?_
    · cases err <;> rfl
    · cases err <;> decide
  · exact Option.some.inj h ▸ .disconnected _ .member rfl
  · exact Option.some.inj h ▸ .disconnected _ .clone rfl

/-- A call adds traffic, and then perhaps a release: for the client's sake, once
everything is delivered, or because a member is gone that has sent nothing. -/
theorem history_effect {x y : Ctx n L} {call : Call} (he : Effect x call y) :
    ∃ h, (∀ o ∈ h, o.isTraffic = true) ∧ (y.history = h ++ x.history ∨
      (∃ reason before, y.history = .released reason before :: (h ++ x.history)) ∧
        (call.role = .client ∨ ∃ fd r env, call = .read .member fd r env ∧
          x.session.state.cliWriteReady = false ∧
          ∀ bytes, x.sys.read fd (messageSizeLimit - x.session.memberUsedBuffer) r = some bytes →
            bytes = [])) := by
  have hnone : ∀ o ∈ ([] : History), o.isTraffic = true := List.forall_mem_nil _
  have hone : ∀ {o : Obs}, o.isTraffic = true → ∀ o' ∈ [o], o'.isTraffic = true := by
    intro o ho o' hmem
    rw [List.mem_singleton.mp hmem]
    exact ho
  cases he with
  | clientEof =>
      exact ⟨[], hnone, Or.inr ⟨⟨_, _, history_deleteSession x _⟩, Or.inl rfl⟩⟩
  | clientGone call reason hrole =>
      exact ⟨[], hnone, Or.inr ⟨⟨_, _, history_deleteSession x reason⟩, Or.inl hrole⟩⟩
  | fromClient fd r env bytes hr hne =>
      exact ⟨[.received .client bytes], hone rfl, Or.inl (history_forwardClientRead _ _)⟩
  | delivered fd w hw hm =>
      exact ⟨[_], hone rfl, Or.inr ⟨⟨_, _, history_deleteSession (sendToClient _ x) _⟩,
        Or.inl rfl⟩⟩
  | toClient fd w k hw hm => exact ⟨[_], hone rfl, Or.inl rfl⟩
  | memberGone fd r env hr hq =>
      exact ⟨[], hnone, Or.inr ⟨⟨_, _, history_deleteSession x _⟩,
        Or.inr ⟨fd, r, env, rfl, hq, hr⟩⟩⟩
  | fromMember fd r env bytes hr hne => exact ⟨[.received .member bytes], hone rfl, Or.inl rfl⟩
  | toMember fd w k hw => exact ⟨[_], hone rfl, Or.inl rfl⟩
  | fromClone fd r env bytes => exact ⟨[.received .clone bytes], hone rfl, Or.inl rfl⟩
  | toClone fd w k hw => exact ⟨[_], hone rfl, Or.inl rfl⟩
  | disconnected call kind hrole =>
      exact ⟨[], hnone, Or.inl (history_disconnectServer x kind)⟩

/-! ## Choosing and accepting -/

/-- How `choose_server` can end: it gives up before connecting, the member half
fails, or the clone half runs. -/
theorem chooseServer_cases [LoadArith L] {env : ConnectEnv} {x y : Ctx n L} {status : ℤ}
    (h : chooseServer env x = some (y, status)) :
    ∃ c code, chooseCandidate x.session.clientReadBuffer.cells x.sys.chooser = some (c, code) ∧
      ((code ≠ 0 ∧ status = -1 ∧
          y = (x.updateSys fun s => { s with chooser := c }).observe (.chose status)) ∨
        (code = 0 ∧ y = (connectServer env (x.updateSys fun s => { s with chooser := c })).1.observe
            (.chose status) ∧
          status = (connectServer env (x.updateSys fun s => { s with chooser := c })).2)) := by
  unfold chooseServer at h
  cases hc : chooseCandidate x.session.clientReadBuffer.cells x.sys.chooser with
  | none =>
      rw [hc] at h
      cases h
  | some p =>
      obtain ⟨c, code⟩ := p
      rw [hc] at h
      simp only [Option.some.injEq, Prod.mk.injEq] at h
      obtain ⟨hy, hs⟩ := h
      refine ⟨c, code, rfl, ?_⟩
      by_cases hcode : code = 0
      · rw [if_neg (not_not.mpr hcode)] at hy hs
        exact Or.inr ⟨hcode, by rw [← hy, hs], hs.symm⟩
      · rw [if_pos hcode] at hy hs
        exact Or.inl ⟨hcode, hs.symm, by rw [← hy, ← hs]⟩

/-- Connecting adds at most the connection to the history. -/
theorem history_connects {x y : Ctx n L} {kind : ServerKind} {slot : ℕ}
    (h : Connects kind slot x y) :
    ∃ hs, y.history = hs ++ x.history ∧ ∀ o ∈ hs, o = .connected kind.role slot := by
  cases h with
  | established fd hfd hnone =>
      exact ⟨[.connected kind.role slot], rfl, fun o ho => List.mem_singleton.mp ho⟩
  | _ => exact ⟨[], rfl, List.forall_mem_nil _⟩

/-- Choosing a server adds the connections and the status to the history. -/
theorem history_chooseServer [LoadArith L] {env : ConnectEnv} {x y : Ctx n L} {status : ℤ}
    (h : chooseServer env x = some (y, status)) :
    ∃ hs, y.history = .chose status :: (hs ++ x.history) ∧
      ∀ o ∈ hs, ∃ role slot, o = .connected role slot := by
  obtain ⟨c, code, -, ⟨-, -, rfl⟩ | ⟨-, rfl, -⟩⟩ := chooseServer_cases h
  · exact ⟨[], rfl, List.forall_mem_nil _⟩
  · obtain ⟨hs, heq, hconnected⟩ :=
      history_connects
        (connectMember_connects env.member (x.updateSys fun s => { s with chooser := c }))
    unfold connectServer
    split_ifs
    · exact ⟨hs, congrArg _ heq, fun o ho => ⟨_, _, hconnected o ho⟩⟩
    · obtain ⟨hs', heq', hconnected'⟩ := history_connects (connectClone_connects env.clone
        (connectMember env.member (x.updateSys fun s => { s with chooser := c })).1)
      refine ⟨hs' ++ hs, ?_, fun o ho => ?_⟩
      · rw [Ctx.history_observe, heq', heq, List.append_assoc]
        rfl
      · rcases List.mem_append.mp ho with ho | ho
        · exact ⟨_, _, hconnected' o ho⟩
        · exact ⟨_, _, hconnected o ho⟩

/-- Choosing a server neither hands the session out nor takes it back. -/
theorem handsOut_chooseServer [LoadArith L] {env : ConnectEnv} {x y : Ctx n L} {status : ℤ}
    (h : chooseServer env x = some (y, status)) :
    ∃ hs, y.history = hs ++ x.history ∧ ∀ o ∈ hs, o.handsOut = none := by
  obtain ⟨hs, heq, hconnected⟩ := history_chooseServer h
  refine ⟨.chose status :: hs, heq, List.forall_mem_cons.mpr ⟨rfl, fun o ho => ?_⟩⟩
  obtain ⟨role, slot, rfl⟩ := hconnected o ho
  rfl

/-- How the accept branch can end: registration fails, the choice is put off to
the first read, or it is made at once. -/
theorem acceptClient_cases [LoadArith L] {fd : Fd} {env : AcceptEnv} {x y : Ctx n L}
    (h : acceptClient fd env x = some y) :
    y = deleteSession .notRegistered (x.handOut fd) ∨
      ((x.sys.chooser.balancer.algorithm = .hash ∨ x.sys.chooser.balancer.algorithm = .static) ∧
        y = (x.handOut fd).updateSys fun s => s.register fd) ∨
      ((x.sys.chooser.balancer.algorithm ≠ .hash ∧ x.sys.chooser.balancer.algorithm ≠ .static) ∧
        ∃ z status,
          chooseServer env.connect ((x.handOut fd).updateSys fun s => s.register fd)
            = some (z, status) ∧
          ((status = -1 ∧ y = deleteSession .noServer z) ∨
            (status ≠ -1 ∧ y = z.updateState fun state => { state with fresh := false }))) := by
  unfold acceptClient at h
  dsimp only at h
  by_cases hadd : (!env.epollAdd) = true
  · rw [if_pos hadd, Option.some.injEq] at h
    exact Or.inl h.symm
  · have hsame : ((x.handOut fd).updateSys fun s => s.register fd).sys.chooser.balancer.algorithm
        = x.sys.chooser.balancer.algorithm := rfl
    rw [if_neg hadd, hsame] at h
    by_cases halg : x.sys.chooser.balancer.algorithm ≠ .hash
        ∧ x.sys.chooser.balancer.algorithm ≠ .static
    · rw [if_pos halg, Option.map_eq_some_iff] at h
      obtain ⟨⟨z, status⟩, hz, hy⟩ := h
      refine Or.inr (Or.inr ⟨halg, z, status, hz, ?_⟩)
      dsimp only at hy
      split_ifs at hy with hs
      · exact Or.inl ⟨hs, hy.symm⟩
      · exact Or.inr ⟨hs, hy.symm⟩
    · rw [if_neg halg, Option.some.injEq] at h
      have hor : x.sys.chooser.balancer.algorithm = .hash
          ∨ x.sys.chooser.balancer.algorithm = .static := by
        by_contra hno
        exact halg ⟨fun h1 => hno (Or.inl h1), fun h2 => hno (Or.inr h2)⟩
      exact Or.inr (Or.inl ⟨hor, h.symm⟩)

end OctopusLB
