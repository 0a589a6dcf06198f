/-
# Runs of one session

`sessionMachine` drives one session by handler calls in any order, from a
session that the accept branch has just set up (`Accepted`).  A call is possible
with the descriptor that the session has for the role; a write handler may also
be called with a descriptor that is no longer open, which is what the main loop
does when the read handler of the same event has closed it.

`Session.Ok` is the invariant of these runs: buffer use within bounds, no
undelivered member bytes while `STATE_CLI_WRITE_READY` is clear, a descriptor
for every connected side, and no descriptor in two roles.
-/
import OctopusLB.HandlerFacts
import OctopusLB.Machine

namespace OctopusLB

variable {n : ℕ} {L : Type}

/-! ## The machine -/

/-- The main loop can make the call. -/
def Call.Possible (x : Ctx n L) : Call → Prop
  | .read role fd _ _ => x.session.fdOf role = some fd
  | .write role fd _ => x.session.fdOf role = some fd ∨ x.sys.isOpen fd = false
  | .hangup role fd _ => x.session.fdOf role = some fd

instance (x : Ctx n L) (call : Call) : Decidable (call.Possible x) := by
  cases call <;> unfold Call.Possible <;> infer_instance

/-- One session driven by calls. -/
def sessionMachine (n : ℕ) (L : Type) [LoadArith L] : Machine (Ctx n L) Call where
  step x call := if call.Possible x then handle call x else none

theorem sessionMachine_step [LoadArith L] {x y : Ctx n L} {call : Call}
    (h : (sessionMachine n L).step x call = some y) :
    call.Possible x ∧ handle call x = some y := by
  simp only [sessionMachine] at h
  split_ifs at h with hp
  exact ⟨hp, h⟩

/-! ## Links and data -/

/-- Two records with the same descriptors, server pointers and `CONNECTED`
bits. -/
structure SameLinks (s s' : Session) : Prop where
  fdOf : ∀ role, s'.fdOf role = s.fdOf role
  server : ∀ kind, s'.server kind = s.server kind
  connected : ∀ kind, s'.connected kind = s.connected kind
  cliConnected : s'.state.cliConnected = s.state.cliConnected

theorem SameLinks.refl (s : Session) : SameLinks s s :=
  ⟨fun _ => rfl, fun _ => rfl, fun _ => rfl, rfl⟩

theorem SameLinks.trans {s₁ s₂ s₃ : Session} (h : SameLinks s₁ s₂) (h' : SameLinks s₂ s₃) :
    SameLinks s₁ s₃ :=
  ⟨fun role => (h'.fdOf role).trans (h.fdOf role),
    fun kind => (h'.server kind).trans (h.server kind),
    fun kind => (h'.connected kind).trans (h.connected kind),
    h'.cliConnected.trans h.cliConnected⟩

theorem Session.serverfd_eq_fdOf (kind : ServerKind) (s : Session) :
    s.serverfd kind = s.fdOf kind.role := by
  cases kind <;> rfl

theorem ServerKind.role_ne {kind kind' : ServerKind} (h : kind' ≠ kind) : kind'.role ≠ kind.role := by
  intro hrole
  apply h
  cases kind <;> cases kind' <;> first | rfl | cases hrole

/-- One side of the session is as it was. -/
structure SameSide (kind : ServerKind) (s s' : Session) : Prop where
  server : s'.server kind = s.server kind
  serverfd : s'.serverfd kind = s.serverfd kind
  connected : s'.connected kind = s.connected kind

section Sides

variable {kind kind' : ServerKind} (h : kind' ≠ kind) (s : Session)

include h

theorem sameSide_setServer (fd : Fd) (slot : ℕ) : SameSide kind' s (s.setServer kind fd slot) := by
  cases kind <;> cases kind' <;> first | exact absurd rfl h | exact ⟨rfl, rfl, rfl⟩

theorem sameSide_setConnected : SameSide kind' s (s.setConnected kind) := by
  cases kind <;> cases kind' <;> first | exact absurd rfl h | exact ⟨rfl, rfl, rfl⟩

theorem sameSide_clearServer : SameSide kind' s (s.clearServer kind) := by
  cases kind <;> cases kind' <;> first | exact absurd rfl h | exact ⟨rfl, rfl, rfl⟩

end Sides

/-- A change of other fields keeps the links. -/
theorem SameLinks.of_eq {s s' : Session} (hcli : s'.clientfd = s.clientfd)
    (hmem : s'.memberfd = s.memberfd) (hclo : s'.clonefd = s.clonefd)
    (hmember : s'.member = s.member) (hclone : s'.clone = s.clone)
    (hc : s'.state.cliConnected = s.state.cliConnected)
    (hm : s'.state.memConnected = s.state.memConnected)
    (ho : s'.state.cloConnected = s.state.cloConnected) : SameLinks s s' where
  fdOf := by intro role; cases role <;> assumption
  server := by intro kind; cases kind <;> assumption
  connected := by intro kind; cases kind <;> assumption
  cliConnected := hc

section SessionFunctions

variable (s : Session)

theorem sameLinks_appendClient (bytes : List UInt8) : SameLinks s (s.appendClient bytes) :=
  .of_eq rfl rfl rfl rfl rfl rfl rfl rfl

theorem sameLinks_appendClone (nbytes : ℕ) : SameLinks s (s.appendClone nbytes) :=
  .of_eq rfl rfl rfl rfl rfl rfl rfl rfl

theorem sameLinks_afterClientRead : SameLinks s s.afterClientRead :=
  .of_eq rfl rfl rfl rfl rfl rfl rfl rfl

theorem sameLinks_drainMember (nbytes : ℕ) : SameLinks s (s.drainMember nbytes) :=
  .of_eq rfl rfl rfl rfl rfl rfl rfl rfl

theorem sameLinks_freeMember : SameLinks s s.freeMember := by
  unfold Session.freeMember
  split_ifs
  · exact .of_eq rfl rfl rfl rfl rfl rfl rfl rfl
  · exact .refl s

theorem sameLinks_appendMember (bytes : List UInt8) : SameLinks s (s.appendMember bytes) :=
  .of_eq rfl rfl rfl rfl rfl rfl rfl rfl

theorem sameLinks_drainClient (nbytes : ℕ) : SameLinks s (s.drainClient nbytes) :=
  .of_eq rfl rfl rfl rfl rfl rfl rfl rfl

theorem sameLinks_drainClone (nbytes : ℕ) : SameLinks s (s.drainClone nbytes) :=
  .of_eq rfl rfl rfl rfl rfl rfl rfl rfl

end SessionFunctions

/-! ## The invariant -/

/-- What holds of the record in every state of a run. -/
structure Session.Ok (s : Session) : Prop where
  fresh : s.state.fresh = false
  client_le : s.clientUsedBuffer ≤ messageSizeLimit
  member_le : s.memberUsedBuffer ≤ messageSizeLimit
  clone_le : s.cloneUsedBuffer ≤ messageSizeLimit
  quiet : s.state.cliWriteReady = false → s.memberUsedBuffer = 0
  connected_fd : ∀ kind, s.connected kind = true → s.serverfd kind ≠ none
  client_fd : s.state.cliConnected = true ↔ s.clientfd ≠ none
  distinct : ∀ role role' fd, s.fdOf role = some fd → s.fdOf role' = some fd → role = role'

namespace Session.Ok

variable {s s' : Session}

/-- The part of the invariant about links depends on nothing else. -/
theorem of_sameLinks (h : s.Ok) (hl : SameLinks s s') (hfresh : s'.state.fresh = false)
    (hclient : s'.clientUsedBuffer ≤ messageSizeLimit)
    (hmember : s'.memberUsedBuffer ≤ messageSizeLimit)
    (hclone : s'.cloneUsedBuffer ≤ messageSizeLimit)
    (hquiet : s'.state.cliWriteReady = false → s'.memberUsedBuffer = 0) : s'.Ok where
  fresh := hfresh
  client_le := hclient
  member_le := hmember
  clone_le := hclone
  quiet := hquiet
  connected_fd := by
    intro kind hk
    rw [Session.serverfd_eq_fdOf, hl.fdOf, ← Session.serverfd_eq_fdOf]
    exact h.connected_fd kind ((hl.connected kind).symm.trans hk)
  client_fd := by
    rw [hl.cliConnected, show s'.clientfd = s.clientfd from hl.fdOf .client]
    exact h.client_fd
  distinct := by
    intro role role' fd hr hr'
    rw [hl.fdOf] at hr hr'
    exact h.distinct role role' fd hr hr'

theorem appendClient (h : s.Ok) {bytes : List UInt8}
    (hlen : bytes.length ≤ messageSizeLimit - s.clientUsedBuffer) : (s.appendClient bytes).Ok := by
  have hle := h.client_le
  refine h.of_sameLinks (sameLinks_appendClient s bytes) h.fresh ?_ h.member_le h.clone_le h.quiet
  show s.clientUsedBuffer + bytes.length ≤ messageSizeLimit
  omega

theorem appendClone (h : s.Ok) {nbytes : ℕ} (hlen : nbytes ≤ messageSizeLimit - s.cloneUsedBuffer) :
    (s.appendClone nbytes).Ok := by
  have hle := h.clone_le
  refine h.of_sameLinks (sameLinks_appendClone s nbytes) h.fresh h.client_le h.member_le ?_ h.quiet
  show s.cloneUsedBuffer + nbytes ≤ messageSizeLimit
  omega

theorem afterClientRead (h : s.Ok) : s.afterClientRead.Ok :=
  h.of_sameLinks (sameLinks_afterClientRead s) h.fresh h.client_le h.member_le h.clone_le h.quiet

theorem drainMember (h : s.Ok) (nbytes : ℕ) : (s.drainMember nbytes).Ok := by
  have hle := h.member_le
  refine h.of_sameLinks (sameLinks_drainMember s nbytes) h.fresh h.client_le ?_ h.clone_le ?_
  · show s.memberUsedBuffer - nbytes ≤ messageSizeLimit
    omega
  · show (if s.memberUsedBuffer - nbytes = 0 then false else s.state.cliWriteReady) = false →
      s.memberUsedBuffer - nbytes = 0
    split_ifs with hz
    · exact fun _ => hz
    · intro hq
      have hzero := h.quiet hq
      omega

theorem freeMember (h : s.Ok) : s.freeMember.Ok := by
  unfold Session.freeMember
  split_ifs
  · exact h.of_sameLinks (.of_eq rfl rfl rfl rfl rfl rfl rfl rfl) h.fresh h.client_le h.member_le
      h.clone_le h.quiet
  · exact h

theorem appendMember (h : s.Ok) {bytes : List UInt8}
    (hlen : bytes.length ≤ messageSizeLimit - s.memberUsedBuffer) : (s.appendMember bytes).Ok := by
  have hle := h.member_le
  refine h.of_sameLinks (sameLinks_appendMember s bytes) h.fresh h.client_le ?_ h.clone_le ?_
  · show s.memberUsedBuffer + bytes.length ≤ messageSizeLimit
    omega
  · intro hq
    exact absurd hq (by simp [Session.appendMember])

theorem drainClient (h : s.Ok) (nbytes : ℕ) : (s.drainClient nbytes).Ok := by
  have hle := h.client_le
  refine h.of_sameLinks (sameLinks_drainClient s nbytes) h.fresh ?_ h.member_le h.clone_le h.quiet
  show s.clientUsedBuffer - nbytes ≤ messageSizeLimit
  omega

theorem drainClone (h : s.Ok) (nbytes : ℕ) : (s.drainClone nbytes).Ok := by
  have hle := h.clone_le
  refine h.of_sameLinks (sameLinks_drainClone s nbytes) h.fresh h.client_le h.member_le ?_ h.quiet
  show s.cloneUsedBuffer - nbytes ≤ messageSizeLimit
  omega

/-- Giving up one side. -/
theorem clearServer (h : s.Ok) (kind : ServerKind) : (s.clearServer kind).Ok where
  fresh := by cases kind <;> exact h.fresh
  client_le := by cases kind <;> exact h.client_le
  member_le := by cases kind <;> exact h.member_le
  clone_le := by cases kind <;> exact h.clone_le
  quiet := by cases kind <;> exact h.quiet
  connected_fd := by
    intro kind' hk
    have hfd := h.connected_fd kind'
    cases kind <;> cases kind' <;>
      simp_all [Session.clearServer, Session.connected, Session.serverfd]
  client_fd := by cases kind <;> exact h.client_fd
  distinct := by
    intro role role' fd hr hr'
    have hshrink : ∀ r, (s.clearServer kind).fdOf r = some fd → s.fdOf r = some fd := by
      intro r hfd
      cases kind <;> cases r <;> simp_all [Session.clearServer, Session.fdOf]
    exact h.distinct role role' fd (hshrink role hr) (hshrink role' hr')

theorem clearClient (h : s.Ok) :
    ({ s with state := { s.state with cliConnected := false }, clientfd := none } :
      Session).Ok where
  fresh := h.fresh
  client_le := h.client_le
  member_le := h.member_le
  clone_le := h.clone_le
  quiet := h.quiet
  connected_fd := by
    intro kind
    cases kind
    · exact h.connected_fd .member
    · exact h.connected_fd .clone
  client_fd := ⟨nofun, fun hc => absurd rfl hc⟩
  distinct := by
    intro role role' fd hr hr'
    have hshrink : ∀ r, ({ s with
        state := { s.state with cliConnected := false }, clientfd := none } : Session).fdOf r
          = some fd → s.fdOf r = some fd := by
      intro r hfd
      cases r <;> simp_all [Session.fdOf]
    exact h.distinct role role' fd (hshrink role hr) (hshrink role' hr')

/-- Restoring the defaults, once the client has been given up. -/
theorem reset (h : s.Ok) (hclient : s.clientfd = none) : s.reset.Ok where
  fresh := rfl
  client_le := Nat.zero_le _
  member_le := Nat.zero_le _
  clone_le := Nat.zero_le _
  quiet := fun _ => rfl
  connected_fd := by
    intro kind hk
    cases kind <;> exact absurd hk (by simp [Session.reset, Session.connected, SessionState.unused])
  client_fd := ⟨nofun, fun hc => absurd hclient hc⟩
  distinct := by
    intro role role' fd hr hr'
    refine h.distinct role role' fd ?_ ?_
    · cases role <;> exact hr
    · cases role' <;> exact hr'

end Session.Ok

/-! ## Every call keeps the invariant -/

theorem ok_disconnectServer {x : Ctx n L} (h : x.session.Ok) (kind : ServerKind) :
    (disconnectServer kind x).session.Ok := by
  rw [session_disconnectServer]
  split_ifs
  · exact h.clearServer kind
  · exact h

/-- A server that is given up is no longer connected, and the other one is as
before. -/
theorem connected_disconnectServer {x : Ctx n L} (h : x.session.Ok) (kind kind' : ServerKind) :
    (disconnectServer kind x).session.connected kind'
      = if kind' = kind then false else x.session.connected kind' := by
  rw [session_disconnectServer]
  split_ifs with hfd hk hk
  · subst hk
    cases kind' <;> rfl
  · exact (sameSide_clearServer hk _).connected
  · subst hk
    by_contra hc
    exact hfd (Option.isSome_iff_ne_none.mpr
      (h.connected_fd kind' (Bool.eq_true_of_not_eq_false hc)))
  · rfl

theorem ok_disconnectClient {x : Ctx n L} (h : x.session.Ok) : (disconnectClient x).session.Ok := by
  rw [session_disconnectClient]
  split_ifs
  · exact h.clearClient
  · exact h

theorem ok_disconnectAll {x : Ctx n L} (h : x.session.Ok) : (disconnectAll x).session.Ok := by
  have hif : ∀ {b : Bool} {y z : Ctx n L}, y.session.Ok → z.session.Ok →
      (if b then y else z).session.Ok := by
    intro b y z hy hz
    split_ifs
    · exact hy
    · exact hz
  have h1 := hif (b := x.session.state.cliConnected) (ok_disconnectClient h) h
  have h2 := fun b => hif (b := b) (ok_disconnectServer h1 .member) h1
  exact hif (ok_disconnectServer (h2 _) .clone) (h2 _)

/-- The client is given up first, and the servers after it keep it so. -/
theorem clientfd_disconnectAll {x : Ctx n L} (h : x.session.Ok) :
    (disconnectAll x).session.clientfd = none := by
  have hserver : ∀ (kind : ServerKind) (y : Ctx n L),
      (disconnectServer kind y).session.clientfd = y.session.clientfd :=
    fun kind _ => field_disconnectServer Session.clientfd (by cases kind <;> rfl)
  have hclient : (if x.session.state.cliConnected then disconnectClient x
      else x).session.clientfd = none := by
    split_ifs with hc
    · rw [session_disconnectClient]
      split_ifs with hfd
      · rfl
      · simpa using hfd
    · by_contra hfd
      exact hc (h.client_fd.mpr hfd)
  unfold disconnectAll disconnectMember disconnectClone
  dsimp only
  generalize (if x.session.state.cliConnected then disconnectClient x else x) = y at hclient ⊢
  split_ifs <;> simp only [hserver, hclient]

theorem ok_deleteSession {x : Ctx n L} (h : x.session.Ok) (reason : Reason) :
    (deleteSession reason x).session.Ok :=
  (ok_disconnectAll h).reset (clientfd_disconnectAll h)

theorem ok_copyToClone {x : Ctx n L} (h : x.session.Ok) (nbytes : ℕ) :
    (copyToClone nbytes x).session.Ok := by
  unfold copyToClone
  split_ifs with hclo hroom
  · exact ok_disconnectServer h .clone
  · exact h.appendClone (not_lt.mp hroom)
  · exact h

theorem ok_forwardClientRead {x : Ctx n L} (h : x.session.Ok) (nbytes : ℕ) :
    (forwardClientRead nbytes x).session.Ok := by
  rw [forwardClientRead, session_maintainClientRead]
  exact (ok_copyToClone h nbytes).afterClientRead

theorem ok_effect {x y : Ctx n L} (h : x.session.Ok) {call : Call} (he : Effect x call y) :
    y.session.Ok := by
  cases he with
  | clientEof => exact ok_deleteSession h _
  | clientGone => exact ok_deleteSession h _
  | fromClient _ _ _ bytes hr =>
      exact ok_forwardClientRead (h.appendClient (Sys.read_eq_some hr).2) _
  | delivered => exact ok_deleteSession (h.drainMember _) _
  | toClient _ _ k => exact (h.drainMember k).freeMember
  | memberGone => exact ok_deleteSession h _
  | fromMember _ _ _ bytes hr => exact h.appendMember (Sys.read_eq_some hr).2
  | toMember _ _ k => exact h.drainClient k
  | fromClone => exact h
  | toClone _ _ k => exact h.drainClone k
  | disconnected _ kind => exact ok_disconnectServer h kind

/-- **Every call keeps the record in order.** -/
theorem ok_handle [LoadArith L] {x y : Ctx n L} (h : x.session.Ok) {call : Call}
    (hcall : handle call x = some y) : y.session.Ok :=
  ok_effect h (effect_of_handle h.fresh hcall)

/-! ## The start of a run -/

/-- A session in the pool, as `initialize_sessions` or `delete_session` leaves
it.  A descriptor that it still holds is one that `connect_server` left open
when it could not be registered. -/
structure Idle (x : Ctx n L) : Prop where
  state : x.session.state = .unused
  clientfd : x.session.clientfd = none
  clientUsedBuffer : x.session.clientUsedBuffer = 0
  memberUsedBuffer : x.session.memberUsedBuffer = 0
  cloneUsedBuffer : x.session.cloneUsedBuffer = 0
  opens : ∀ role fd, x.session.fdOf role = some fd → x.sys.isOpen fd = true
  distinct : ∀ role role' fd, x.session.fdOf role = some fd → x.session.fdOf role' = some fd →
    role = role'

/-- A session as the accept branch leaves it for a new client. -/
def Accepted [LoadArith L] (x : Ctx n L) : Prop :=
  ∃ (x₀ : Ctx n L) (fd : Fd) (env : AcceptEnv), Idle x₀ ∧ x₀.sys.isOpen fd = false ∧
    acceptClient fd env (x₀.updateSys fun y => y.opened fd) = some x

/-- A session in the accept branch: set up, and nothing has been read or
written. -/
structure Admitted (x : Ctx n L) : Prop where
  ok : x.session.Ok
  opens : ∀ role fd, x.session.fdOf role = some fd → x.sys.isOpen fd = true
  clientUsedBuffer : x.session.clientUsedBuffer = 0
  memberUsedBuffer : x.session.memberUsedBuffer = 0
  cloneUsedBuffer : x.session.cloneUsedBuffer = 0
  inUse : x.history.inUse = true
  noBytes : ∀ role, x.history.sinceAllocated.received role = [] ∧
    x.history.sinceAllocated.sent role = []
  unreleased : x.history.sinceAllocated.Unreleased
  noCloneBytes : x.session.state.cloConnected = true →
    x.history.sinceCloneConnected.received .client = [] ∧
      x.history.sinceCloneConnected.sent .clone = []

theorem Sys.isOpen_opened {y : Sys n L} {fd fd' : Fd} :
    (y.opened fd).isOpen fd' = true ↔ fd' = fd ∨ y.isOpen fd' = true := by
  show Function.update y.isOpen fd true fd' = true ↔ _
  by_cases h : fd' = fd
  · rw [h, Function.update_self]
    simp
  · rw [Function.update_of_ne h]
    simp [h]

theorem fdOf_handOut {s : Session} {fd fd' : Fd} {role : Role}
    (h : (s.handOut fd).fdOf role = some fd') :
    (role = .client ∧ fd' = fd) ∨ (role ≠ .client ∧ s.fdOf role = some fd') := by
  cases role
  · exact Or.inl ⟨rfl, (Option.some.inj h).symm⟩
  · exact Or.inr ⟨by decide, h⟩
  · exact Or.inr ⟨by decide, h⟩

/-- Handing a session out for a descriptor that it does not hold. -/
theorem ok_handOut {s : Session} (h : s.Ok) {fd : Fd} (hne : ∀ role, s.fdOf role ≠ some fd) :
    (s.handOut fd).Ok where
  fresh := h.fresh
  client_le := h.client_le
  member_le := h.member_le
  clone_le := h.clone_le
  quiet := h.quiet
  connected_fd := by
    intro kind
    cases kind
    · exact h.connected_fd .member
    · exact h.connected_fd .clone
  client_fd := ⟨fun _ => by simp [Session.handOut], fun _ => rfl⟩
  distinct := by
    intro role role' fd' hr hr'
    rcases fdOf_handOut hr with ⟨rfl, rfl⟩ | ⟨-, hr⟩ <;>
      rcases fdOf_handOut hr' with ⟨rfl, h2⟩ | ⟨-, hr'⟩
    · rfl
    · exact absurd hr' (hne role')
    · exact absurd (h2 ▸ hr) (hne role)
    · exact h.distinct role role' fd' hr hr'

/-- A session in the pool is in order. -/
theorem Idle.ok {x : Ctx n L} (h : Idle x) : x.session.Ok where
  fresh := by rw [h.state]; rfl
  client_le := by rw [h.clientUsedBuffer]; omega
  member_le := by rw [h.memberUsedBuffer]; omega
  clone_le := by rw [h.cloneUsedBuffer]; omega
  quiet := fun _ => h.memberUsedBuffer
  connected_fd := by
    intro kind hk
    cases kind <;> simp [Session.connected, h.state, SessionState.unused] at hk
  client_fd := by simp [h.state, h.clientfd, SessionState.unused]
  distinct := h.distinct

/-- Handing out an idle session. -/
theorem admitted_handOut {x : Ctx n L} (h : Idle x) {fd : Fd} (hfd : x.sys.isOpen fd = false) :
    Admitted ((x.updateSys fun y => y.opened fd).handOut fd) where
  ok := ok_handOut h.ok fun role hr => absurd ((h.opens role fd hr).symm.trans hfd) (by decide)
  opens := by
    intro role fd' hr
    show (x.sys.opened fd).isOpen fd' = true
    rw [Sys.isOpen_opened]
    rcases fdOf_handOut hr with ⟨-, rfl⟩ | ⟨-, hr⟩
    · exact Or.inl rfl
    · exact Or.inr (h.opens role fd' hr)
  clientUsedBuffer := h.clientUsedBuffer
  memberUsedBuffer := h.memberUsedBuffer
  cloneUsedBuffer := h.cloneUsedBuffer
  inUse := rfl
  noBytes := fun _ => ⟨rfl, rfl⟩
  unreleased := fun _ hmem => absurd hmem (List.not_mem_nil)
  noCloneBytes := by
    intro hc
    change x.session.state.cloConnected = true at hc
    rw [h.state] at hc
    cases hc

theorem fdOf_setServer {s : Session} {kind : ServerKind} {fd fd' : Fd} {slot : ℕ} {role : Role}
    (h : (s.setServer kind fd slot).fdOf role = some fd') :
    (role = kind.role ∧ fd' = fd) ∨ s.fdOf role = some fd' := by
  cases kind <;> cases role <;> first
    | exact Or.inl ⟨rfl, (Option.some.inj h).symm⟩
    | exact Or.inr h

/-- Associating a fresh descriptor with a server side that has none. -/
theorem ok_setServer {x : Ctx n L} (h : x.session.Ok)
    (hopen : ∀ role fd, x.session.fdOf role = some fd → x.sys.isOpen fd = true) {kind : ServerKind}
    {fd : Fd} (hfd : x.sys.isOpen fd = false) (slot : ℕ) :
    (x.session.setServer kind fd slot).Ok := by
  -- what the session holds is open, and the new descriptor was not
  have hne : ∀ role, x.session.fdOf role ≠ some fd := by
    intro role hr
    exact absurd ((hopen role fd hr).symm.trans hfd) (by decide)
  refine
    { fresh := by cases kind <;> exact h.fresh
      client_le := by cases kind <;> exact h.client_le
      member_le := by cases kind <;> exact h.member_le
      clone_le := by cases kind <;> exact h.clone_le
      quiet := by cases kind <;> exact h.quiet
      connected_fd := ?_
      client_fd := by cases kind <;> exact h.client_fd
      distinct := ?_ }
  · intro kind' hk
    have hfd' := h.connected_fd kind'
    cases kind <;> cases kind' <;> simp_all [Session.setServer, Session.connected, Session.serverfd]
  · intro role role' fd' hr hr'
    rcases fdOf_setServer hr with ⟨rfl, rfl⟩ | hr <;>
      rcases fdOf_setServer hr' with ⟨rfl, h2⟩ | hr'
    · rfl
    · exact absurd hr' (hne role')
    · exact absurd (h2 ▸ hr) (hne role)
    · exact h.distinct role role' fd' hr hr'

theorem ok_setConnected {s : Session} (h : s.Ok) {kind : ServerKind}
    (hfd : s.serverfd kind ≠ none) : (s.setConnected kind).Ok where
  fresh := by cases kind <;> exact h.fresh
  client_le := by cases kind <;> exact h.client_le
  member_le := by cases kind <;> exact h.member_le
  clone_le := by cases kind <;> exact h.clone_le
  quiet := by cases kind <;> exact h.quiet
  connected_fd := by
    intro kind' hk
    have hfd' := h.connected_fd kind'
    cases kind <;> cases kind' <;>
      simp_all [Session.setConnected, Session.connected, Session.serverfd]
  client_fd := by cases kind <;> exact h.client_fd
  distinct := by
    intro role role' fd hr hr'
    refine h.distinct role role' fd ?_ ?_
    · cases kind <;> cases role <;> exact hr
    · cases kind <;> cases role' <;> exact hr'

/-- The history grows by an entry that carries no bytes and does not end the
session. -/
theorem Admitted.observe {x : Ctx n L} (h : Admitted x) (status : ℤ) :
    Admitted (x.observe (.chose status)) where
  ok := h.ok
  opens := h.opens
  clientUsedBuffer := h.clientUsedBuffer
  memberUsedBuffer := h.memberUsedBuffer
  cloneUsedBuffer := h.cloneUsedBuffer
  inUse := h.inUse
  noBytes := fun role => by
    simpa [Obs.isAllocated, Obs.receivedFrom, Obs.sentTo] using h.noBytes role
  unreleased := by simpa [Obs.isAllocated, Obs.isReleased] using h.unreleased
  noCloneBytes := fun hc => by
    simpa [Obs.isCloneConnected, Obs.receivedFrom, Obs.sentTo] using h.noCloneBytes hc

/-- A change of the surroundings that closes no descriptor. -/
theorem Admitted.updateSys {x : Ctx n L} (h : Admitted x) {f : Sys n L → Sys n L}
    (hf : ∀ fd, x.sys.isOpen fd = true → (f x.sys).isOpen fd = true) :
    Admitted (x.updateSys f) :=
  { h with opens := fun role fd hr => hf fd (h.opens role fd hr) }

theorem Admitted.associate {x : Ctx n L} (h : Admitted x) {kind : ServerKind} {fd : Fd}
    (hfd : x.sys.isOpen fd = false) (slot : ℕ) :
    Admitted ((x.updateSys fun y => y.opened fd).associate kind fd slot) where
  ok := ok_setServer h.ok h.opens hfd slot
  opens := by
    intro role fd' hr
    show (x.sys.opened fd).isOpen fd' = true
    rw [Sys.isOpen_opened]
    rcases fdOf_setServer hr with ⟨-, rfl⟩ | hr
    · exact Or.inl rfl
    · exact Or.inr (h.opens role fd' hr)
  clientUsedBuffer := by cases kind <;> exact h.clientUsedBuffer
  memberUsedBuffer := by cases kind <;> exact h.memberUsedBuffer
  cloneUsedBuffer := by cases kind <;> exact h.cloneUsedBuffer
  inUse := h.inUse
  noBytes := h.noBytes
  unreleased := h.unreleased
  noCloneBytes := by cases kind <;> exact h.noCloneBytes

theorem Admitted.establish {x : Ctx n L} (h : Admitted x) {kind : ServerKind} {fd : Fd}
    (hfd : x.session.serverfd kind ≠ none) (slot : ℕ) : Admitted (x.establish kind fd slot) where
  ok := ok_setConnected h.ok hfd
  opens := by
    intro role fd' hr
    refine h.opens role fd' ?_
    cases kind <;> cases role <;> exact hr
  clientUsedBuffer := by cases kind <;> exact h.clientUsedBuffer
  memberUsedBuffer := by cases kind <;> exact h.memberUsedBuffer
  cloneUsedBuffer := by cases kind <;> exact h.cloneUsedBuffer
  inUse := h.inUse
  noBytes := by
    intro role
    simpa [Ctx.establish, Obs.isAllocated, Obs.receivedFrom, Obs.sentTo] using h.noBytes role
  unreleased := by
    simpa [Ctx.establish, Obs.isAllocated, Obs.isReleased] using h.unreleased
  noCloneBytes := by
    intro hc
    cases kind
    · simpa [Ctx.establish, Obs.isCloneConnected, ServerKind.role, Obs.receivedFrom, Obs.sentTo]
        using h.noCloneBytes hc
    · simp [Ctx.establish, Obs.isCloneConnected, ServerKind.role]

theorem Admitted.connects {x y : Ctx n L} (h : Admitted x) {kind : ServerKind} {slot : ℕ}
    (hc : Connects kind slot x y) : Admitted y := by
  cases hc with
  | skipped => exact h
  | leaked fd hfd hnone => exact h.updateSys fun fd' ho => Sys.isOpen_opened.mpr (Or.inr ho)
  | associated fd hfd hnone => exact h.associate hfd slot
  | established fd hfd hnone =>
      refine (h.associate hfd slot).establish ?_ slot
      cases kind <;> simp [Ctx.associate, Session.setServer, Session.serverfd]

theorem Admitted.connectServer {x : Ctx n L} (h : Admitted x) (env : ConnectEnv) :
    Admitted (connectServer env x).1 := by
  have hm := h.connects (connectMember_connects env.member x)
  unfold OctopusLB.connectServer
  split_ifs
  · exact hm
  · exact hm.connects (connectClone_connects env.clone _)

theorem Admitted.chooseServer [LoadArith L] {x y : Ctx n L} (h : Admitted x) {env : ConnectEnv}
    {status : ℤ} (hc : chooseServer env x = some (y, status)) : Admitted y := by
  obtain ⟨c, code, -, hor⟩ := chooseServer_cases hc
  have hx : Admitted (x.updateSys fun s => { s with chooser := c }) :=
    h.updateSys fun _ ho => ho
  rcases hor with ⟨-, -, rfl⟩ | ⟨-, rfl, -⟩
  · exact hx.observe status
  · exact (hx.connectServer env).observe status

/-- Clearing `STATE_FRESH`, which is not set. -/
theorem Admitted.clearFresh {x : Ctx n L} (h : Admitted x) :
    Admitted (x.updateState fun state => { state with fresh := false }) := by
  have hsame : (x.updateState fun state => { state with fresh := false }) = x := by
    show ({ x with session := { x.session with
      state := { x.session.state with fresh := false } } } : Ctx n L) = x
    rw [← h.ok.fresh]
  rw [hsame]
  exact h

/-- **What the accept branch leaves**: an admitted session, or one deleted
again before anything was read. -/
theorem accepted_cases [LoadArith L] {x : Ctx n L} (h : Accepted x) :
    Admitted x ∨ ∃ z reason, Admitted z ∧ Reason.isClient reason = false
      ∧ x = deleteSession reason z := by
  obtain ⟨x₀, fd, env, hidle, hfd, haccept⟩ := h
  have hadm := admitted_handOut hidle hfd
  have hreg := hadm.updateSys (f := fun s => s.register fd) fun _ ho => ho
  rcases acceptClient_cases haccept with rfl | ⟨-, rfl⟩ | ⟨-, z, status, hz, hor⟩
  · exact Or.inr ⟨_, _, hadm, rfl, rfl⟩
  · exact Or.inl hreg
  · have hz' := hreg.chooseServer hz
    rcases hor with ⟨-, rfl⟩ | ⟨-, rfl⟩
    · exact Or.inr ⟨_, _, hz', rfl, rfl⟩
    · exact Or.inl hz'.clearFresh

theorem accepted_ok [LoadArith L] {x : Ctx n L} (h : Accepted x) : x.session.Ok := by
  rcases accepted_cases h with hx | ⟨z, reason, hz, -, rfl⟩
  · exact hx.ok
  · exact ok_deleteSession hz.ok reason

/-! ## A sample session -/

/-- One member and one clone, both enabled, round robin. -/
def pairChooser : Chooser ℤ where
  balancer :=
    { hashTable := fun _ => none
      nmembers := 1
      nclones := 1
      algorithm := .rr
      cloneMode := .on
      overloadMode := .relaxed
      servers := fun p => if p = 0 ∨ p = maxServers then sampleServer 0 false else Server.zero ℤ
      sessionWeight := 1
      defaultMaxc := 0
      defaultMaxl := 0 }
  nextMember := 0
  nextClone := 0
  availableMembers := []
  availableClones := []
  useClone := false
  usingMemberStandby := false
  usingCloneStandby := false

/-- The only session of the pool, before any client; descriptor 3 listens. -/
def sampleIdle : Ctx 1 ℤ where
  sid := 0
  session := .initial 0
  history := []
  sys :=
    { chooser := pairChooser
      fds := fun _ => none
      isOpen := fun fd => fd == 3
      interest := fun fd => if fd = 3 then some .ro else none
      unused := fun _ => true }

/-- Every system call of the accept branch succeeds; the member gets descriptor
6 and the clone 7. -/
def sampleEnv : AcceptEnv where
  epollAdd := true
  connect :=
    { member := ⟨some 6, true, true, true, true⟩
      clone := ⟨some 7, true, true, true, true, true, true, true, true⟩ }

/-- The session with client 5, member 6 and clone 7. -/
def sampleSession : Ctx 1 ℤ :=
  (acceptClient 5 sampleEnv (sampleIdle.updateSys fun y => y.opened 5)).get (by decide)

theorem accepted_sampleSession : Accepted sampleSession := by
  refine ⟨sampleIdle, 5, sampleEnv, ?_, rfl, (Option.some_get _).symm⟩
  exact
    { state := rfl
      clientfd := rfl
      clientUsedBuffer := rfl
      memberUsedBuffer := rfl
      cloneUsedBuffer := rfl
      opens := fun role _ h => by cases role <;> cases h
      distinct := fun role _ _ h _ => by cases role <;> cases h }

end OctopusLB
