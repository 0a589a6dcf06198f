/-
# Stream integrity

The two directions of a session as first-in first-out streams: in each, the
bytes sent so far followed by the used part of the buffer are the bytes received
so far.

* `memberStream_of_mem_states`: the direction from member to client is in order
  in every state, and a session that is released for a reason other than its
  client's has delivered everything;
* `clientStream_always_iff`: the direction from client to member is in order
  exactly if the client's end of file is never read while bytes are still queued
  for a connected member.
-/
import Mathlib.Data.List.Infix
import OctopusLB.BufferRoom

namespace OctopusLB

variable {n : ℕ} {L : Type}

/-- The bytes waiting for the client. -/
def Session.memberQueue (s : Session) : List UInt8 :=
  s.memberReadBuffer.contents s.memberUsedBuffer

/-- The bytes waiting for the member. -/
def Session.clientQueue (s : Session) : List UInt8 :=
  s.clientReadBuffer.contents s.clientUsedBuffer

/-! ## What the session functions do to the queues -/

theorem memberQueue_appendMember {s : Session} {bytes : List UInt8} (hs : s.Ok)
    (h : bytes.length ≤ messageSizeLimit - s.memberUsedBuffer) :
    (s.appendMember bytes).memberQueue = s.memberQueue ++ bytes := by
  have hle := hs.member_le
  exact s.memberReadBuffer.contents_store s.memberUsedBuffer bytes (by omega)

theorem memberQueue_drainMember {s : Session} {k : ℕ} (hs : s.Ok) (h : k ≤ s.memberUsedBuffer) :
    s.memberQueue.take k ++ (s.drainMember k).memberQueue = s.memberQueue :=
  s.memberReadBuffer.take_append_contents_drain h hs.member_le

theorem clientQueue_appendClient {s : Session} {bytes : List UInt8} (hs : s.Ok)
    (h : bytes.length ≤ messageSizeLimit - s.clientUsedBuffer) :
    (s.appendClient bytes).clientQueue = s.clientQueue ++ bytes := by
  have hle := hs.client_le
  exact s.clientReadBuffer.contents_store s.clientUsedBuffer bytes (by omega)

theorem clientQueue_drainClient {s : Session} {k : ℕ} (hs : s.Ok) (h : k ≤ s.clientUsedBuffer) :
    s.clientQueue.take k ++ (s.drainClient k).clientQueue = s.clientQueue :=
  s.clientReadBuffer.take_append_contents_drain h hs.client_le

/-! ## The two directions -/

/-- From the member to the client, or from the client to the member. -/
inductive Direction
  | toClient
  | toMember

namespace Direction

/-- Where the bytes come from. -/
def source : Direction → Role
  | toClient => .member
  | toMember => .client

/-- Where the bytes go. -/
def sink : Direction → Role
  | toClient => .client
  | toMember => .member

/-- How many bytes are waiting. -/
def used : Direction → Session → ℕ
  | toClient, s => s.memberUsedBuffer
  | toMember, s => s.clientUsedBuffer

/-- The bytes waiting. -/
def queue : Direction → Session → List UInt8
  | toClient, s => s.memberQueue
  | toMember, s => s.clientQueue

/-- A release before which everything received has to be delivered.  To the
client: any that is not for the client's sake.  To a connected member: the
client's end of file, read with room in the buffer. -/
def Orderly : Direction → Reason → Session → Prop
  | toClient, reason, _ => reason.isClient = false
  | toMember, reason, s =>
      reason = .clientEof ∧ s.clientUsedBuffer < messageSizeLimit ∧ s.state.memConnected = true

theorem used_le (d : Direction) {s : Session} (h : s.Ok) : d.used s ≤ messageSizeLimit := by
  cases d
  · exact h.member_le
  · exact h.client_le

theorem queue_of_used_eq_zero (d : Direction) {s : Session} (h : d.used s = 0) :
    d.queue s = [] := by
  cases d
  · rw [queue, Session.memberQueue, show s.memberUsedBuffer = 0 from h, FixedBuffer.contents_zero]
  · rw [queue, Session.clientQueue, show s.clientUsedBuffer = 0 from h, FixedBuffer.contents_zero]

/-- Making room in the member buffer leaves both queues. -/
theorem queue_freeMember (d : Direction) (s : Session) : d.queue s.freeMember = d.queue s := by
  unfold Session.freeMember
  cases d <;> split_ifs <;> rfl

/-- Giving up a server leaves both queues. -/
theorem queue_disconnectServer (d : Direction) (kind : ServerKind) (x : Ctx n L) :
    d.queue (disconnectServer kind x).session = d.queue x.session :=
  field_disconnectServer d.queue (by cases kind <;> cases d <;> rfl)

/-- A read from the client queues its bytes for the member. -/
theorem queue_forwardClientRead (d : Direction) {x : Ctx n L} (hs : x.session.Ok)
    {bytes : List UInt8} (h : bytes.length ≤ messageSizeLimit - x.session.clientUsedBuffer) :
    d.queue (forwardClientRead bytes.length (receiveFromClient bytes x)).session
      = d.queue x.session ++ match d with
        | toClient => []
        | toMember => bytes := by
  obtain ⟨connected, fd, buffer, used, hcopy⟩ :=
    session_copyToClone bytes.length (receiveFromClient bytes x)
  rw [session_forwardClientRead, hcopy]
  cases d
  · exact (List.append_nil _).symm
  · exact clientQueue_appendClient hs h

end Direction

/-- A direction of a session is in order. -/
structure Stream (d : Direction) (x : Ctx n L) : Prop where
  used_le : d.used x.session ≤ messageSizeLimit
  balanced : x.history.sinceAllocated.Unreleased →
    x.history.Balanced Obs.isAllocated d.source d.sink (d.queue x.session)
  delivered : ∀ (reason : Reason) (s : Session) (earlier : History),
    .released reason s :: earlier <:+ x.history.sinceAllocated → d.Orderly reason s →
      d.used s = 0 ∧ (earlier.Unreleased → earlier.sent d.sink = earlier.received d.source)

namespace Stream

variable {d : Direction} {x y : Ctx n L}

/-- What is looked at is one buffer and the history. -/
theorem of_eq (h : Stream d x) (hused : d.used y.session ≤ messageSizeLimit)
    (hqueue : d.queue y.session = d.queue x.session) (hhist : y.history = x.history) :
    Stream d y where
  used_le := hused
  balanced := by
    rw [hhist, hqueue]
    exact h.balanced
  delivered := by
    rw [hhist]
    exact h.delivered

/-- An entry that is neither an allocation nor a release. -/
theorem cons {o : Obs} (h : Stream d x) (hused : d.used y.session ≤ messageSizeLimit)
    (hhist : y.history = o :: x.history) (ha : o.isAllocated = false) (hr : o.isReleased = false)
    (hbal : x.history.Balanced Obs.isAllocated d.source d.sink (d.queue x.session) →
      History.Balanced Obs.isAllocated d.source d.sink (d.queue y.session) (o :: x.history)) :
    Stream d y where
  used_le := hused
  balanced := by
    intro hun
    rw [hhist, History.sinceAllocated_cons, ha, if_neg (by simp),
      History.unreleased_cons] at hun
    rw [hhist]
    exact hbal (h.balanced hun.2)
  delivered := by
    intro reason s earlier hsuf
    rw [hhist, History.sinceAllocated_cons, ha, if_neg (by simp), List.suffix_cons_iff] at hsuf
    -- the new entry is no release, so the release is an earlier one
    rcases hsuf with heq | hsuf
    · rw [← (List.cons.inj heq).1] at hr
      cases hr
    · exact h.delivered reason s earlier hsuf

/-- An entry that carries no byte of this direction. -/
theorem other {o : Obs} (h : Stream d x) (hused : d.used y.session ≤ messageSizeLimit)
    (hqueue : d.queue y.session = d.queue x.session) (hhist : y.history = o :: x.history)
    (ha : o.isAllocated = false) (hr : o.isReleased = false)
    (hsource : o.receivedFrom d.source = []) (hsink : o.sentTo d.sink = []) : Stream d y :=
  h.cons hused hhist ha hr fun hbal => by
    rw [hqueue]
    exact hbal.other ha hsource hsink

/-- `delete_session`: if everything had to be delivered, it has been. -/
theorem release (h : Stream d x) {reason : Reason}
    (hempty : d.Orderly reason x.session → d.used x.session = 0) :
    Stream d (deleteSession reason x) where
  used_le := by cases d <;> exact Nat.zero_le _
  balanced := by
    intro hun
    rw [history_deleteSession, History.sinceAllocated_cons, if_neg (by simp [Obs.isAllocated]),
      History.unreleased_cons] at hun
    exact absurd hun.1 (by simp [Obs.isReleased])
  delivered := by
    intro reason' s earlier hsuf horderly
    rw [history_deleteSession, History.sinceAllocated_cons, if_neg (by simp [Obs.isAllocated]),
      List.suffix_cons_iff] at hsuf
    rcases hsuf with heq | hsuf
    · obtain ⟨ho, rfl⟩ := List.cons.inj heq
      obtain ⟨rfl, rfl⟩ := Obs.released.inj ho
      -- the queue was empty, so what has been sent is what has been received
      have hzero := hempty horderly
      refine ⟨hzero, fun hun => ?_⟩
      have hbal := h.balanced hun
      rwa [d.queue_of_used_eq_zero hzero, History.Balanced, List.append_nil] at hbal
    · exact h.delivered reason' s earlier hsuf horderly

/-- `client_write` delivers a prefix of the queue. -/
theorem sendToClient (h : Stream d x) (hok : x.session.Ok) {k : ℕ}
    (hk : k ≤ x.session.memberUsedBuffer) : Stream d (sendToClient k x) := by
  have hused : d.used (x.session.drainMember k) ≤ messageSizeLimit :=
    d.used_le (hok.drainMember k)
  cases d with
  | toClient =>
      refine h.cons hused rfl rfl rfl fun hbal => ?_
      rw [Direction.queue, ← memberQueue_drainMember hok hk] at hbal
      exact hbal.send rfl
  | toMember => exact h.other hused rfl rfl rfl rfl rfl rfl

/-- `member_write` delivers a prefix of the queue. -/
theorem sendToMember (h : Stream d x) (hok : x.session.Ok) {k : ℕ}
    (hk : k ≤ x.session.clientUsedBuffer) : Stream d (sendToMember k x) := by
  have hused : d.used (x.session.drainClient k) ≤ messageSizeLimit :=
    d.used_le (hok.drainClient k)
  cases d with
  | toClient => exact h.other hused rfl rfl rfl rfl rfl rfl
  | toMember =>
      refine h.cons hused rfl rfl rfl fun hbal => ?_
      rw [Direction.queue, ← clientQueue_drainClient hok hk] at hbal
      exact hbal.send rfl

/-- `member_read` queues its bytes for the client. -/
theorem receiveFromMember (h : Stream d x) (hok : x.session.Ok) {bytes : List UInt8}
    (hlen : bytes.length ≤ messageSizeLimit - x.session.memberUsedBuffer) :
    Stream d (receiveFromMember bytes x) := by
  have hused : d.used (x.session.appendMember bytes) ≤ messageSizeLimit :=
    d.used_le (hok.appendMember hlen)
  cases d with
  | toClient =>
      refine h.cons hused rfl rfl rfl fun hbal => ?_
      show History.Balanced _ _ _ (x.session.appendMember bytes).memberQueue _
      rw [memberQueue_appendMember hok hlen]
      exact hbal.receive rfl
  | toMember => exact h.other hused rfl rfl rfl rfl rfl rfl

/-- `client_read` queues its bytes for the member. -/
theorem forwardClientRead (h : Stream d x) (hok : x.session.Ok) {bytes : List UInt8}
    (hlen : bytes.length ≤ messageSizeLimit - x.session.clientUsedBuffer) :
    Stream d (forwardClientRead bytes.length (receiveFromClient bytes x)) := by
  have hused := d.used_le (ok_forwardClientRead (x := receiveFromClient bytes x)
    (hok.appendClient hlen) bytes.length)
  have hqueue := d.queue_forwardClientRead hok hlen
  have hhist := history_forwardClientRead bytes.length (receiveFromClient bytes x)
  cases d with
  | toClient => exact h.other hused (hqueue.trans (List.append_nil _)) hhist rfl rfl rfl rfl
  | toMember =>
      refine h.cons hused hhist rfl rfl fun hbal => ?_
      rw [hqueue]
      exact hbal.receive rfl

/-- Every call keeps a direction in order, if the client's end of file does. -/
theorem effect (h : Stream d x) (hok : x.session.Ok) {call : Call} (he : Effect x call y)
    (heof : ∀ fd r env, call = .read .client fd r env →
      x.sys.read fd (messageSizeLimit - x.session.clientUsedBuffer) r = some [] →
        d.Orderly .clientEof x.session → d.used x.session = 0) : Stream d y := by
  have hoky := ok_effect hok he
  cases he with
  | clientEof fd r env hr => exact h.release (heof fd r env rfl hr)
  | clientGone call reason hrole hclient hne =>
      -- a client that goes away releases nothing that is orderly
      refine h.release fun horderly => ?_
      cases d with
      | toClient => exact absurd (hclient.symm.trans horderly) (by decide)
      | toMember => exact absurd horderly.1 hne
  | fromClient fd r env bytes hr hne => exact h.forwardClientRead hok (Sys.read_eq_some hr).2
  | delivered fd w hw hm =>
      refine (h.sendToClient hok (Nat.le_refl _)).release fun horderly => ?_
      cases d with
      | toClient => exact Nat.sub_self _
      | toMember => exact absurd horderly.1 (by decide)
  | toClient fd w k hw hm =>
      exact (h.sendToClient hok (Sys.write_eq_some hw).2.1).of_eq (d.used_le hoky)
        (d.queue_freeMember _) rfl
  | memberGone fd r env hr hq =>
      refine h.release fun horderly => ?_
      cases d with
      | toClient => exact hok.quiet hq
      | toMember => exact absurd horderly.1 (by decide)
  | fromMember fd r env bytes hr hne =>
      exact (h.receiveFromMember hok (Sys.read_eq_some hr).2).of_eq (d.used_le hoky) rfl rfl
  | toMember fd w k hw =>
      exact (h.sendToMember hok (Sys.write_eq_some hw).2.1).of_eq (d.used_le hoky) rfl rfl
  | fromClone fd r env bytes =>
      exact h.other (d.used_le hoky) rfl rfl rfl rfl (by cases d <;> rfl) rfl
  | toClone fd w k hw =>
      exact h.other (d.used_le hoky) (by cases d <;> rfl) rfl rfl rfl rfl (by cases d <;> rfl)
  | disconnected call kind hrole =>
      exact h.of_eq (d.used_le hoky) (d.queue_disconnectServer kind x)
        (history_disconnectServer x kind)

/-- Both directions of an admitted session are empty. -/
theorem admitted (h : Admitted x) : Stream d x := by
  have hused : d.used x.session = 0 := by
    cases d
    · exact h.memberUsedBuffer
    · exact h.clientUsedBuffer
  refine ⟨hused ▸ Nat.zero_le _, fun _ => ?_, ?_⟩
  · show x.history.sinceAllocated.sent d.sink ++ _ = x.history.sinceAllocated.received d.source
    rw [(h.noBytes d.source).1, (h.noBytes d.sink).2, d.queue_of_used_eq_zero hused]
    rfl
  · intro reason s earlier hsuf
    have hmem : Obs.released reason s ∈ x.history.sinceAllocated :=
      hsuf.subset List.mem_cons_self
    exact absurd (h.unreleased _ hmem) (by simp [Obs.isReleased])

theorem accepted [LoadArith L] (h : Accepted x) : Stream d x := by
  rcases accepted_cases h with hx | ⟨z, reason, hz, -, rfl⟩
  · exact admitted hx
  · refine (admitted hz).release fun _ => ?_
    cases d
    · exact hz.memberUsedBuffer
    · exact hz.clientUsedBuffer

end Stream

/-! ## From member to client -/

/-- A read handler is called for the client only if its descriptor is
registered for `EPOLLIN`, as epoll has it. -/
def ReadInvited (x : Ctx n L) : Call → Prop
  | .read .client _ _ _ => Invites x .client
  | _ => True

instance (x : Ctx n L) (call : Call) : Decidable (ReadInvited x call) := by
  rcases call with ⟨role, fd, r, env⟩ | ⟨role, fd, w⟩ | ⟨role, fd, err⟩ <;> cases role <;>
    unfold ReadInvited <;> infer_instance

/-- Every end of file of the client was read with room in the buffer, so it was
the client's own and not a read of length 0. -/
def EofHadRoom (x : Ctx n L) : Prop :=
  ∀ s, .released .clientEof s ∈ x.history.sinceAllocated → s.clientUsedBuffer < messageSizeLimit

theorem EofHadRoom.cons {x y : Ctx n L} {o : Obs} (h : EofHadRoom x)
    (hhist : y.history = o :: x.history) (ho : ∀ s, o ≠ .released .clientEof s) :
    EofHadRoom y := by
  intro s hmem
  rw [hhist, History.sinceAllocated_cons] at hmem
  split_ifs at hmem
  · cases hmem
  · rcases List.mem_cons.mp hmem with heq | hmem
    · exact absurd heq.symm (ho s)
    · exact h s hmem

/-- `delete_session` for another reason than the client's end of file. -/
theorem EofHadRoom.release {x : Ctx n L} (h : EofHadRoom x) {reason : Reason}
    (hne : reason ≠ .clientEof) : EofHadRoom (deleteSession reason x) :=
  h.cons (history_deleteSession x reason) fun _ heq => hne (Obs.released.inj heq).1

theorem eofHadRoom_effect {x y : Ctx n L} (hinv : RoomInv x) (h : EofHadRoom x) {call : Call}
    (hgood : ReadInvited x call) (he : Effect x call y) : EofHadRoom y := by
  cases he with
  | clientEof fd r env hr =>
      -- the client was invited to send, so there was room
      obtain ⟨fd', i, hfd, hi, hin⟩ := hgood
      have hconn : x.session.state.cliConnected = true :=
        hinv.ok.client_fd.mpr (by rw [show x.session.clientfd = some fd' from hfd]; simp)
      have hroom := (hinv.client hconn).invited ⟨fd', i, hfd, hi, hin⟩
      intro s hmem
      rw [history_deleteSession, History.sinceAllocated_cons, if_neg (by simp [Obs.isAllocated])]
        at hmem
      rcases List.mem_cons.mp hmem with heq | hmem
      · rw [(Obs.released.inj heq).2]
        exact hroom
      · exact h s hmem
  | clientGone call reason hrole hclient hne => exact h.release hne
  | fromClient fd r env bytes hr hne =>
      exact h.cons (o := .received .client bytes) (history_forwardClientRead _ _) (by simp)
  | delivered fd w hw hm =>
      have hz : EofHadRoom (sendToClient x.session.memberUsedBuffer x) := h.cons rfl (by simp)
      exact hz.release (by decide)
  | toClient fd w k hw hm => exact h.cons rfl (by simp)
  | memberGone => exact h.release (by decide)
  | fromMember fd r env bytes hr hne => exact h.cons rfl (by simp)
  | toMember fd w k hw => exact h.cons rfl (by simp)
  | fromClone fd r env bytes => exact h.cons rfl (by simp)
  | toClone fd w k hw => exact h.cons rfl (by simp)
  | disconnected call kind hrole =>
      intro s
      rw [history_disconnectServer]
      exact h s

theorem eofHadRoom_accepted [LoadArith L] {x : Ctx n L} (h : Accepted x) : EofHadRoom x := by
  have hadm : ∀ z : Ctx n L, Admitted z → EofHadRoom z := fun z hz s hmem =>
    absurd (hz.unreleased _ hmem) (by simp [Obs.isReleased])
  rcases accepted_cases h with hx | ⟨z, reason, hz, hreason, rfl⟩
  · exact hadm x hx
  · refine (hadm z hz).release ?_
    rintro rfl
    cases hreason

/-- **Member-to-client integrity.**  In every state of every run the direction
from member to client is in order; and if the client is only read when its
descriptor is registered for it, an end of file is always the client's own. -/
theorem memberStream_of_mem_states [LoadArith L] {x : Ctx n L} (h : Accepted x)
    (calls : List Call) :
    (∀ y ∈ (sessionMachine n L).states x calls, Stream .toClient y) ∧
      ((∀ v ∈ (sessionMachine n L).visits x calls, ReadInvited v.1 v.2) →
        ∀ y ∈ (sessionMachine n L).states x calls, EofHadRoom y) := by
  have hstart := (roomOk_accepted h).1
  constructor
  · have hinv : ∀ y ∈ (sessionMachine n L).states x calls,
        y.session.Ok ∧ Stream .toClient y := by
      refine (sessionMachine n L).states_invariant ?_ ⟨hstart.ok, .accepted h⟩ calls
      rintro s call t ⟨hok, hs⟩ hstep
      have he := effect_of_handle hok.fresh (sessionMachine_step hstep).2
      exact ⟨ok_effect hok he, hs.effect hok he fun _ _ _ _ _ horderly => by cases horderly⟩
    exact fun y hy => (hinv y hy).2
  · intro hgood
    have hinv : ∀ y ∈ (sessionMachine n L).states x calls, RoomInv y ∧ EofHadRoom y := by
      refine (sessionMachine n L).states_invariant_of_visits ?_
        ⟨hstart, eofHadRoom_accepted h⟩ hgood
      rintro s call t ⟨hroom, hs⟩ hg hstep
      have hcall := (sessionMachine_step hstep).2
      exact ⟨roomInv_handle hroom hcall,
        eofHadRoom_effect hroom hs hg (effect_of_handle hroom.ok.fresh hcall)⟩
    exact fun y hy => (hinv y hy).2

/-- A request, its answer, and the end of the member before the client has
taken the answer. -/
def answerThenClose : List Call :=
  [.read .client 5 (.data [65]) sampleEnv.connect, .write .member 6 (.accept 1),
    .read .member 6 (.data [66, 67, 68]) sampleEnv.connect, .write .client 5 (.accept 1),
    .read .member 6 (.data []) sampleEnv.connect, .write .client 5 (.accept 2)]

/-- The answer is delivered although the member is gone. -/
theorem memberStream_answerThenClose :
    (∀ y ∈ (sessionMachine 1 ℤ).states sampleSession answerThenClose, Stream .toClient y) ∧
      ∀ y ∈ (sessionMachine 1 ℤ).states sampleSession answerThenClose, EofHadRoom y := by
  have h := memberStream_of_mem_states accepted_sampleSession answerThenClose
  exact ⟨h.1, h.2 (by decide +kernel)⟩

/-! ## From client to member -/

/-- The client's end of file is read with room in the buffer, while bytes are
queued for a connected member. -/
def EndsWithQueue (x : Ctx n L) (call : Call) : Prop :=
  ∃ fd env, call = .read .client fd (.data []) env ∧ x.session.clientfd = some fd ∧
    x.sys.isOpen fd = true ∧ x.session.state.memConnected = true ∧
    0 < x.session.clientUsedBuffer ∧ x.session.clientUsedBuffer < messageSizeLimit

/-- A read without bytes, but with room, is an end of file. -/
theorem Sys.read_eq_nil {y : Sys n L} {fd : Fd} {room : ℕ} {r : ReadOutcome} (hroom : 0 < room)
    (h : y.read fd room r = some []) : r = .data [] ∧ y.isOpen fd = true := by
  refine ⟨?_, (Sys.read_eq_some h).1⟩
  cases r with
  | error => cases h
  | data bytes =>
      rw [Sys.read] at h
      split_ifs at h
      rcases List.take_eq_nil_iff.mp (Option.some.inj h) with hz | rfl
      · omega
      · rfl

/-- The bad call discards the queue. -/
theorem not_stream_of_endsWithQueue [LoadArith L] {x : Ctx n L} {call : Call}
    (h : EndsWithQueue x call) :
    ∃ y, (sessionMachine n L).step x call = some y ∧ ¬ Stream .toMember y := by
  obtain ⟨fd, env, rfl, hfd, hopen, hm, hpos, hroom⟩ := h
  have hpossible : Call.Possible x (.read .client fd (.data []) env) := hfd
  refine ⟨deleteSession .clientEof x, ?_, fun hs => ?_⟩
  · show (if _ then _ else _) = _
    rw [if_pos hpossible]
    show clientRead fd (.data []) env x = _
    rw [clientRead, Sys.read, if_pos hopen, List.take_nil]
  · have hsuf : .released .clientEof x.session :: x.history.sinceAllocated <:+
        (deleteSession .clientEof x).history.sinceAllocated := by
      rw [history_deleteSession, History.sinceAllocated_cons, if_neg (by simp [Obs.isAllocated])]
    have hzero := (hs.delivered .clientEof x.session _ hsuf ⟨rfl, hroom, hm⟩).1
    exact absurd hzero (Nat.ne_of_gt hpos)

/-- **Client-to-member integrity, exactly.**  A run keeps the direction from
client to member in order exactly if it never reads the client's end of file
while bytes are queued for a connected member. -/
theorem clientStream_always_iff [LoadArith L] {x : Ctx n L} (h : Accepted x)
    (calls : List Call) :
    (∀ y ∈ (sessionMachine n L).states x calls, Stream .toMember y)
      ↔ ∀ v ∈ (sessionMachine n L).visits x calls, ¬ EndsWithQueue v.1 v.2 := by
  refine (sessionMachine n L).always_iff (fun y => y.session.Ok) (Stream .toMember)
    EndsWithQueue ?_ ?_ ?_ (accepted_ok h) (.accepted h) calls
  · intro s call t hok hstep
    exact ok_handle hok (sessionMachine_step hstep).2
  · intro s call t hok hs hgood hstep
    obtain ⟨hpossible, hcall⟩ := sessionMachine_step hstep
    refine hs.effect hok (effect_of_handle hok.fresh hcall) ?_
    rintro fd r env rfl hr ⟨-, hroom, hm⟩
    -- bytes were queued: this is the bad call
    by_contra hpos
    obtain ⟨rfl, hopen⟩ := Sys.read_eq_nil (Nat.sub_pos_of_lt hroom) hr
    exact hgood ⟨fd, env, rfl, hpossible, hopen, hm, Nat.pos_of_ne_zero hpos, hroom⟩
  · intro s call _ _ hbad
    exact not_stream_of_endsWithQueue hbad

/-- The client closes after its request has been passed on. -/
def patientClient : List Call :=
  [.read .client 5 (.data [65]) sampleEnv.connect, .write .member 6 (.accept 1),
    .read .client 5 (.data []) sampleEnv.connect]

/-- Nothing is lost. -/
theorem clientStream_of_patient_client :
    Accepted sampleSession
      ∧ ∀ y ∈ (sessionMachine 1 ℤ).states sampleSession patientClient, Stream .toMember y := by
  refine ⟨accepted_sampleSession, (clientStream_always_iff accepted_sampleSession _).mpr ?_⟩
  intro v hv hbad
  obtain ⟨fd, env, hcall, -, -, -, hpos, -⟩ := hbad
  have hempty : ∀ v ∈ (sessionMachine 1 ℤ).visits sampleSession patientClient,
      v.1.session.clientUsedBuffer = 0 ∨ v.2.role ≠ .client := by decide +kernel
  rcases hempty v hv with hzero | hrole
  · omega
  · exact hrole (by rw [hcall]; rfl)

/-- The client sends one byte and closes before the member has been written
to. -/
def requestThenClose : List Call :=
  [.read .client 5 (.data [65]) sampleEnv.connect, .read .client 5 (.data []) sampleEnv.connect]

/-- The client has closed while one byte of its request was still to be sent. -/
def Obs.discardsByte : Obs → Bool
  | .released .clientEof s => s.clientUsedBuffer == 1 && s.state.memConnected
  | _ => false

theorem Obs.exists_of_discardsByte {o : Obs} (h : o.discardsByte = true) :
    ∃ s, o = .released .clientEof s ∧ s.clientUsedBuffer = 1 ∧ s.state.memConnected = true := by
  cases o with
  | released reason s =>
      cases reason with
      | clientEof =>
          obtain ⟨hused, hconn⟩ := Bool.and_eq_true_iff.mp h
          exact ⟨s, rfl, beq_iff_eq.mp hused, hconn⟩
      | _ => cases h
  | _ => cases h

/-- The byte is discarded. -/
theorem request_discarded_at_end_of_file :
    Accepted sampleSession
      ∧ ¬ ∀ y ∈ (sessionMachine 1 ℤ).states sampleSession requestThenClose,
        Stream .toMember y := by
  refine ⟨accepted_sampleSession, fun h => ?_⟩
  have hrun : ((sessionMachine 1 ℤ).run sampleSession requestThenClose).any (fun y =>
      y.history.head?.any Obs.discardsByte) = true := by decide +kernel
  obtain ⟨y, hy, hcond⟩ := (Option.any_eq_true _ _).mp hrun
  have hstream := h y ((sessionMachine 1 ℤ).mem_states_of_run hy)
  obtain ⟨o, hhead, hdiscards⟩ := (Option.any_eq_true _ _).mp hcond
  obtain ⟨s, rfl, hused, hconn⟩ := Obs.exists_of_discardsByte hdiscards
  obtain ⟨earlier, heq⟩ := List.head?_eq_some_iff.mp hhead
  have hsuf : .released .clientEof s :: History.sinceAllocated earlier <:+
      y.history.sinceAllocated := by
    rw [heq, History.sinceAllocated_cons, if_neg (by simp [Obs.isAllocated])]
  have hzero := (hstream.delivered .clientEof s _ hsuf ⟨rfl, by rw [hused]; decide, hconn⟩).1
  exact absurd (hused.symm.trans hzero) (by decide)

end OctopusLB
