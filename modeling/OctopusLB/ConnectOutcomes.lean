/-
# How `connect_server` ends

Each half of `connect_server` opens a socket and then makes calls that can end
it: four in the member half, eight in the clone half.

* `leavesNothing_iff`: every socket opened is recorded, registered and counted, and
  a half that fails leaves its fields as they were, exactly if no half is cut
  short after its socket has been opened;
* `cloneHarmless_iff`: -1 means that the member half has failed, and no caller
  tears a session down for its clone, exactly if the clone half does not get as
  far as a `bind` that fails.
-/
import OctopusLB.SessionRun

namespace OctopusLB

variable {n : ℕ} {L : Type}

/-! ## The end of a half -/

/-- The calls that follow `socket` in the member half all succeed. -/
def MemberConnect.completes (env : MemberConnect) : Bool :=
  env.nonblock && env.bind && env.connect && env.epollAdd

/-- The calls that follow `socket` in the clone half all succeed. -/
def CloneConnect.completes (env : CloneConnect) : Bool :=
  env.configured && env.bind && env.connect && env.epollAdd

/-- How a half ends that is needed or not, gets a socket or not and has calls that
all succeed or not; `true` means success. -/
inductive HalfEnds (kind : ServerKind) (slot : ℕ) (needed : Prop) (socket : Option Fd)
    (completes : Bool) (x : Ctx n L) : Ctx n L → Bool → Prop
  | skipped (h : ¬ needed) : HalfEnds kind slot needed socket completes x x true
  | noSocket (h : needed) (hs : socket = none) :
      HalfEnds kind slot needed socket completes x x false
  | leaked (h : needed) (fd : Fd) (hs : socket = some fd) (hc : completes = false) :
      HalfEnds kind slot needed socket completes x (x.updateSys fun y => y.opened fd) false
  | associated (h : needed) (fd : Fd) (hs : socket = some fd) (hc : completes = false) :
      HalfEnds kind slot needed socket completes x
        ((x.updateSys fun y => y.opened fd).associate kind fd slot) false
  | established (h : needed) (fd : Fd) (hs : socket = some fd) (hc : completes = true) :
      HalfEnds kind slot needed socket completes x
        (((x.updateSys fun y => y.opened fd).associate kind fd slot).establish kind fd slot) true

theorem connectMember_ends (env : MemberConnect) (x : Ctx n L) :
    HalfEnds .member (Balancer.memberSlot x.sys.chooser.nextMember) (x.session.memberfd = none)
      (x.sys.newFd env.socket) env.completes x (connectMember env x).1
      (decide ((connectMember env x).2 = 0)) := by
  unfold connectMember MemberConnect.completes
  cases hm : x.session.memberfd with
  | some fd => exact .skipped nofun
  | none =>
      cases hs : x.sys.newFd env.socket with
      | none => exact .noSocket rfl rfl
      | some serverfd =>
          dsimp only
          cases env.nonblock with
          | false => exact .leaked rfl serverfd rfl rfl
          | true =>
              cases env.bind with
              | false => exact .leaked rfl serverfd rfl rfl
              | true =>
                  cases env.connect with
                  | false => exact .leaked rfl serverfd rfl rfl
                  | true =>
                      cases env.epollAdd with
                      | false => exact .associated rfl serverfd rfl rfl
                      | true => exact .established rfl serverfd rfl rfl

theorem connectClone_ends (env : CloneConnect) (x : Ctx n L) :
    HalfEnds .clone (Balancer.cloneSlot x.sys.chooser.nextClone)
      (x.sys.chooser.useClone = true ∧ x.session.clonefd = none) (x.sys.newFd env.socket)
      env.completes x (connectClone env x).1 (decide ((connectClone env x).2 = 0)) := by
  by_cases hneed : x.sys.chooser.useClone = true ∧ x.session.clonefd = none
  · cases hs : x.sys.newFd env.socket with
    | none =>
        rw [connectClone_of_noSocket hneed hs]
        exact .noSocket hneed rfl
    | some clonefd =>
        rw [connectClone_of_socket hneed hs]
        unfold CloneConnect.completes
        cases env.configured with
        | false => exact .leaked hneed clonefd rfl rfl
        | true =>
            cases env.bind with
            | false => exact .leaked hneed clonefd rfl rfl
            | true =>
                cases env.connect with
                | false => exact .leaked hneed clonefd rfl rfl
                | true =>
                    cases env.epollAdd with
                    | false => exact .associated hneed clonefd rfl rfl
                    | true => exact .established hneed clonefd rfl rfl
  · unfold connectClone
    rw [if_neg hneed]
    exact .skipped hneed

/-- What a half keeps of its needs and of what it was needed for. -/
theorem HalfEnds.ok_iff {kind : ServerKind} {slot : ℕ} {needed : Prop} {socket : Option Fd}
    {completes ok : Bool} {x y : Ctx n L}
    (h : HalfEnds kind slot needed socket completes x y ok) :
    ok = true ↔ (needed → socket ≠ none ∧ completes = true) := by
  cases h with
  | skipped hn => exact iff_of_true rfl fun hneed => absurd hneed hn
  | noSocket hn hs => exact iff_of_false nofun fun hall => (hall hn).1 hs
  | leaked hn fd hs hc =>
      refine iff_of_false nofun fun hall => ?_
      rw [(hall hn).2] at hc
      cases hc
  | associated hn fd hs hc =>
      refine iff_of_false nofun fun hall => ?_
      rw [(hall hn).2] at hc
      cases hc
  | established hn fd hs hc =>
      exact iff_of_true rfl fun _ => ⟨by rw [hs]; exact Option.some_ne_none fd, hc⟩

/-! ## Sockets and connections accounted for -/

/-- A socket that was not there before is recorded in the session, with the state
bit of its side set, and registered with epoll. -/
structure RecordedSocket (kind : ServerKind) (fd : Fd) (x y : Ctx n L) : Prop where
  before : x.session.serverfd kind = none
  recorded : y.session.serverfd kind = some fd
  connected : y.session.connected kind = true
  server : (y.session.server kind).isSome = true
  session : y.sys.fds fd = some y.sid
  registered : y.sys.interest fd = some .ro

/-- A connection of one side to the server `p` is new. -/
def NewConnection (kind : ServerKind) (x y : Ctx n L) (p : ℕ) : Prop :=
  x.session.serverfd kind = none ∧ (y.session.serverfd kind).isSome = true ∧
    y.session.server kind = some p

instance (kind : ServerKind) (x y : Ctx n L) (p : ℕ) : Decidable (NewConnection kind x y p) :=
  inferInstanceAs (Decidable (_ = none ∧ _ ∧ _))

/-- How many new connections go to the server `p`. -/
def newConnections (x y : Ctx n L) (p : ℕ) : ℤ :=
  (if NewConnection .member x y p then 1 else 0) + (if NewConnection .clone x y p then 1 else 0)

/-- The connection counter of a server. -/
def Ctx.connections (x : Ctx n L) (p : ℕ) : ℤ := (x.sys.chooser.balancer.servers p).c

/-- From `x` to `y` no socket has been lost and no connection is uncounted. -/
structure Accounted (x y : Ctx n L) : Prop where
  sockets : ∀ fd, x.sys.isOpen fd = false → y.sys.isOpen fd = true →
    ∃ kind, RecordedSocket kind fd x y
  counts : ∀ p, y.connections p = x.connections p + newConnections x y p

theorem Accounted.refl (x : Ctx n L) : Accounted x x where
  sockets fd hclosed hopen := by
    rw [hclosed] at hopen
    cases hopen
  counts p := by
    have hnew : ∀ kind, ¬ NewConnection kind x x p := by
      rintro kind ⟨hnone, hsome, -⟩
      rw [hnone] at hsome
      cases hsome
    unfold newConnections
    rw [if_neg (hnew .member), if_neg (hnew .clone), Int.add_zero, Int.add_zero]

/-- A session with the connection of one side established. -/
def Ctx.connect (kind : ServerKind) (fd : Fd) (slot : ℕ) (x : Ctx n L) : Ctx n L :=
  ((x.updateSys fun y => y.opened fd).associate kind fd slot).establish kind fd slot

section Connect

variable {kind : ServerKind} {fd : Fd} {slot : ℕ} {x : Ctx n L}

theorem serverfd_connect : (x.connect kind fd slot).session.serverfd kind = some fd := by
  cases kind <;> rfl

theorem server_connect : (x.connect kind fd slot).session.server kind = some slot := by
  cases kind <;> rfl

theorem connected_connect : (x.connect kind fd slot).session.connected kind = true := by
  cases kind <;> rfl

/-- The other side is left as it is. -/
theorem other_connect (fd : Fd) (slot : ℕ) (x : Ctx n L) {other : ServerKind} (h : other ≠ kind) :
    (x.connect kind fd slot).session.serverfd other = x.session.serverfd other ∧
      (x.connect kind fd slot).session.server other = x.session.server other ∧
      (x.connect kind fd slot).session.connected other = x.session.connected other := by
  cases kind <;> cases other <;> first | exact absurd rfl h | exact ⟨rfl, rfl, rfl⟩

theorem isOpen_connect (fd' : Fd) :
    (x.connect kind fd slot).sys.isOpen fd' = Function.update x.sys.isOpen fd true fd' := rfl

theorem interest_connect (fd' : Fd) : (x.connect kind fd slot).sys.interest fd'
    = Function.update x.sys.interest fd (some .ro) fd' := rfl

theorem fds_connect (fd' : Fd) :
    (x.connect kind fd slot).sys.fds fd' = Function.update x.sys.fds fd (some x.sid) fd' := rfl

theorem connections_connect (p : ℕ) :
    (x.connect kind fd slot).connections p = x.connections p + if slot = p then 1 else 0 := by
  show (Function.update x.sys.chooser.balancer.servers slot _ p).c = _
  by_cases hp : p = slot
  · rw [hp, Function.update_self, if_pos rfl]
    rfl
  · rw [Function.update_of_ne hp, if_neg (Ne.symm hp), Int.add_zero]
    rfl

/-- A recorded socket stays so while the other side is connected. -/
theorem RecordedSocket.connect {other : ServerKind} {fd' : Fd} {w : Ctx n L}
    (h : RecordedSocket other fd' w x) (hkind : other ≠ kind) (hfd : fd' ≠ fd) :
    RecordedSocket other fd' w (x.connect kind fd slot) := by
  obtain ⟨hserverfd, hserver, hconnected⟩ := other_connect fd slot x hkind
  constructor
  · exact h.before
  · rw [hserverfd, h.recorded]
  · rw [hconnected, h.connected]
  · rw [hserver, h.server]
  · rw [fds_connect, Function.update_of_ne hfd, h.session]
    rfl
  · rw [interest_connect, Function.update_of_ne hfd, h.registered]

/-- **Step.**  Connecting a side that has no connection keeps the account. -/
theorem Accounted.connect {w : Ctx n L} (h : Accounted w x)
    (hw : w.session.serverfd kind = none) (hx : x.session.serverfd kind = none) :
    Accounted w (x.connect kind fd slot) where
  sockets fd' hclosed hopen := by
    by_cases hfd : fd' = fd
    · refine ⟨kind, hw, ?_, connected_connect, ?_, ?_, ?_⟩
      · rw [hfd, serverfd_connect]
      · rw [server_connect]
        rfl
      · rw [fds_connect, hfd, Function.update_self]
        rfl
      · rw [interest_connect, hfd, Function.update_self]
    · rw [isOpen_connect, Function.update_of_ne hfd] at hopen
      obtain ⟨other, hother⟩ := h.sockets fd' hclosed hopen
      have hkind : other ≠ kind := by
        rintro rfl
        exact absurd (hx.symm.trans hother.recorded) nofun
      exact ⟨other, hother.connect hkind hfd⟩
  counts p := by
    have hsame : ∀ other, other ≠ kind →
        (NewConnection other w (x.connect kind fd slot) p ↔ NewConnection other w x p) := by
      intro other hother
      obtain ⟨hserverfd, hserver, -⟩ := other_connect fd slot x hother
      unfold NewConnection
      rw [hserverfd, hserver]
    have hnew : NewConnection kind w (x.connect kind fd slot) p ↔ slot = p := by
      unfold NewConnection
      rw [serverfd_connect, server_connect, Option.some_inj]
      exact ⟨fun hall => hall.2.2, fun hp => ⟨hw, rfl, hp⟩⟩
    have hold : ¬ NewConnection kind w x p := by
      rintro ⟨-, hsome, -⟩
      rw [hx] at hsome
      cases hsome
    rw [connections_connect, h.counts]
    unfold newConnections
    cases kind with
    | member =>
        simp only [hsame .clone nofun, hnew, hold, if_false]
        omega
    | clone =>
        simp only [hsame .member nofun, hnew, hold, if_false]
        omega

end Connect

/-! ## What `connect_server` leaves behind -/

/-- The fields of one side are as they were. -/
structure SideKept (kind : ServerKind) (s s' : Session) : Prop where
  fd : s'.serverfd kind = s.serverfd kind
  server : s'.server kind = s.server kind
  state : s'.state = s.state

/-- The session between the two halves. -/
def afterMember (env : ConnectEnv) (x : Ctx n L) : Ctx n L := (connectMember env.member x).1

/-- The member half has failed. -/
def MemberFails (env : ConnectEnv) (x : Ctx n L) : Prop := (connectMember env.member x).2 = -1

/-- The clone half has been reached and has failed. -/
def CloneFails (env : ConnectEnv) (x : Ctx n L) : Prop :=
  ¬ MemberFails env x ∧ (connectClone env.clone (afterMember env x)).2 ≠ 0

/-- A call of `connect_server` that leaves nothing behind. -/
structure LeavesNothing (env : ConnectEnv) (x : Ctx n L) : Prop where
  accounted : Accounted x (connectServer env x).1
  member : MemberFails env x → SideKept .member x.session (connectServer env x).1.session
  clone : CloneFails env x →
    SideKept .clone (afterMember env x).session (connectServer env x).1.session

/-- The member half has nothing to do, or gets a socket and ends with a
connection. -/
def MemberConnects (env : ConnectEnv) (x : Ctx n L) : Prop :=
  x.session.memberfd = none → x.sys.newFd env.member.socket ≠ none ∧ env.member.completes = true

/-- The socket of the clone half, which is not that of the member half. -/
def cloneSocket (env : ConnectEnv) (x : Ctx n L) : Option Fd :=
  (x.sys.newFd env.clone.socket).filter fun fd =>
    !(x.session.memberfd.isNone && env.member.socket == some fd)

/-- The member half is ended by a call after `socket`. -/
def MemberCutShort (env : ConnectEnv) (x : Ctx n L) : Prop :=
  x.session.memberfd = none ∧ x.sys.newFd env.member.socket ≠ none ∧
    env.member.completes = false

/-- The clone half is reached, is needed and gets a socket. -/
def CloneOpens (env : ConnectEnv) (x : Ctx n L) : Prop :=
  MemberConnects env x ∧ x.sys.chooser.useClone = true ∧ x.session.clonefd = none ∧
    cloneSocket env x ≠ none

/-- The clone half is ended by a call after `socket`. -/
def CloneCutShort (env : ConnectEnv) (x : Ctx n L) : Prop :=
  CloneOpens env x ∧ env.clone.completes = false

theorem connectMember_zero_iff (env : MemberConnect) (x : Ctx n L) :
    (connectMember env x).2 = 0 ↔ ¬ (connectMember env x).2 = -1 := by
  have hcases : (connectMember env x).2 = 0 ∨ (connectMember env x).2 = -1 := by
    unfold connectMember
    cases x.session.memberfd with
    | some fd => exact Or.inl rfl
    | none =>
        cases x.sys.newFd env.socket with
        | none => exact Or.inr rfl
        | some serverfd =>
            dsimp only
            split_ifs <;> first | exact Or.inl rfl | exact Or.inr rfl
  omega

theorem not_memberFails_iff (env : ConnectEnv) (x : Ctx n L) :
    ¬ MemberFails env x ↔ MemberConnects env x := by
  have hends := (connectMember_ends env.member x).ok_iff
  rw [decide_eq_true_iff, connectMember_zero_iff] at hends
  exact hends

/-- The member half that succeeds. -/
theorem afterMember_of_connects {env : ConnectEnv} {x : Ctx n L} (h : MemberConnects env x) :
    (x.session.memberfd ≠ none ∧ afterMember env x = x) ∨
      ∃ fd, x.session.memberfd = none ∧ x.sys.newFd env.member.socket = some fd ∧
        afterMember env x
          = x.connect .member fd (Balancer.memberSlot x.sys.chooser.nextMember) := by
  have hok : decide ((connectMember env.member x).2 = 0) = true :=
    (connectMember_ends env.member x).ok_iff.mpr h
  have hends := connectMember_ends env.member x
  rw [hok] at hends
  unfold afterMember
  generalize (connectMember env.member x).1 = y at hends ⊢
  cases hends with
  | skipped hn => exact Or.inl ⟨hn, rfl⟩
  | established hn fd hs hc => exact Or.inr ⟨fd, hn, hs, rfl⟩

/-- The clone half finds its own fields, the flag and the socket as before the
member half. -/
theorem clone_afterMember {env : ConnectEnv} {x : Ctx n L} (h : MemberConnects env x) :
    (afterMember env x).session.clonefd = x.session.clonefd ∧
      (afterMember env x).sys.chooser.useClone = x.sys.chooser.useClone ∧
      (afterMember env x).sys.newFd env.clone.socket = cloneSocket env x := by
  rcases afterMember_of_connects h with ⟨hm, hx⟩ | ⟨fd, hm, hs, hx⟩
  · rw [hx]
    refine ⟨rfl, rfl, ?_⟩
    unfold cloneSocket
    rw [Option.isNone_eq_false_iff.mpr (Option.isSome_iff_ne_none.mpr hm)]
    cases x.sys.newFd env.clone.socket <;> rfl
  · rw [hx]
    refine ⟨rfl, rfl, ?_⟩
    have hsocket : env.member.socket = some fd := (Option.filter_eq_some_iff.mp hs).1
    unfold cloneSocket Sys.newFd
    rw [hm, hsocket, Option.filter_filter]
    refine congrArg (Option.filter · env.clone.socket) (funext fun clonefd => ?_)
    rw [isOpen_connect]
    by_cases hfd : clonefd = fd
    · rw [hfd, Function.update_self]
      simp
    · rw [Function.update_of_ne hfd]
      simp [Ne.symm hfd]

theorem not_cloneFails_iff {env : ConnectEnv} {x : Ctx n L} (h : MemberConnects env x) :
    ¬ CloneFails env x ↔ (x.sys.chooser.useClone = true → x.session.clonefd = none →
      cloneSocket env x ≠ none ∧ env.clone.completes = true) := by
  have hends := (connectClone_ends env.clone (afterMember env x)).ok_iff
  obtain ⟨hfd, huse, hsocket⟩ := clone_afterMember h
  rw [decide_eq_true_iff, hfd, huse, hsocket, and_imp] at hends
  unfold CloneFails
  rw [not_and_not_right, imp_iff_right ((not_memberFails_iff env x).mpr h)]
  exact hends

theorem connectServer_of_memberFails {env : ConnectEnv} {x : Ctx n L} (h : MemberFails env x) :
    connectServer env x = connectMember env.member x := if_pos h

theorem connectServer_of_connects {env : ConnectEnv} {x : Ctx n L} (h : MemberConnects env x) :
    connectServer env x = connectClone env.clone (afterMember env x) :=
  if_neg ((not_memberFails_iff env x).mpr h)

/-- A half cut short leaves a socket that is not recorded, or fields that name
it. -/
theorem HalfEnds.left {kind : ServerKind} {slot : ℕ} {needed : Prop} {socket : Option Fd}
    {x y : Ctx n L} (h : HalfEnds kind slot needed socket false x y false) (hs : socket ≠ none) :
    ∃ fd, socket = some fd ∧ y.sys.isOpen fd = true ∧ (y.session = x.session ∨
      y.session.serverfd kind = some fd) := by
  cases h with
  | noSocket hn hnone => exact absurd hnone hs
  | leaked hn fd hsome hc => exact ⟨fd, hsome, Function.update_self _ _ _, Or.inl rfl⟩
  | associated hn fd hsome hc =>
      refine ⟨fd, hsome, Function.update_self _ _ _, Or.inr ?_⟩
      cases kind <;> rfl

/-- A half that is not cut short and fails has done nothing. -/
theorem HalfEnds.eq_of_clean {kind : ServerKind} {slot : ℕ} {needed : Prop} {socket : Option Fd}
    {completes : Bool} {x y : Ctx n L} (h : HalfEnds kind slot needed socket completes x y false)
    (hclean : needed → socket ≠ none → completes = true) : y = x := by
  cases h with
  | noSocket hn hnone => rfl
  | leaked hn fd hsome hc =>
      rw [hclean hn (by rw [hsome]; nofun)] at hc
      cases hc
  | associated hn fd hsome hc =>
      rw [hclean hn (by rw [hsome]; nofun)] at hc
      cases hc

theorem accounted_afterMember {env : ConnectEnv} {x : Ctx n L} (h : MemberConnects env x) :
    Accounted x (afterMember env x) := by
  rcases afterMember_of_connects h with ⟨hm, hx⟩ | ⟨fd, hm, hs, hx⟩
  · rw [hx]
    exact .refl x
  · rw [hx]
    exact (Accounted.refl x).connect hm hm

theorem connectMember_ends_of_fails {env : ConnectEnv} {x : Ctx n L} (h : MemberFails env x) :
    HalfEnds .member (Balancer.memberSlot x.sys.chooser.nextMember) (x.session.memberfd = none)
      (x.sys.newFd env.member.socket) env.member.completes x (connectServer env x).1 false := by
  have hends := connectMember_ends env.member x
  rw [decide_eq_false (mt (connectMember_zero_iff _ _).mp (not_not.mpr h))] at hends
  rw [connectServer_of_memberFails h]
  exact hends

theorem connectClone_ends_of_connects {env : ConnectEnv} {x : Ctx n L} (h : MemberConnects env x) :
    ∃ ok, (ok = false ↔ CloneFails env x) ∧
      HalfEnds .clone (Balancer.cloneSlot (afterMember env x).sys.chooser.nextClone)
        (x.sys.chooser.useClone = true ∧ x.session.clonefd = none) (cloneSocket env x)
        env.clone.completes (afterMember env x) (connectServer env x).1 ok := by
  have hends := connectClone_ends env.clone (afterMember env x)
  obtain ⟨hfd, huse, hsocket⟩ := clone_afterMember h
  rw [hfd, huse, hsocket] at hends
  rw [connectServer_of_connects h]
  refine ⟨_, ?_, hends⟩
  rw [decide_eq_false_iff_not]
  exact (and_iff_right ((not_memberFails_iff env x).mpr h)).symm

/-- A member half cut short leaves something behind. -/
theorem not_leavesNothing_of_member {env : ConnectEnv} {x : Ctx n L} (h : MemberCutShort env x) :
    ¬ LeavesNothing env x := by
  obtain ⟨hneed, hsocket, hcut⟩ := h
  have hfails : MemberFails env x := by
    by_contra hnot
    rw [((not_memberFails_iff env x).mp hnot hneed).2] at hcut
    cases hcut
  intro hleaves
  have hends := connectMember_ends_of_fails hfails
  rw [hcut] at hends
  obtain ⟨fd, hfd, hopen, hsession | hserverfd⟩ := hends.left hsocket
  · -- the socket is open and the session does not know of it
    obtain ⟨kind, hrecord⟩ := hleaves.accounted.sockets fd (Sys.isOpen_of_newFd hfd) hopen
    have hrecorded := hrecord.recorded
    rw [hsession, hrecord.before] at hrecorded
    cases hrecorded
  · have hsame := (hleaves.member hfails).fd
    rw [hserverfd] at hsame
    exact absurd (hsame.trans hneed) nofun

/-- So does a clone half. -/
theorem not_leavesNothing_of_clone {env : ConnectEnv} {x : Ctx n L} (h : CloneCutShort env x) :
    ¬ LeavesNothing env x := by
  obtain ⟨⟨hm, huse, hneed, hsocket⟩, hcut⟩ := h
  have hfails : CloneFails env x := by
    by_contra hnot
    rw [((not_cloneFails_iff hm).mp hnot huse hneed).2] at hcut
    cases hcut
  intro hleaves
  obtain ⟨ok, hok, hends⟩ := connectClone_ends_of_connects hm
  rw [hcut, hok.mpr hfails] at hends
  obtain ⟨fd, hfd, hopen, hsession | hserverfd⟩ := hends.left hsocket
  · have hclosed := Sys.isOpen_of_newFd (Option.filter_eq_some_iff.mp hfd).1
    obtain ⟨kind, hrecord⟩ := hleaves.accounted.sockets fd hclosed hopen
    have hrecorded := hrecord.recorded
    rw [hsession] at hrecorded
    rcases afterMember_of_connects hm with ⟨-, hx⟩ | ⟨memberfd, -, hs, hx⟩
    · rw [hx, hrecord.before] at hrecorded
      cases hrecorded
    · rw [hx] at hrecorded
      have hbefore := hrecord.before
      cases kind with
      | member =>
          -- that socket is the member's own
          rw [serverfd_connect, Option.some_inj] at hrecorded
          obtain ⟨-, hother⟩ := Option.filter_eq_some_iff.mp hfd
          have hmember : env.member.socket = some fd := by
            rw [(Option.filter_eq_some_iff.mp hs).1, hrecorded]
          have hnone : x.session.memberfd = none := hbefore
          rw [hnone, hmember] at hother
          simp at hother
      | clone =>
          have hother := other_connect memberfd (Balancer.memberSlot x.sys.chooser.nextMember) x
            (by decide : ServerKind.clone ≠ .member)
          rw [hother.1, hbefore] at hrecorded
          cases hrecorded
  · have hsame := (hleaves.clone hfails).fd
    have hclonefd : (afterMember env x).session.serverfd .clone = none :=
      (clone_afterMember hm).1.trans hneed
    rw [hserverfd, hclonefd] at hsame
    cases hsame

/-- **Nothing left behind.**  A call accounts for all its sockets and restores the
fields of a failing half exactly if neither half is ended by a call after
`socket`. -/
theorem leavesNothing_iff (env : ConnectEnv) (x : Ctx n L) :
    LeavesNothing env x ↔ ¬ MemberCutShort env x ∧ ¬ CloneCutShort env x := by
  constructor
  · intro h
    exact ⟨fun hcut => not_leavesNothing_of_member hcut h,
      fun hcut => not_leavesNothing_of_clone hcut h⟩
  rintro ⟨hmember, hclone⟩
  by_cases hfails : MemberFails env x
  · -- no socket for the member
    have hx := (connectMember_ends_of_fails hfails).eq_of_clean fun hneed hsocket =>
      Bool.not_eq_false _ ▸ fun hcut => hmember ⟨hneed, hsocket, hcut⟩
    constructor
    · rw [hx]
      exact .refl x
    · rw [hx]
      exact fun _ => ⟨rfl, rfl, rfl⟩
    · exact fun hcf => absurd hfails hcf.1
  have hm := (not_memberFails_iff env x).mp hfails
  have haccount := accounted_afterMember hm
  obtain ⟨ok, hok, hends⟩ := connectClone_ends_of_connects hm
  have hclean : x.sys.chooser.useClone = true ∧ x.session.clonefd = none →
      cloneSocket env x ≠ none → env.clone.completes = true := fun hneed hsocket =>
    Bool.not_eq_false _ ▸ fun hcut => hclone ⟨⟨hm, hneed.1, hneed.2, hsocket⟩, hcut⟩
  refine ⟨?_, fun h => absurd h hfails, fun hcf => ?_⟩
  · generalize (connectServer env x).1 = y at hends ⊢
    cases ok with
    | false =>
        rw [hends.eq_of_clean hclean]
        exact haccount
    | true =>
        cases hends with
        | skipped hneed => exact haccount
        | established hneed fd hs hc =>
            exact haccount.connect hneed.2 ((clone_afterMember hm).1.trans hneed.2)
  · rw [hok.mpr hcf] at hends
    rw [hends.eq_of_clean hclean]
    exact ⟨rfl, rfl, rfl⟩

/-- The member refuses the connection. -/
def refusedEnv : ConnectEnv :=
  { sampleEnv.connect with member := { sampleEnv.connect.member with connect := false } }

/-- The socket for a member that refuses stays open, and nothing knows of it. -/
theorem refused_socket_stays : ¬ LeavesNothing refusedEnv sampleIdle ∧
    (connectServer refusedEnv sampleIdle).2 = -1 ∧
    (connectServer refusedEnv sampleIdle).1.sys.isOpen 6 = true ∧
    (connectServer refusedEnv sampleIdle).1.session.memberfd = none :=
  ⟨not_leavesNothing_of_member ⟨rfl, by decide, rfl⟩, by decide, by decide, rfl⟩

/-! ## What the callers make of it -/

/-- The latest thing that happened is that the session was torn down for want of a
server. -/
def TornDown (y : Ctx n L) : Prop := ∃ s, y.history.head? = some (.released .noServer s)

/-- `choose_server` has chosen and calls `connect_server` in the state `x`. -/
def Reaches [LoadArith L] (w x : Ctx n L) : Prop :=
  ∃ chooser, chooseCandidate w.session.clientReadBuffer.cells w.sys.chooser = some (chooser, 0) ∧
    x = w.updateSys fun y => { y with chooser := chooser }

/-- A new client, registered. -/
def acceptedClient (fd : Fd) (w : Ctx n L) : Ctx n L :=
  (w.handOut fd).updateSys fun y => y.register fd

/-- A call of `connect_server` whose clone costs the client nothing. -/
structure CloneHarmless [LoadArith L] (env : ConnectEnv) (x : Ctx n L) : Prop where
  minusOne : (connectServer env x).2 = -1 ↔ MemberFails env x
  one : CloneFails env x → (connectServer env x).2 = 1
  accept : ∀ {fd : Fd} {a : AcceptEnv} {w y : Ctx n L}, a.connect = env →
    Reaches (acceptedClient fd w) x → acceptClient fd a w = some y → ¬ MemberFails env x →
    ¬ TornDown y
  read : ∀ {fd : Fd} {r : ReadOutcome} {bytes : List UInt8} {w y : Ctx n L},
    w.sys.read fd (messageSizeLimit - w.session.clientUsedBuffer) r = some bytes → bytes ≠ [] →
    Reaches (receiveFromClient bytes w) x → clientRead fd r env w = some y →
    ¬ MemberFails env x → ¬ TornDown y

/-- The clone half gets its socket, configures it and cannot bind it. -/
def CloneBindFails (env : ConnectEnv) (x : Ctx n L) : Prop :=
  CloneOpens env x ∧ env.clone.configured = true ∧ env.clone.bind = false

/-- What the clone half returns. -/
theorem connectClone_result (env : CloneConnect) (x : Ctx n L) :
    (connectClone env x).2 = 0 ∨ (connectClone env x).2 = 1 ∨ (connectClone env x).2 = -1 := by
  by_cases hneed : x.sys.chooser.useClone = true ∧ x.session.clonefd = none
  · cases hs : x.sys.newFd env.socket with
    | none =>
        rw [connectClone_of_noSocket hneed hs]
        exact Or.inr (Or.inl rfl)
    | some clonefd =>
        rw [connectClone_of_socket hneed hs]
        dsimp only
        split_ifs <;>
          first | exact Or.inl rfl | exact Or.inr (Or.inl rfl) | exact Or.inr (Or.inr rfl)
  · unfold connectClone
    rw [if_neg hneed]
    exact Or.inl rfl

/-- It returns -1 exactly if `bind` fails. -/
theorem connectClone_minusOne_iff (env : CloneConnect) (x : Ctx n L) :
    (connectClone env x).2 = -1 ↔ (x.sys.chooser.useClone = true ∧ x.session.clonefd = none) ∧
      x.sys.newFd env.socket ≠ none ∧ env.configured = true ∧ env.bind = false := by
  by_cases hneed : x.sys.chooser.useClone = true ∧ x.session.clonefd = none
  · cases hs : x.sys.newFd env.socket with
    | none =>
        rw [connectClone_of_noSocket hneed hs]
        exact iff_of_false nofun fun h => h.2.1 rfl
    | some clonefd =>
        rw [connectClone_of_socket hneed hs]
        cases env.configured with
        | false => exact iff_of_false nofun fun h => absurd h.2.2.1 nofun
        | true =>
            cases env.bind with
            | false => exact iff_of_true rfl ⟨hneed, nofun, rfl, rfl⟩
            | true =>
                refine iff_of_false ?_ fun h => absurd h.2.2.2 nofun
                cases env.connect <;> cases env.epollAdd <;> nofun
  · unfold connectClone
    rw [if_neg hneed]
    exact iff_of_false nofun fun h => hneed h.1

/-- **The one result.**  With a member, -1 comes from the `bind` of the clone half. -/
theorem connectServer_minusOne_iff (env : ConnectEnv) (x : Ctx n L) :
    (connectServer env x).2 = -1 ↔ MemberFails env x ∨ CloneBindFails env x := by
  by_cases hfails : MemberFails env x
  · rw [connectServer_of_memberFails hfails]
    exact iff_of_true hfails (Or.inl hfails)
  · have hm := (not_memberFails_iff env x).mp hfails
    obtain ⟨hfd, huse, hsocket⟩ := clone_afterMember hm
    rw [connectServer_of_connects hm, connectClone_minusOne_iff, hfd, huse, hsocket]
    unfold CloneBindFails CloneOpens
    rw [or_iff_right hfails]
    constructor
    · rintro ⟨⟨huse, hneed⟩, hsocket, hcalls⟩
      exact ⟨⟨hm, huse, hneed, hsocket⟩, hcalls⟩
    · rintro ⟨⟨-, huse, hneed, hsocket⟩, hcalls⟩
      exact ⟨⟨huse, hneed⟩, hsocket, hcalls⟩

/-- `choose_server` from the state in which it connects. -/
theorem chooseServer_of_reaches [LoadArith L] (env : ConnectEnv) {w x : Ctx n L}
    (h : Reaches w x) : chooseServer env w
      = some ((connectServer env x).1.observe (.chose (connectServer env x).2),
        (connectServer env x).2) := by
  obtain ⟨chooser, hchoose, rfl⟩ := h
  unfold chooseServer
  rw [hchoose]
  rfl

/-- **A clone is harmless** to its client exactly if the clone half does not reach a
`bind` that fails. -/
theorem cloneHarmless_iff [LoadArith L] (env : ConnectEnv) (x : Ctx n L) :
    CloneHarmless env x ↔ ¬ CloneBindFails env x := by
  constructor
  · rintro h hbind
    have hm := (not_memberFails_iff env x).mpr hbind.1.1
    exact hm (h.minusOne.mp ((connectServer_minusOne_iff env x).mpr (Or.inr hbind)))
  intro hbind
  have hresult : (connectServer env x).2 = -1 ↔ MemberFails env x := by
    rw [connectServer_minusOne_iff, or_iff_left hbind]
  constructor
  · exact hresult
  · intro hfails
    have hm := (not_memberFails_iff env x).mp hfails.1
    have hnot := mt hresult.mp hfails.1
    have hzero := hfails.2
    rw [connectServer_of_connects hm] at hnot ⊢
    rcases connectClone_result env.clone (afterMember env x) with h | h | h
    · exact absurd h hzero
    · exact h
    · exact absurd h hnot
  · rintro fd a w y rfl hreach hy hm ⟨s, hs⟩
    unfold acceptClient at hy
    dsimp only at hy
    split_ifs at hy with hadd halg
    · obtain rfl := Option.some.inj hy
      rw [history_deleteSession] at hs
      exact absurd (Option.some.inj hs) nofun
    · have hchoose := chooseServer_of_reaches a.connect hreach
      unfold acceptedClient at hchoose
      rw [hchoose, Option.map_some, if_neg (mt hresult.mp hm)] at hy
      obtain rfl := Option.some.inj hy
      exact absurd (Option.some.inj hs) nofun
    · obtain rfl := Option.some.inj hy
      exact absurd (Option.some.inj hs) nofun
  · rintro fd r bytes w y hr hne hreach hy hm ⟨s, hs⟩
    unfold clientRead at hy
    obtain ⟨b, bs, rfl⟩ := List.exists_cons_of_ne_nil hne
    rw [hr] at hy
    dsimp only at hy
    split_ifs at hy with hfresh
    · rw [chooseServer_of_reaches _ hreach, Option.map_some, if_neg (mt hresult.mp hm)] at hy
      obtain rfl := Option.some.inj hy
      rw [history_forwardClientRead] at hs
      exact absurd (Option.some.inj hs) nofun
    · obtain rfl := Option.some.inj hy
      rw [history_forwardClientRead] at hs
      exact absurd (Option.some.inj hs) nofun

/-- The clone cannot be bound to its outbound address. -/
def unboundEnv : AcceptEnv :=
  { sampleEnv with
    connect := { sampleEnv.connect with clone := { sampleEnv.connect.clone with bind := false } } }

/-- A new client for which both servers have been chosen. -/
def chosenClient : Ctx 1 ℤ :=
  (acceptedClient 5 (sampleIdle.updateSys fun y => y.opened 5)).updateSys fun y =>
    { y with chooser := ((chooseCandidate [] pairChooser).get (by decide)).1 }

/-- The member has been connected, and the client loses it for the clone. -/
theorem unbound_clone_costs_session : ¬ CloneHarmless unboundEnv.connect chosenClient ∧
    (connectMember unboundEnv.connect.member chosenClient).2 = 0 ∧
    (connectServer unboundEnv.connect chosenClient).2 = -1 ∧
    ∃ y, acceptClient 5 unboundEnv (sampleIdle.updateSys fun y => y.opened 5) = some y ∧
      TornDown y := by
  have hmember : ¬ MemberFails unboundEnv.connect chosenClient := by
    unfold MemberFails
    decide
  have hserver : (connectServer unboundEnv.connect chosenClient).2 = -1 := by decide
  exact ⟨fun h => hmember (h.minusOne.mp hserver), by decide, hserver, _, rfl, _, rfl⟩

end OctopusLB
