/-
# Who is connected to which server

A session holds the server in a slot while it is connected to it.  For each move
of a session `Booked` balances the books of one slot: its connection count
changes with the session's connections, and its count of completed connections
grows by one whenever the session lets go of it.

`booked_moves` carries the balance from one move to a whole event, as long as
nothing is given up that is not connected.
-/
import OctopusLB.Moves
import OctopusLB.SelectionFacts

namespace OctopusLB

variable {n : ℕ} {L : Type}

/-! ## Holding a server -/

namespace Session

/-- The session is connected to the server in slot `p`. -/
def Holds (kind : ServerKind) (p : ℕ) (s : Session) : Prop :=
  s.connected kind = true ∧ s.server kind = some p

instance (kind : ServerKind) (p : ℕ) (s : Session) : Decidable (s.Holds kind p) := by
  unfold Holds
  infer_instance

/-- How many connections the session has to the server in slot `p`. -/
def held (p : ℕ) (s : Session) : ℕ :=
  (if s.Holds .member p then 1 else 0) + if s.Holds .clone p then 1 else 0

variable {s s' : Session} {p : ℕ}

theorem held_congr (h : ∀ kind, s'.Holds kind p ↔ s.Holds kind p) : s'.held p = s.held p := by
  unfold held
  rw [if_congr (h .member) rfl rfl, if_congr (h .clone) rfl rfl]

/-- Only one side of a session changes. -/
theorem held_add {kind : ServerKind} (h : ∀ kind', kind' ≠ kind →
    (s'.Holds kind' p ↔ s.Holds kind' p)) :
    s'.held p + (if s.Holds kind p then 1 else 0)
      = s.held p + if s'.Holds kind p then 1 else 0 := by
  unfold held
  cases kind with
  | member =>
      rw [if_congr (h .clone nofun) rfl rfl]
      omega
  | clone =>
      rw [if_congr (h .member nofun) rfl rfl]
      omega

theorem held_pos {kind : ServerKind} (h : s.Holds kind p) : 0 < s.held p := by
  unfold held
  cases kind with
  | member => rw [if_pos h]; omega
  | clone => rw [if_pos h]; omega

theorem holds_of_held_ne_zero (h : s.held p ≠ 0) : ∃ kind, s.Holds kind p := by
  by_contra hnone
  refine h ?_
  unfold held
  rw [if_neg fun hm => hnone ⟨.member, hm⟩, if_neg fun hc => hnone ⟨.clone, hc⟩]

/-- A session without a connection holds nothing. -/
theorem held_eq_zero (h : ∀ kind, s.connected kind = false) : s.held p = 0 := by
  by_contra hne
  obtain ⟨kind, hc, -⟩ := holds_of_held_ne_zero hne
  exact absurd (hc.symm.trans (h kind)) nofun

theorem holds_of_sameSide {kind : ServerKind} (h : SameSide kind s s') :
    s'.Holds kind p ↔ s.Holds kind p := by
  unfold Holds
  rw [h.connected, h.server]

end Session

/-- The entry is a connection to the server in slot `p`. -/
def Obs.connectsTo (p : ℕ) : Obs → Bool
  | .connected _ q => decide (q = p)
  | _ => false

/-- How often the session has been connected to the server in slot `p`. -/
def History.connects (p : ℕ) (h : History) : ℕ := h.countP (Obs.connectsTo p)

theorem History.connects_cons (p : ℕ) (o : Obs) (h : History) :
    History.connects p (o :: h) = History.connects p h + if o.connectsTo p then 1 else 0 :=
  List.countP_cons

theorem History.connects_append {h h' : History} (p : ℕ)
    (hnone : ∀ o ∈ h', o.connectsTo p = false) :
    History.connects p (h' ++ h) = History.connects p h := by
  unfold History.connects
  rw [List.countP_append, List.countP_eq_zero.mpr, Nat.zero_add]
  intro o ho
  rw [hnone o ho]
  nofun

/-- The server in slot `p`. -/
def Ctx.serverAt (x : Ctx n L) (p : ℕ) : Server L := x.sys.chooser.balancer.servers p

/-- Traffic changes no other field. -/
theorem SameButTraffic.field {c c' : Chooser L} (h : SameButTraffic c c') {α : Type*}
    (g : Server L → α) (hg : ∀ s b r, g { s with bsent := b, brecv := r } = g s) (p : ℕ) :
    g (c'.balancer.servers p) = g (c.balancer.servers p) := by
  rw [h.servers p]
  exact hg _ _ _

/-! ## The books of one slot -/

/-- From `x` to `y` the session has let go of the server in slot `p` exactly `k`
times, each connection is in its count, and each that has ended is in the count
of completed ones. -/
structure Booked (p k : ℕ) (x y : Ctx n L) : Prop where
  c : (y.serverAt p).c + x.session.held p = (x.serverAt p).c + y.session.held p
  completed : (y.serverAt p).completedC = (x.serverAt p).completedC + UInt64.ofNat k
  connects : x.session.held p + y.history.connects p
    = y.session.held p + k + x.history.connects p

namespace Booked

variable {p k k' : ℕ} {x y z : Ctx n L}

/-- The session keeps its servers. -/
theorem of_same (hserver : (y.serverAt p).c = (x.serverAt p).c ∧
      (y.serverAt p).completedC = (x.serverAt p).completedC)
    (hheld : y.session.held p = x.session.held p)
    (hhistory : y.history.connects p = x.history.connects p) : Booked p 0 x y where
  c := by rw [hserver.1, hheld]
  completed := hserver.2.trans (UInt64.add_zero _).symm
  connects := by omega

theorem refl (p : ℕ) (x : Ctx n L) : Booked p 0 x x := of_same ⟨rfl, rfl⟩ rfl rfl

theorem trans (h : Booked p k x y) (h' : Booked p k' y z) : Booked p (k + k') x z where
  c := by
    have hxy := h.c
    have hyz := h'.c
    omega
  completed := by rw [h'.completed, h.completed, UInt64.ofNat_add, UInt64.add_assoc]
  connects := by
    have hxy := h.connects
    have hyz := h'.connects
    omega

end Booked

section Moves

variable {loose : ServerKind → Prop} {slots : ServerKind → ℕ → Prop} {x y : Ctx n L} {p : ℕ}

/-- What giving up a server does to the slots. -/
theorem serverAt_disconnectServer {kind : ServerKind} {fd : Fd}
    (hfd : x.session.serverfd kind = some fd) (p : ℕ) :
    (disconnectServer kind x).serverAt p = if x.session.server kind = some p then
      { x.serverAt p with
        c := (x.serverAt p).c - 1, completedC := (x.serverAt p).completedC + 1 }
      else x.serverAt p := by
  unfold disconnectServer
  rw [hfd]
  exact Sys.servers_modifyServer ..

/-- **Giving up a connection** books it as completed. -/
theorem booked_disconnectServer (hok : x.session.Ok) {kind : ServerKind}
    (hc : x.session.connected kind = true) (p : ℕ) :
    ∃ k, Booked p k x (disconnectServer kind x) := by
  obtain ⟨fd, hfd⟩ := Option.ne_none_iff_exists'.mp (hok.connected_fd kind hc)
  have hserver := serverAt_disconnectServer hfd p
  have hsession : (disconnectServer kind x).session = x.session.clearServer kind := by
    rw [session_disconnectServer, hfd, Option.isSome_some, if_pos rfl]
  have hadd : (disconnectServer kind x).session.held p + (if x.session.Holds kind p then 1 else 0)
      = x.session.held p + if (disconnectServer kind x).session.Holds kind p then 1 else 0 :=
    Session.held_add fun kind' hne => by
      rw [hsession]
      exact Session.holds_of_sameSide (sameSide_clearServer hne _)
  -- the session lets go of the slot that its pointer names, and of no other
  have hafter : ¬ (disconnectServer kind x).session.Holds kind p := by
    rw [hsession]
    rintro ⟨h, -⟩
    cases kind <;> cases h
  have hhistory : (disconnectServer kind x).history.connects p = x.history.connects p := by
    rw [history_disconnectServer]
  rw [if_neg hafter] at hadd
  -- only the slot that the pointer names is written
  by_cases hp : x.session.server kind = some p
  · rw [if_pos ⟨hc, hp⟩] at hadd
    rw [if_pos hp] at hserver
    refine ⟨1, ?_, ?_, ?_⟩
    · rw [hserver]
      show (x.serverAt p).c - 1 + _ = _
      omega
    · rw [hserver]
      rfl
    · omega
  · rw [if_neg fun h => hp h.2] at hadd
    rw [if_neg hp] at hserver
    exact ⟨0, .of_same (by rw [hserver]; exact ⟨rfl, rfl⟩) hadd hhistory⟩

theorem Obs.connectsTo_of_isTraffic {o : Obs} (h : o.isTraffic = true) (p : ℕ) :
    o.connectsTo p = false := by
  cases o <;> first | rfl | cases h

/-- A side that has no descriptor is not connected. -/
theorem Session.Ok.not_connected {s : Session} (hok : s.Ok) {kind : ServerKind}
    (h : s.serverfd kind = none) : s.connected kind = false :=
  Bool.eq_false_of_not_eq_true fun hc => hok.connected_fd kind hc h

/-- **Establishing a connection** counts it. -/
theorem booked_establish {kind : ServerKind} {slot : ℕ} (fd : Fd)
    (hserver : x.session.server kind = some slot) (hnot : x.session.connected kind = false)
    (p : ℕ) : Booked p 0 x (x.establish kind fd slot) := by
  have hat : (x.establish kind fd slot).serverAt p
      = if some slot = some p then { x.serverAt p with c := (x.serverAt p).c + 1 }
        else x.serverAt p :=
    Sys.servers_modifyServer (x.sys.register fd) (some slot) _ p
  have hadd : (x.establish kind fd slot).session.held p
      + (if x.session.Holds kind p then 1 else 0)
        = x.session.held p + if (x.establish kind fd slot).session.Holds kind p then 1 else 0 :=
    Session.held_add fun kind' hne => Session.holds_of_sameSide (sameSide_setConnected hne _)
  -- the side was not connected, so the session gains one connection
  have hbefore : ¬ x.session.Holds kind p := fun h => absurd (hnot.symm.trans h.1) nofun
  have hiff : (x.establish kind fd slot).session.Holds kind p ↔ slot = p := by
    have hkeep : (x.establish kind fd slot).session.server kind = some slot := by
      rw [← hserver]
      cases kind <;> rfl
    have hset : (x.establish kind fd slot).session.connected kind = true := by
      cases kind <;> rfl
    unfold Session.Holds
    rw [hkeep, hset, Option.some_inj]
    exact and_iff_right rfl
  have hhistory : (x.establish kind fd slot).history.connects p
      = x.history.connects p + if slot = p then 1 else 0 := by
    refine (History.connects_cons p (.connected kind.role slot) x.history).trans ?_
    simp [Obs.connectsTo]
  rw [if_neg hbefore, if_congr hiff rfl rfl] at hadd
  by_cases hp : slot = p
  · rw [if_pos hp] at hadd hhistory
    rw [if_pos (congrArg some hp)] at hat
    refine ⟨?_, ?_, ?_⟩
    · rw [hat]
      show (x.serverAt p).c + 1 + _ = _
      omega
    · rw [hat]
      exact (UInt64.add_zero _).symm
    · omega
  · rw [if_neg hp] at hadd hhistory
    rw [if_neg fun h => hp (Option.some.inj h)] at hat
    exact .of_same (by rw [hat]; exact ⟨rfl, rfl⟩) hadd hhistory

/-- The session keeps its servers, and no connection is opened or ended. -/
structure SameBooks (x y : Ctx n L) : Prop where
  holds : ∀ kind p, y.session.Holds kind p ↔ x.session.Holds kind p
  connected : ∀ kind, y.session.connected kind = x.session.connected kind
  servers : ∀ p, (y.serverAt p).c = (x.serverAt p).c ∧
    (y.serverAt p).completedC = (x.serverAt p).completedC
  connects : ∀ p, y.history.connects p = x.history.connects p

/-- A change that touches neither the links of the session nor the counts. -/
theorem SameBooks.of_links (hserver : ∀ kind, y.session.server kind = x.session.server kind)
    (hconnected : ∀ kind, y.session.connected kind = x.session.connected kind)
    (hservers : ∀ p, (y.serverAt p).c = (x.serverAt p).c ∧
      (y.serverAt p).completedC = (x.serverAt p).completedC)
    (hhistory : ∀ p, y.history.connects p = x.history.connects p) : SameBooks x y := by
  refine ⟨fun kind p => ?_, hconnected, hservers, hhistory⟩
  unfold Session.Holds
  rw [hserver, hconnected]

variable [LoadArith L]

/-- **Inversion for connections.**  A move keeps the books as they are, gives up a
server, or establishes a connection. -/
theorem move_cases (hok : x.session.Ok) (h : Move loose slots x y) :
    SameBooks x y ∨
      (∃ kind, (x.session.connected kind = true ∨ loose kind) ∧ y = disconnectServer kind x) ∨
      ∃ kind fd slot, x.session.server kind = some slot ∧ x.session.connected kind = false ∧
        slots kind slot ∧ y = x.establish kind fd slot := by
  cases h with
  | quiet hq =>
      refine Or.inl (.of_links hq.links.server hq.links.connected (fun p => ⟨?_, ?_⟩) fun p => ?_)
      · exact hq.chooser.field Server.c (fun _ _ _ => rfl) p
      · exact hq.chooser.field Server.completedC (fun _ _ _ => rfl) p
      · obtain ⟨hs, heq, htraffic⟩ := hq.history
        rw [heq]
        exact History.connects_append p fun o ho => Obs.connectsTo_of_isTraffic (htraffic o ho) p
  | dropClient =>
      have hchooser : (disconnectClient x).sys.chooser = x.sys.chooser := by
        unfold disconnectClient
        cases x.session.clientfd <;> rfl
      refine Or.inl (.of_links (fun kind => ?_) (fun kind => ?_) (fun p => ?_) fun p => ?_)
      · rw [session_disconnectClient]
        split_ifs <;> cases kind <;> rfl
      · rw [session_disconnectClient]
        split_ifs <;> cases kind <;> rfl
      · unfold Ctx.serverAt
        rw [hchooser]
        exact ⟨rfl, rfl⟩
      · rw [history_disconnectClient]
  | dropServer kind hc => exact Or.inr (Or.inl ⟨kind, hc, rfl⟩)
  | release reason before hclient hservers =>
      have hreset : ∀ kind, x.session.reset.connected kind = x.session.connected kind := by
        intro kind
        rw [hservers kind]
        cases kind <;> rfl
      exact Or.inl (.of_links (fun kind => by cases kind <;> rfl) hreset (fun _ => ⟨rfl, rfl⟩)
        fun p => History.connects_cons ..)
  | handOut fd hfd hclient =>
      exact Or.inl (.of_links (fun kind => by cases kind <;> rfl)
        (fun kind => by cases kind <;> rfl) (fun _ => ⟨rfl, rfl⟩) fun p => History.connects_cons ..)
  | register fd hfd =>
      exact Or.inl (.of_links (fun _ => rfl) (fun _ => rfl) (fun _ => ⟨rfl, rfl⟩) fun _ => rfl)
  | choose c code hc =>
      have hb := sameButHash_chooseCandidate hc
      refine Or.inl (.of_links (fun _ => rfl) (fun _ => rfl) (fun p => ⟨?_, ?_⟩) fun _ => rfl)
      · exact hb.field Server.c (fun _ _ => rfl) p
      · exact hb.field Server.completedC (fun _ _ => rfl) p
  | chose status =>
      exact Or.inl (.of_links (fun _ => rfl) (fun _ => rfl) (fun _ => ⟨rfl, rfl⟩)
        fun p => History.connects_cons ..)
  | leak fd hfd =>
      exact Or.inl (.of_links (fun _ => rfl) (fun _ => rfl) (fun _ => ⟨rfl, rfl⟩) fun _ => rfl)
  | associate kind fd slot hfd hnone hslot =>
      -- the pointer of a side that is not connected changes
      have hnot := hok.not_connected hnone
      have hconnected : ∀ kind', (((x.updateSys fun y => y.opened fd).associate kind fd
          slot).session.connected kind') = x.session.connected kind' := by
        intro kind'
        cases kind <;> cases kind' <;> rfl
      refine Or.inl ⟨fun kind' p => ?_, hconnected, fun _ => ⟨rfl, rfl⟩, fun _ => rfl⟩
      by_cases hk : kind' = kind
      · subst hk
        constructor
        · exact fun h => absurd (((hconnected kind').symm.trans h.1).symm.trans hnot) nofun
        · exact fun h => absurd (h.1.symm.trans hnot) nofun
      · exact Session.holds_of_sameSide (sameSide_setServer hk _ fd slot)
  | establish kind fd slot hfd hserver hnot hslot =>
      exact Or.inr (Or.inr ⟨kind, fd, slot, hserver, hnot, hslot, rfl⟩)

/-- **One move** keeps the books of every slot, unless something is given up that
is not connected. -/
theorem booked_move (hok : x.session.Ok) (h : Move (fun _ => False) slots x y) (p : ℕ) :
    ∃ k, Booked p k x y := by
  rcases move_cases hok h with hsame | ⟨kind, hc, rfl⟩ | ⟨kind, fd, slot, hserver, hnot, -, rfl⟩
  · exact ⟨0, .of_same (hsame.servers p) (Session.held_congr fun kind => hsame.holds kind p)
      (hsame.connects p)⟩
  · exact booked_disconnectServer hok (hc.resolve_right id) p
  · exact ⟨0, booked_establish fd hserver hnot p⟩

/-- **A chain of moves** keeps the books of every slot. -/
theorem booked_moves (hok : x.session.Ok) (how : x.Owns) (h : Moves (fun _ => False) slots x y)
    (p : ℕ) : ∃ k, Booked p k x y := by
  induction h with
  | refl => exact ⟨0, .refl p x⟩
  | tail hu hmove ih =>
      obtain ⟨k, hk⟩ := ih
      obtain ⟨k', hk'⟩ := booked_move ((frame_moves hu).sound hok how).1 hmove p
      exact ⟨k + k', hk.trans hk'⟩

/-! ## What a session holds after an event -/

omit [LoadArith L] in
/-- Giving up one server leaves the other. -/
theorem holds_disconnectServer (hok : x.session.Ok) (kind : ServerKind) {kind' : ServerKind}
    (hc : (disconnectServer kind x).session.connected kind' = true) :
    x.session.connected kind' = true ∧ ∀ p,
      (disconnectServer kind x).session.Holds kind' p ↔ x.session.Holds kind' p := by
  have hne : kind' ≠ kind := by
    rintro rfl
    rw [connected_disconnectServer hok, if_pos rfl] at hc
    cases hc
  have hkeep := connected_disconnectServer hok kind kind'
  rw [if_neg hne] at hkeep
  refine ⟨hkeep.symm.trans hc, fun p => ?_⟩
  unfold Session.Holds
  rw [hkeep, session_disconnectServer]
  split_ifs
  · rw [(sameSide_clearServer hne _).server]
  · exact Iff.rfl

/-- What a session holds it held before, or has just been connected to. -/
theorem holds_moves (hok : x.session.Ok) (how : x.Owns) (h : Moves loose slots x y)
    {kind : ServerKind} {p : ℕ} (hy : y.session.Holds kind p) :
    x.session.Holds kind p ∨ slots kind p := by
  induction h with
  | refl => exact Or.inl hy
  | @tail u v hu hmove ih =>
      have huok := ((frame_moves hu).sound hok how).1
      rcases move_cases huok hmove with hsame | ⟨kind', -, rfl⟩ | ⟨kind', fd, slot, hs, -, hslot, rfl⟩
      · exact ih ((hsame.holds kind p).mp hy)
      · exact ih (((holds_disconnectServer huok kind' hy.1).2 p).mp hy)
      · by_cases hk : kind = kind'
        · subst hk
          have hserver : (u.establish kind fd slot).session.server kind = some slot := by
            rw [← hs]
            cases kind <;> rfl
          obtain rfl := Option.some.inj (hserver.symm.trans hy.2)
          exact Or.inr hslot
        · exact ih ((Session.holds_of_sameSide (sameSide_setConnected hk _)).mp hy)

/-- **While it stays connected** a session keeps its server, if nothing is
connected anew. -/
theorem still_connected (hok : x.session.Ok) (how : x.Owns)
    (h : Moves loose (fun _ _ => False) x y) {kind : ServerKind}
    (hc : y.session.connected kind = true) :
    x.session.connected kind = true ∧ ∀ p, x.session.Holds kind p → y.session.Holds kind p := by
  induction h with
  | refl => exact ⟨hc, fun _ => id⟩
  | @tail u v hu hmove ih =>
      have huok := ((frame_moves hu).sound hok how).1
      rcases move_cases huok hmove with hsame | ⟨kind', -, rfl⟩ | ⟨_, _, _, -, -, hslot, -⟩
      · obtain ⟨hx, hkeep⟩ := ih ((hsame.connected kind).symm.trans hc)
        exact ⟨hx, fun p hp => (hsame.holds kind p).mpr (hkeep p hp)⟩
      · obtain ⟨hu', hiff⟩ := holds_disconnectServer huok kind' hc
        obtain ⟨hx, hkeep⟩ := ih hu'
        exact ⟨hx, fun p hp => (hiff p).mpr (hkeep p hp)⟩
      · exact hslot.elim

/-- Where nothing can be connected anew, no connection is recorded. -/
theorem connects_moves (hok : x.session.Ok) (how : x.Owns)
    (h : Moves loose (fun _ _ => False) x y) (p : ℕ) :
    y.history.connects p = x.history.connects p := by
  induction h with
  | refl => rfl
  | @tail u v hu hmove ih =>
      have huok := ((frame_moves hu).sound hok how).1
      rcases move_cases huok hmove with hsame | ⟨kind, -, rfl⟩ | ⟨_, _, _, -, -, hslot, -⟩
      · exact (hsame.connects p).trans ih
      · rw [history_disconnectServer, ih]
      · exact hslot.elim

/-! ## Sessions that are not in use -/

omit [LoadArith L] in
theorem connected_deleteSession (reason : Reason) (x : Ctx n L) (kind : ServerKind) :
    (deleteSession reason x).session.connected kind = false := by
  rw [deleteSession_eq]
  cases kind <;> rfl

/-- A session that is not in use after the accept branch is not connected. -/
theorem idle_acceptClient {fd : Fd} {env : AcceptEnv} (h : acceptClient fd env x = some y)
    (hin : y.history.inUse = false) (kind : ServerKind) : y.session.connected kind = false := by
  rcases acceptClient_cases h with rfl | ⟨-, rfl⟩ | ⟨-, z, status, hz, ⟨-, rfl⟩ | ⟨-, rfl⟩⟩
  · exact connected_deleteSession _ _ kind
  · cases hin
  · exact connected_deleteSession _ _ kind
  · obtain ⟨hs, heq, hnone⟩ := handsOut_chooseServer hz
    change z.history.inUse = false at hin
    rw [heq, History.inUse_append hnone] at hin
    cases hin

/-- A chain of moves that connects nothing keeps this. -/
theorem idle_moves (hok : x.session.Ok) (how : x.Owns) (h : Moves loose (fun _ _ => False) x y)
    (hx : x.history.inUse = false → ∀ kind, x.session.connected kind = false)
    (hin : y.history.inUse = false) (kind : ServerKind) : y.session.connected kind = false := by
  by_contra hc
  have hconnected := Bool.eq_true_of_not_eq_false hc
  induction h with
  | refl => exact absurd (hx hin kind) hc
  | @tail u v hu hmove ih =>
      have huok := ((frame_moves hu).sound hok how).1
      -- connected before the move, so in use before it; no move ends that
      have hback := (still_connected huok ((frame_moves hu).sound hok how).2 (.single hmove)
        hconnected).1
      have hu' : u.history.inUse = true := by
        by_contra hno
        exact ih (Bool.eq_false_of_not_eq_true hno) (by rw [hback]; nofun) hback
      cases hmove with
      | quiet hq =>
          obtain ⟨hs, heq, htraffic⟩ := hq.history
          rw [heq, History.inUse_append fun o ho => Obs.handsOut_of_isTraffic (htraffic o ho)]
            at hin
          exact absurd (hu'.symm.trans hin) nofun
      | dropClient =>
          rw [history_disconnectClient] at hin
          exact absurd (hu'.symm.trans hin) nofun
      | dropServer kind' =>
          rw [history_disconnectServer] at hin
          exact absurd (hu'.symm.trans hin) nofun
      | release reason before hclient hservers =>
          exact absurd ((hservers kind).symm.trans hback) nofun
      | handOut => cases hin
      | associate _ _ _ _ _ hslot => exact hslot.elim
      | establish _ _ _ _ _ _ hslot => exact hslot.elim
      | _ => exact absurd (hu'.symm.trans hin) nofun

/-! ## What sessions do to the balancer -/

/-- The choosers differ at most in the counters of the servers. -/
structure SameButCounters (c c' : Chooser L) : Prop where
  servers : ∀ p, c'.balancer.servers p = { c.balancer.servers p with
    c := (c'.balancer.servers p).c, completedC := (c'.balancer.servers p).completedC
    bsent := (c'.balancer.servers p).bsent, brecv := (c'.balancer.servers p).brecv }
  rest : c' = { c with balancer := { c.balancer with servers := c'.balancer.servers } }

omit [LoadArith L] in
/-- The counters are no part of any other field. -/
theorem SameButCounters.field {c c' : Chooser L} (h : SameButCounters c c') {α : Type*}
    (g : Server L → α)
    (hg : ∀ s k u b r, g { s with c := k, completedC := u, bsent := b, brecv := r } = g s) (p : ℕ) :
    g (c'.balancer.servers p) = g (c.balancer.servers p) := by
  rw [h.servers p]
  exact hg _ _ _ _ _

omit [LoadArith L] in
theorem SameButTraffic.sameButCounters {c c' : Chooser L} (h : SameButTraffic c c') :
    SameButCounters c c' := by
  refine ⟨fun p => ?_, h.rest⟩
  rw [h.field Server.c (fun _ _ _ => rfl) p, h.field Server.completedC (fun _ _ _ => rfl) p]
  exact h.servers p

omit [LoadArith L] in
/-- Counters of one server change. -/
theorem SameButCounters.modifyServer (c : Chooser L) (p : ℕ) {f : Server L → Server L}
    (hf : ∀ s, f s = { s with c := (f s).c, completedC := (f s).completedC
                              bsent := (f s).bsent, brecv := (f s).brecv }) :
    SameButCounters c { c with balancer := c.balancer.modifyServer p f } := by
  refine ⟨fun q => ?_, rfl⟩
  dsimp only
  rw [Balancer.servers_modifyServer]
  split_ifs
  · exact hf _
  · rfl

omit [LoadArith L] in
theorem sameButCounters_modifyServer (s : Sys n L) (o : Option ℕ) {f : Server L → Server L}
    (hf : ∀ s, f s = { s with c := (f s).c, completedC := (f s).completedC
                              bsent := (f s).bsent, brecv := (f s).brecv }) :
    SameButCounters s.chooser (s.modifyServer o f).chooser := by
  cases o with
  | none => exact ⟨fun _ => rfl, rfl⟩
  | some p => exact .modifyServer s.chooser p hf

/-- **What an event does to the chooser.**  What changes of counters and choices
keep, moves keep. -/
theorem chooser_moves {I : Chooser L → Prop}
    (hcounters : ∀ c c', SameButCounters c c' → I c → I c')
    (hchoose : ∀ buf c c' code, chooseCandidate buf c = some (c', code) → I c → I c')
    (h : Moves loose slots x y) (hx : I x.sys.chooser) : I y.sys.chooser := by
  induction h with
  | refl => exact hx
  | @tail u v hu hmove ih =>
      cases hmove with
      | quiet hq => exact hcounters _ _ hq.chooser.sameButCounters ih
      | dropClient =>
          unfold disconnectClient
          cases u.session.clientfd <;> exact ih
      | dropServer kind hc =>
          unfold disconnectServer
          cases u.session.serverfd kind with
          | none => exact ih
          | some fd => exact hcounters _ _ (sameButCounters_modifyServer u.sys _ fun _ => rfl) ih
      | choose c code hc => exact hchoose _ _ _ _ hc ih
      | establish kind fd slot =>
          exact hcounters _ _ (sameButCounters_modifyServer (u.sys.register fd) _ fun _ => rfl) ih
      | _ => exact ih

end Moves

end OctopusLB
