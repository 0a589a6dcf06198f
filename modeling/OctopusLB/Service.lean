/-
# The whole service

The server process with its sessions, together with the processes that share the
balancer with it.  A step is one event of the server process, or one step of the
configuration reader, of an admin process or of the monitor.

`Service.Sound` is the invariant: connection counts are exact, and a session is
only ever connected to a server that is in its table.  `Service.Sound.step` keeps
it, unless a server is created in a full table, or an event reaches a descriptor
that a session holds without being connected.
-/
import Mathlib.Algebra.Order.BigOperators.Group.Finset
import OctopusLB.ControlSlots
import OctopusLB.HashAffinity
import OctopusLB.Holders
import OctopusLB.Ownership
import OctopusLB.Tally

namespace OctopusLB

open Balancer

variable {n : ℕ} {L : Type}

/-! ## The machine -/

/-- The sessions with the balancer, and what the other processes keep for
themselves. -/
structure Service (n : ℕ) (L : Type) where
  world : World n L
  tools : ℕ → AdminTool
  probe : Option ℕ

/-- One step of one of the processes. -/
inductive ServiceInput (n : ℕ) (L : Type)
  /-- the server process handles an event -/
  | event (e : Event) (env : EventEnv n)
  /-- a step of another process -/
  | other (i : ControlInput L) (h : i.ofSessions = false)

namespace Service

/-- What the other processes see. -/
def control (x : Service n L) : Control L := ⟨x.world.sys.chooser, x.tools, x.probe⟩

/-- What they leave behind. -/
def withControl (x : Service n L) (y : Control L) : Service n L :=
  ⟨x.world.updateSys fun s => { s with chooser := y.chooser }, y.tools, y.probe⟩

/-- The shared balancer. -/
def balancer (x : Service n L) : Balancer L := x.world.sys.chooser.balancer

@[simp] theorem control_withControl (x : Service n L) (y : Control L) :
    (x.withControl y).control = y := rfl

@[simp] theorem balancer_withControl (x : Service n L) (y : Control L) :
    (x.withControl y).balancer = y.balancer := rfl

end Service

/-- The service. -/
def serviceMachine (n : ℕ) (L : Type) [LoadArith L] : Machine (Service n L) (ServiceInput n L) where
  step x i :=
    match i with
    | .event e env => (processEvent e env x.world).map fun w => { x with world := w }
    | .other i _ => ((controlMachine L).step x.control i).map x.withControl

/-- The service when it starts: no session is in use, and the balancer is as
`initialize_balancer` leaves it. -/
structure Service.Start [LoadArith L] (x : Service n L) : Prop where
  world : x.world.Start
  control : x.control.Initial

/-- A server is created in a full table. -/
def ServiceInput.Overfills [IntCast L] (x : Service n L) : ServiceInput n L → Prop
  | .event _ _ => False
  | .other i _ => OctopusLB.Overfills x.control i

/-- A session holds a server descriptor without being connected. -/
def World.Leftover (w : World n L) (s : Fin n) (fd : Fd) : Prop :=
  ∃ kind, (w.sessions s).serverfd kind = some fd ∧ (w.sessions s).connected kind = false

/-- An event of a descriptor that its session holds without being connected:
`connect_server` left it behind when it could not be registered. -/
def ServiceInput.HitsLeftover (x : Service n L) : ServiceInput n L → Prop
  | .event e _ => ∃ s, x.world.sys.fds e.fd = some s ∧ x.world.Leftover s e.fd
  | .other _ _ => False

instance (w : World n L) (s : Fin n) (fd : Fd) : Decidable (w.Leftover s fd) :=
  decidable_of_iff
    (((w.sessions s).serverfd .member = some fd ∧ (w.sessions s).connected .member = false) ∨
      (w.sessions s).serverfd .clone = some fd ∧ (w.sessions s).connected .clone = false)
    ⟨fun h => h.elim (fun h => ⟨.member, h⟩) fun h => ⟨.clone, h⟩, fun ⟨kind, h⟩ =>
      match kind, h with
      | .member, h => Or.inl h
      | .clone, h => Or.inr h⟩

instance [IntCast L] (x : Service n L) (i : ServiceInput n L) : Decidable (i.Overfills x) :=
  match i with
  | .event _ _ => instDecidableFalse
  | .other i _ => inferInstanceAs (Decidable (OctopusLB.Overfills x.control i))

instance (x : Service n L) (i : ServiceInput n L) : Decidable (i.HitsLeftover x) :=
  match i with
  | .event e _ =>
      inferInstanceAs (Decidable (∃ s, x.world.sys.fds e.fd = some s ∧ x.world.Leftover s e.fd))
  | .other _ _ => instDecidableFalse

/-- What a step of the service can be. -/
theorem serviceMachine_cases [LoadArith L] {x y : Service n L} {i : ServiceInput n L}
    (h : (serviceMachine n L).step x i = some y) :
    (∃ e env w, i = .event e env ∧ processEvent e env x.world = some w ∧
        y = { x with world := w }) ∨
      ∃ j hj c, i = .other j hj ∧ (controlMachine L).step x.control j = some c ∧
        y = x.withControl c := by
  cases i with
  | event e env =>
      obtain ⟨w, hw, rfl⟩ := Option.map_eq_some_iff.mp h
      exact Or.inl ⟨e, env, w, rfl, hw, rfl⟩
  | other j hj =>
      obtain ⟨c, hc, rfl⟩ := Option.map_eq_some_iff.mp h
      exact Or.inr ⟨j, hj, c, rfl, hc, rfl⟩

/-! ## What an event does -/

/-- Counters are no part of what a server is. -/
theorem SameButCounters.same_server {c c' : Chooser L} (h : SameButCounters c c') (p : ℕ) :
    (c.balancer.servers p).Same (c'.balancer.servers p) :=
  ⟨h.field Server.id (fun _ _ _ _ _ => rfl) p, h.field Server.name (fun _ _ _ _ _ => rfl) p,
    h.field Server.port (fun _ _ _ _ _ => rfl) p, h.field Server.sinAddr (fun _ _ _ _ _ => rfl) p,
    h.field Server.sinPort (fun _ _ _ _ _ => rfl) p⟩

section Turn

variable [LoadArith L]

/-- What an event does to the sessions: nothing, a chain of moves of one of them,
or a chain of moves of one that was not in use. -/
inductive Turn (w : World n L) : World n L → Prop
  | quiet {w' : World n L} (hs : w'.sessions = w.sessions) (hh : w'.histories = w.histories)
      (hc : w'.sys.chooser = w.sys.chooser)
      (hopen : ∀ fd, w'.sys.isOpen fd = false → w.sys.isOpen fd = false)
      (hinterest : ∀ fd, w.sys.interest fd = none → w'.sys.interest fd = none) : Turn w w'
  | served (s : Fin n) (y : Ctx n L)
      (h : Moves (fun _ => False) (fun _ _ => False) (w.ctx s) y) : Turn w (w.put y)
  | accepted (s : Fin n) (y : Ctx n L) (fd : Fd) (env : AcceptEnv)
      (hin : (w.histories s).inUse = false)
      (h : Moves (fun _ => False)
        (ChosenSlot (w.sessions s).clientReadBuffer.cells w.sys.chooser) (w.ctx s) y)
      (hy : acceptClient fd env ((w.ctx s).updateSys fun z => z.opened fd) = some y) :
      Turn w (w.put y)

/-- **Every event** that hits no leftover is one of these. -/
theorem turn_of_event {w w' : World n L} (how : w.Owned) {e : Event} {env : EventEnv n}
    (hleft : ∀ s, w.sys.fds e.fd = some s → ¬ w.Leftover s e.fd)
    (h : processEvent e env w = some w') : Turn w w' := by
  rcases processEvent_cases h with ⟨-, rfl⟩ | ⟨-, -, haccept⟩ | ⟨s, y, -, hs, hserve, rfl⟩
  · exact .quiet rfl rfl rfl (fun _ => id) fun _ => id
  · rcases acceptEvent_cases haccept with rfl | ⟨fd, hfd, hor⟩
    · exact .quiet rfl rfl rfl (fun _ => id) fun _ => id
    -- the descriptor that is closed again was closed before
    have hopen : ∀ fd', Function.update (Function.update w.sys.isOpen fd true) fd false fd' = false →
        w.sys.isOpen fd' = false := by
      intro fd' hclosed
      by_cases heq : fd' = fd
      · rw [heq]
        exact hfd
      · rwa [Function.update_of_ne heq, Function.update_of_ne heq] at hclosed
    have hinterest : ∀ fd', w.sys.interest fd' = none →
        Function.update w.sys.interest fd none fd' = none := by
      intro fd' hnone
      by_cases heq : fd' = fd
      · rw [heq, Function.update_self]
      · rw [Function.update_of_ne heq, hnone]
    -- refused before a session was taken (twice), or given to one
    rcases hor with rfl | rfl | ⟨s, y, haccepts, hy, rfl⟩
    · exact .quiet rfl rfl rfl hopen hinterest
    · exact .quiet rfl rfl rfl hopen hinterest
    · have hin := how.out_of_unused haccepts.unused
      have hmoves := moves_acceptClient (x := w.ctx s) (how.ok s) (how.owns s) (how.idle s hin) hfd hy
      exact .accepted s y fd env.accept hin hmoves hy
  · -- what would be given up without being connected is a leftover
    have hmoves := moves_serve (how.ok s) (how.owns s) hserve
    have hnone : ∀ kind, ((w.sessions s).fdOf kind.role = some e.fd ∧
        (w.sessions s).Residual kind) → False := by
      rintro kind ⟨hfd, -, hnot⟩
      rw [← Session.serverfd_eq_fdOf] at hfd
      exact hleft s hs ⟨kind, hfd, hnot⟩
    exact .served s y (hmoves.mono hnone fun _ _ => id)

end Turn

/-- **Moves of a session** change no table, and no server but for its counters. -/
theorem tables_moves [LoadArith L] {loose : ServerKind → Prop} {slots : ServerKind → ℕ → Prop}
    {x y : Ctx n L} (h : Moves loose slots x y) :
    y.sys.chooser.balancer.count = x.sys.chooser.balancer.count ∧
      ∀ p, (x.serverAt p).Same (y.serverAt p) ∧ (y.serverAt p).status = (x.serverAt p).status := by
  refine chooser_moves (I := fun c => c.balancer.count = x.sys.chooser.balancer.count ∧
    ∀ p, (x.serverAt p).Same (c.balancer.servers p) ∧
      (c.balancer.servers p).status = (x.serverAt p).status) ?_ ?_ h ⟨rfl, fun _ => ⟨.refl _, rfl⟩⟩
  · rintro c c' hc ⟨hcount, hslot⟩
    refine ⟨?_, fun p => ⟨(hslot p).1.trans (hc.same_server p), ?_⟩⟩
    · rw [← hcount, hc.rest]
      funext kind
      cases kind <;> rfl
    · exact (hc.field Server.status (fun _ _ _ _ _ => rfl) p).trans (hslot p).2
  · rintro buf c c' code hc ⟨hcount, hslot⟩
    have hb := sameButHash_chooseCandidate hc
    exact ⟨hb.count.trans hcount, fun p => ⟨(hslot p).1.trans (hb.same_server p),
      (hb.field Server.status (fun _ _ => rfl) p).trans (hslot p).2⟩⟩

/-! ## What holds of the balancer -/

/-- The invariant of what the processes share. -/
structure ControlSound (x : Control L) : Prop where
  hash : HashInvariant x
  tables : LiveTables x
  cursor : x.chooser.nextClone < maxServers

namespace ControlSound

variable {x y : Control L}

/-- Sessions are connected and disconnected, and bytes are counted. -/
theorem counters (h : ControlSound x) {c : Chooser L} (hc : SameButCounters x.chooser c) :
    ControlSound { x with chooser := c } := by
  have hstatus := hc.field Server.status (fun _ _ _ _ _ => rfl)
  have hid := hc.field Server.id (fun _ _ _ _ _ => rfl)
  have husage := hc.field Server.hashTableUsage (fun _ _ _ _ _ => rfl)
  have hn : c.balancer.nmembers = x.balancer.nmembers :=
    congrArg (fun c => c.balancer.nmembers) hc.rest
  have hcount : c.balancer.count = x.balancer.count := by
    funext kind
    cases kind with
    | member => exact hn
    | clone => exact congrArg (fun c => c.balancer.nclones) hc.rest
  have hlive : ∀ i, (c.balancer.members i).Live → (x.balancer.members i).Live := by
    intro i hl
    unfold Server.Live at hl ⊢
    exact hstatus (memberSlot i) ▸ hl
  refine ⟨⟨?_, ?_, fun i hi hp => ?_⟩, h.tables.of_slots rfl hcount hstatus hid, ?_⟩
  · refine h.hash.table.of_members hn (congrArg (fun c => c.balancer.hashTable) hc.rest)
      (fun i _ => husage _) (fun i _ hs => ?_) fun i hi hl => ?_
    · exact fun hfree => hs ((hstatus _).symm.trans hfree)
    · exact ⟨(hid _).trans (h.hash.table.id_eq i hi (hlive i hl)),
        h.hash.table.past i hi (hlive i hl)⟩
  · have hnext : c.nextMember = x.chooser.nextMember := by rw [hc.rest]
    exact hnext.symm ▸ h.hash.cursor
  · obtain ⟨hlt, hs, hid'⟩ := h.hash.probe i hi hp
    exact ⟨hn.symm ▸ hlt, fun hfree => hs ((hstatus _).symm.trans hfree), (hid _).trans hid'⟩
  · have hnext : c.nextClone = x.chooser.nextClone := by rw [hc.rest]
    exact hnext.symm ▸ h.cursor

variable [LoadArith L]

/-- A server is chosen. -/
theorem choose (h : ControlSound x) {buf : List UInt8} {c : Chooser L} {code : ℤ}
    (hc : chooseCandidate buf x.chooser = some (c, code)) :
    ControlSound { x with chooser := c } where
  hash := by
    refine h.hash.step (step_request hc) ?_
    show c.balancer.nmembers ≤ maxServers
    rw [(sameButHash_chooseCandidate hc).nmembers]
    exact h.hash.table.count_le
  tables :=
    have hb := sameButHash_chooseCandidate hc
    h.tables.of_slots rfl hb.count (hb.field Server.status fun _ _ => rfl)
      (hb.field Server.id fun _ _ => rfl)
  cursor := nextClone_lt_chooseCandidate (h.tables.tableOk .clone) (h.tables.count_le .clone)
    h.cursor (h.hash.table.membersOk h.hash.cursor).hash_lt hc

/-- A step of another process. -/
theorem step (h : ControlSound x) {i : ControlInput L} (hi : i.ofSessions = false)
    (hroom : ¬ Overfills x i) (hstep : (controlMachine L).step x i = some y) : ControlSound y where
  hash := by
    refine h.hash.step hstep (staysWithin_of_room h.hash ?_ y hstep)
    rintro ⟨malloc, r, hc, hv, hfull⟩
    exact hroom ⟨malloc, .member, r, hc, hv, hfull⟩
  tables := h.tables.step hi hroom hstep
  cursor := by
    cases control_cases hstep with
    | chosen => cases hi
    | _ => exact h.cursor

/-- **Every step** that creates no server in a full table keeps it. -/
theorem step_of_room (h : ControlSound x) {i : ControlInput L} (hroom : ¬ Overfills x i)
    (hstep : (controlMachine L).step x i = some y) : ControlSound y := by
  cases hi : i.ofSessions with
  | false => exact h.step hi hroom hstep
  | true =>
      cases i with
      | request buf =>
          obtain ⟨⟨c, code⟩, hc, rfl⟩ := Option.map_eq_some_iff.mp hstep
          exact h.choose hc
      | connections p c =>
          obtain rfl := Option.some.inj hstep
          exact h.counters (.modifyServer x.chooser p fun _ => rfl)
      | _ => cases hi

theorem states (h : ControlSound x) {inputs : List (ControlInput L)}
    (hroom : ∀ v ∈ (controlMachine L).visits x inputs, ¬ Overfills v.1 v.2) :
    ∀ y ∈ (controlMachine L).states x inputs, ControlSound y :=
  (controlMachine L).states_invariant_of_visits
    (fun _ i _ hu (hi : ¬ Overfills _ i) hstep => hu.step_of_room hi hstep) h hroom

/-- A server that a session may be connected to is in its table. -/
theorem of_chosenSlot (h : ControlSound x) {buf : List UInt8} {kind : ServerKind} {p : ℕ}
    (hp : ChosenSlot buf x.chooser kind p) :
    ∃ i < x.balancer.count kind, p = slot kind i ∧ (x.balancer.servers p).status ≠ .free := by
  obtain ⟨c, hc, hp⟩ := hp
  have hok := h.hash.table.membersOk h.hash.cursor
  have hb := sameButHash_chooseCandidate hc
  cases kind with
  | member =>
      obtain ⟨-, ⟨hne, -⟩ | ⟨-, hsound⟩⟩ := chooseCandidate_cases hok hc
      · exact absurd rfl hne
      have hs : SoundMember x.balancer c.nextMember := hsound.of_sameButHash hb
      exact ⟨c.nextMember, hs.lt, hp, hp ▸ hs.ne_free⟩
  | clone =>
      obtain ⟨huse, rfl⟩ := hp
      have hready := cloneReady_of_choice (h.tables.tableOk .clone) h.cursor hok.hash_lt hc
      have hlt := hready.next_lt huse
      have heligible := (hb.eligible_iff _).mp (hready.next_eligible huse)
      rw [hb.nclones] at hlt
      refine ⟨c.nextClone, hlt, rfl, ?_⟩
      rw [show (x.balancer.servers (cloneSlot c.nextClone)).status = .enabled from heligible.1]
      nofun

theorem initial (h : x.Initial) : ControlSound x where
  hash := hashInvariant_initial h
  tables := .initial h
  cursor := by
    rw [h.nextClone]
    exact maxServers_pos

end ControlSound

/-! ## The invariant -/

/-- How many connections the sessions have to the server in slot `p`. -/
def World.holders (w : World n L) (p : ℕ) : ℕ := ∑ s, (w.sessions s).held p

/-- One session changes. -/
theorem World.holders_put (w : World n L) (y : Ctx n L) (p : ℕ) :
    (w.put y).holders p + (w.sessions y.sid).held p = w.holders p + y.session.held p :=
  sum_update_add (Session.held p) w.sessions y.sid y.session

theorem World.held_le_holders (w : World n L) (s : Fin n) (p : ℕ) :
    (w.sessions s).held p ≤ w.holders p :=
  Finset.single_le_sum (f := fun s => (w.sessions s).held p) (fun _ _ => Nat.zero_le _)
    (Finset.mem_univ s)

/-- What holds of the service: descriptors and the balancer are in order, the
connection count of every slot is the number of connections to it, a session is
connected only to a server that is in its table, and one that is not in use is
not connected. -/
structure Service.Sound (x : Service n L) : Prop where
  owned : x.world.Owned
  control : ControlSound x.control
  exact : ∀ p, (x.balancer.servers p).c = x.world.holders p
  placed : ∀ s kind p, (x.world.sessions s).Holds kind p →
    ∃ i < x.balancer.count kind, p = slot kind i ∧ (x.balancer.servers p).status ≠ .free
  idle : ∀ s, (x.world.histories s).inUse = false →
    ∀ kind, (x.world.sessions s).connected kind = false

namespace Service.Sound

variable {x y : Service n L}

/-- A server that a session is connected to has a connection count. -/
theorem pos_of_holds (h : x.Sound) {s : Fin n} {kind : ServerKind} {p : ℕ}
    (hs : (x.world.sessions s).Holds kind p) : 0 < (x.balancer.servers p).c := by
  have hpos := Nat.lt_of_lt_of_le (Session.held_pos hs) (x.world.held_le_holders s p)
  rw [h.exact]
  omega

/-- A slot that no session is connected to. -/
theorem c_eq_zero (h : x.Sound) {p : ℕ}
    (hp : ∀ s kind, ¬ (x.world.sessions s).Holds kind p) : (x.balancer.servers p).c = 0 := by
  have hzero : x.world.holders p = 0 := by
    refine Finset.sum_eq_zero fun s _ => ?_
    by_contra hne
    obtain ⟨kind, hs⟩ := Session.holds_of_held_ne_zero hne
    exact hp s kind hs
  rw [h.exact, hzero]
  rfl

variable [LoadArith L]

theorem start (h : x.Start) : x.Sound := by
  have hnot : ∀ s kind, (x.world.sessions s).connected kind = false := by
    intro s kind
    rw [h.world.sessions]
    cases kind <;> rfl
  refine ⟨.start h.world, .initial h.control, fun p => ?_, fun s kind p hs => ?_,
    fun s _ => hnot s⟩
  · obtain ⟨maxl, weight, heq⟩ := h.control.balancer
    have hzero : x.world.holders p = 0 :=
      Finset.sum_eq_zero fun s _ => Session.held_eq_zero (hnot s)
    have hb : x.balancer = initializeBalancer maxl weight := heq
    rw [hb, hzero]
    rfl
  · exact absurd (hs.1.symm.trans (hnot s kind)) nofun

/-- **A chain of moves of one session** keeps the invariant if it connects the
session only to servers that are in their table. -/
theorem put (h : x.Sound) {s : Fin n} {y : Ctx n L} {slots : ServerKind → ℕ → Prop}
    (hmoves : Moves (fun _ => False) slots (x.world.ctx s) y)
    (hslots : ∀ kind p, slots kind p →
      ∃ i < x.balancer.count kind, p = slot kind i ∧ (x.balancer.servers p).status ≠ .free)
    (hidle : y.history.inUse = false → ∀ kind, y.session.connected kind = false) :
    Service.Sound { x with world := x.world.put y } := by
  have hok := h.owned.ok s
  have how := h.owned.owns s
  have hframe := frame_moves hmoves
  have hsid : y.sid = s := hframe.sid
  have hcontrol : ControlSound ⟨y.sys.chooser, x.tools, x.probe⟩ :=
    chooser_moves (I := fun c => ControlSound ⟨c, x.tools, x.probe⟩)
      (fun c c' hc hs => hs.counters hc) (fun buf c c' code hc hs => hs.choose hc) hmoves h.control
  obtain ⟨hcount, hslot⟩ := tables_moves hmoves
  refine ⟨h.owned.put hframe, hcontrol, fun p => ?_, fun t kind p ht => ?_, fun t ht => ?_⟩
  · -- the count of the slot and the connections of the session change together
    obtain ⟨k, hbooked⟩ := booked_moves hok how hmoves p
    have hput := x.world.holders_put y p
    rw [hsid] at hput
    have hc : (y.serverAt p).c + (x.world.sessions s).held p
        = (x.balancer.servers p).c + y.session.held p := hbooked.c
    have hexact := h.exact p
    show (y.serverAt p).c = (x.world.put y).holders p
    omega
  · -- held before, or connected now to a slot that was chosen
    have hplace : ∃ i < x.balancer.count kind, p = slot kind i ∧
        (x.balancer.servers p).status ≠ .free := by
      by_cases hts : t = s
      · have hs : (x.world.put y).sessions t = y.session := by
          rw [hts, ← hsid, World.sessions_put_self]
        change ((x.world.put y).sessions t).Holds kind p at ht
        rw [hs] at ht
        rcases holds_moves hok how hmoves ht with hx | hslot
        · exact h.placed s kind p hx
        · exact hslots kind p hslot
      · refine h.placed t kind p ?_
        rw [← World.sessions_put_of_ne x.world (x := y) (hsid.symm ▸ hts)]
        exact ht
    obtain ⟨i, hi, hp, hs⟩ := hplace
    show ∃ i < y.sys.chooser.balancer.count kind, p = slot kind i ∧ (y.serverAt p).status ≠ .free
    rw [hcount, (hslot p).2]
    exact ⟨i, hi, hp, hs⟩
  · have hall := World.forall_put (w := x.world) (y := y)
      (P := fun s h => h.inUse = false → ∀ kind, s.connected kind = false) h.idle hidle t
    exact hall ht

/-- **An event** that hits no leftover. -/
theorem event (h : x.Sound) {e : Event} {env : EventEnv n} {w : World n L}
    (hleft : ¬ ServiceInput.HitsLeftover x (.event e env))
    (hstep : processEvent e env x.world = some w) :
    Service.Sound { x with world := w } := by
  cases turn_of_event h.owned (fun s hs hl => hleft ⟨s, hs, hl⟩) hstep with
  | quiet hs hh hc =>
      refine ⟨h.owned.processEvent hstep, ?_, fun p => ?_, fun s kind p ht => ?_, fun s ht => ?_⟩
      · show ControlSound ⟨w.sys.chooser, x.tools, x.probe⟩
        rw [hc]
        exact h.control
      · show (w.sys.chooser.balancer.servers p).c = ∑ s, (w.sessions s).held p
        rw [hc, hs]
        exact h.exact p
      · change (w.sessions s).Holds kind p at ht
        show ∃ i < w.sys.chooser.balancer.count kind, p = slot kind i ∧
          (w.sys.chooser.balancer.servers p).status ≠ .free
        rw [hs] at ht
        rw [hc]
        exact h.placed s kind p ht
      · change (w.histories s).inUse = false at ht
        show ∀ kind, (w.sessions s).connected kind = false
        rw [hh] at ht
        rw [hs]
        exact h.idle s ht
  | served s y hmoves =>
      exact h.put hmoves nofun (idle_moves (h.owned.ok s) (h.owned.owns s) hmoves (h.idle s))
  | accepted s y fd env hin hmoves hy =>
      exact h.put hmoves (fun kind p hp => h.control.of_chosenSlot hp) (idle_acceptClient hy)

/-- No session is connected to the slot that a creation takes. -/
theorem not_holds_of_creates (h : x.Sound) {i : ControlInput L} (hroom : ¬ Overfills x.control i)
    {kind : ServerKind} {p : ℕ} (hc : CreatesAt x.control i kind p) (s : Fin n)
    (kind' : ServerKind) : ¬ (x.world.sessions s).Holds kind' p := by
  intro hs
  obtain ⟨malloc, r, hi, hv, hp⟩ := hc
  obtain ⟨j, hj, hpj, hfree⟩ := h.placed s kind' p hs
  -- a held slot is in its table and not free, so no creation takes it
  have hnew := newIndex_lt_of_not_full (h.control.tables.count_le kind)
    fun hfull => hroom ⟨malloc, kind, r, hi, hv, hfull⟩
  have hmax : j < maxServers := Nat.lt_of_lt_of_le hj (h.control.tables.count_le kind')
  obtain ⟨rfl, hjn⟩ := slot_inj hmax hnew (hpj.symm.trans hp)
  rw [hjn] at hj
  exact hfree (hp ▸ newIndex_free hj)

/-- **A step of another process** that creates no server in a full table. -/
theorem other (h : x.Sound) {i : ControlInput L} (hi : i.ofSessions = false)
    (hroom : ¬ Overfills x.control i) {c : Control L}
    (hstep : (controlMachine L).step x.control i = some c) : (x.withControl c).Sound where
  owned :=
    h.owned.updateSys (f := fun s => { s with chooser := c.chooser }) (fun _ ho => ⟨ho, rfl⟩) rfl
  control := h.control.step hi hroom hstep
  exact := by
    intro p
    show (c.balancer.servers p).c = x.world.holders p
    rw [← h.exact p]
    cases control_slot hi hstep p with
    | kept same hc => exact hc
    | created kind hcreate id hc lt =>
        rw [hc, h.c_eq_zero (h.not_holds_of_creates hroom hcreate)]
    | released hr zeroed =>
        obtain ⟨-, -, kind, j, -, -, hd⟩ := hr
        rw [zeroed]
        exact hd.2.symm
  placed := by
    intro s kind p hs
    obtain ⟨j, hj, hp, hfree⟩ := h.placed s kind p hs
    have hpos := h.pos_of_holds hs
    -- a server with a connection is not drained
    have hnot : ¬ (x.control.balancer.servers p).Drained := fun hd => by
      have hzero : (x.balancer.servers p).c = 0 := hd.2
      omega
    have hlt : j < c.balancer.count kind := lt_count_step hstep hj (by
      unfold table
      rw [← hp]
      exact hnot)
    refine ⟨j, hlt, hp, ?_⟩
    show (c.balancer.servers p).status ≠ .free
    cases control_slot hi hstep p with
    | kept same hc completed status live => exact status hfree
    | created kind' hcreate => exact absurd hs (h.not_holds_of_creates hroom hcreate s kind)
    | released hr zeroed =>
        obtain ⟨-, -, kind, j, -, -, hd⟩ := hr
        exact absurd hd hnot
  idle := h.idle

/-- **Good steps keep the invariant.** -/
theorem step (h : x.Sound) {i : ServiceInput n L} (hroom : ¬ ServiceInput.Overfills x i)
    (hleft : ¬ ServiceInput.HitsLeftover x i) (hstep : (serviceMachine n L).step x i = some y) :
    y.Sound := by
  rcases serviceMachine_cases hstep with ⟨e, env, w, rfl, hw, rfl⟩ | ⟨j, hj, c, rfl, hc, rfl⟩
  · exact h.event hleft hw
  · exact h.other hj hroom hc

end Service.Sound

/-- A step that creates no server in a full table and hits no leftover. -/
def ServiceInput.Safe [IntCast L] (x : Service n L) (i : ServiceInput n L) : Prop :=
  ¬ i.Overfills x ∧ ¬ i.HitsLeftover x

instance [IntCast L] (x : Service n L) (i : ServiceInput n L) : Decidable (i.Safe x) := by
  unfold ServiceInput.Safe
  infer_instance

/-- The invariant in all states of a run. -/
theorem Service.Sound.states [LoadArith L] {x : Service n L} (h : x.Sound)
    {inputs : List (ServiceInput n L)}
    (hsafe : ∀ v ∈ (serviceMachine n L).visits x inputs, v.2.Safe v.1) :
    ∀ y ∈ (serviceMachine n L).states x inputs, y.Sound :=
  (serviceMachine n L).states_invariant_of_visits
    (fun _ i _ hs (hgood : i.Safe _) hstep => hs.step hgood.1 hgood.2 hstep) h hsafe

/-! ## Samples -/

/-- One session, the listener at descriptor 3, and no server. -/
def sampleService : Service 1 ℤ where
  world :=
    { sampleWorld with sys := { sampleWorld.sys with chooser := sampleControl.chooser } }
  tools := sampleControl.tools
  probe := sampleControl.probe

theorem start_sampleService : sampleService.Start where
  world := ⟨fun _ => rfl, fun _ => rfl, fun _ => rfl, rfl, fun _ => rfl⟩
  control := initial_sampleControl

/-- The configuration reader comes to the end of server sections for members. -/
def memberSections (k : ℕ) (r : CreateRequest ℤ) : List (ServiceInput 1 ℤ) :=
  List.replicate k (.other (.section true .member r) rfl)

/-- The service with `k` disabled members. -/
def crowdedService (k : ℕ) : Service 1 ℤ := sampleService.withControl (crowded disabledRequest k)

/-- After their sections. -/
theorem run_memberSections {k : ℕ} (hk : k ≤ 2 * maxServers) :
    (serviceMachine 1 ℤ).run sampleService (memberSections k disabledRequest)
      = some (crowdedService k) := by
  induction k with
  | zero => rfl
  | succ k ih =>
      have hstep : (serviceMachine 1 ℤ).step (crowdedService k)
          (.other (.section true .member disabledRequest) rfl) = some (crowdedService (k + 1)) :=
        congrArg (Option.map (crowdedService k).withControl)
          (step_crowded (by decide) (by decide) hk)
      rw [memberSections, List.replicate_succ', Machine.run_append]
      change ((serviceMachine 1 ℤ).run sampleService (memberSections k disabledRequest)).bind _ = _
      rw [ih (Nat.le_of_succ_le hk), Option.bind_some, Machine.run_cons_of_step _ hstep]
      rfl

/-- A client connects, with descriptor 5. -/
def clientComes : ServiceInput 1 ℤ := .event ⟨3, true, false, false, false⟩ (sampleEventEnv .error)

/-- It hangs up. -/
def clientGoes : ServiceInput 1 ℤ := .event ⟨5, false, false, false, true⟩ (sampleEventEnv .error)

/-- Deleted servers are given back. -/
def slotsReleased : ServiceInput 1 ℤ := .other .release rfl

/-- A clone is created. -/
def cloneCreated : ServiceInput 1 ℤ := .other (.command 0 (.create [99] [98] (some 2) 80 true)) rfl

end OctopusLB
