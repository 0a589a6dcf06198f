/-
# Which servers get new connections

Connections are made in the accept branch alone, so what a choice of server
guarantees holds of every new connection in every interleaving of the service in
which events are delivered for registered descriptors only and no server is
created in a full table:

* `newConnections_admitted`: a session that is connected to a server by a step was
  not in use, and the server was in its table, enabled and below its limit;
* `connections_within_limit_iff`: no server has more connections than its `maxc`,
  in exactly the runs in which `maxc` is never set below the current count;
* `deleted_drains`: a deleted server gets no new connection, keeps the old ones
  until their sessions end, and is given back by the next pass after that.
-/
import OctopusLB.Accounting
import OctopusLB.SlotReuse

namespace OctopusLB

open Balancer

variable {n : ℕ} {L : Type}

/-! ## What an event leaves of a server -/

section Fields

variable [LoadArith L] {α : Type*}

/-- A field of servers that neither sessions nor choices write. -/
def Server.Fixed (g : Server L → α) : Prop :=
  ∀ s k u b r h, g { s with c := k, completedC := u, bsent := b, brecv := r,
                            hashTableUsage := h } = g s

theorem field_moves {loose : ServerKind → Prop} {slots : ServerKind → ℕ → Prop} {x y : Ctx n L}
    (h : Moves loose slots x y) {g : Server L → α} (hg : Server.Fixed g) (p : ℕ) :
    g (y.serverAt p) = g (x.serverAt p) := by
  refine chooser_moves (I := fun c => g (c.balancer.servers p) = g (x.serverAt p)) ?_ ?_ h rfl
  · intro c c' hc hx
    exact (hc.field g (fun s k u b r => hg s k u b r s.hashTableUsage) p).trans hx
  · intro buf c c' code hc hx
    have hb := sameButHash_chooseCandidate hc
    exact (hb.field g (fun s h => hg s s.c s.completedC s.bsent s.brecv h) p).trans hx

/-- What an event leaves of the servers. -/
theorem field_turn {w w' : World n L} (h : Turn w w') {g : Server L → α} (hg : Server.Fixed g)
    (p : ℕ) : g (w'.sys.chooser.balancer.servers p) = g (w.sys.chooser.balancer.servers p) := by
  cases h with
  | quiet hs hh hc => rw [hc]
  | served s y hmoves => exact field_moves hmoves hg p
  | accepted s y fd env hin hmoves hy => exact field_moves hmoves hg p

end Fields

/-! ## New connections -/

namespace Service

/-- A server that a session may be connected to: it is in its table and eligible,
and a standby member only if no other member is eligible. -/
structure Admits (x : Service n L) (kind : ServerKind) (p : ℕ) : Prop where
  placed : ∃ i < x.balancer.count kind, p = slot kind i
  eligible : Eligible x.balancer.overloadMode (x.balancer.servers p)
  standby : kind = .member → (x.balancer.servers p).standbyState = true →
    ∀ j < x.balancer.nmembers, Eligible x.balancer.overloadMode (x.balancer.members j) →
      (x.balancer.members j).standbyState = true

/-- The step from `x` to `y` connects the session to the server in slot `p`. -/
def NewHolder (x y : Service n L) (s : Fin n) (kind : ServerKind) (p : ℕ) : Prop :=
  ¬ (x.world.sessions s).Holds kind p ∧ (y.world.sessions s).Holds kind p

end Service

namespace Service.Sound

variable {x y : Service n L}

/-- A session has at most one connection to a server. -/
theorem held_le_one (h : x.Sound) (s : Fin n) (p : ℕ) : (x.world.sessions s).held p ≤ 1 := by
  by_contra hmany
  obtain ⟨kind, hs⟩ := Session.holds_of_held_ne_zero (s := x.world.sessions s) (p := p) (by omega)
  obtain ⟨i, hi, rfl, -⟩ := h.placed s kind p hs
  have hone := h.held_slot s kind (Nat.lt_of_lt_of_le hi (h.control.tables.count_le kind))
  rw [if_pos hs] at hone
  omega

variable [LoadArith L]

/-- **A slot that may be chosen** is that of a server that is admitted. -/
theorem admits_of_chosenSlot (h : x.Sound) {buf : List UInt8} {kind : ServerKind} {p : ℕ}
    (hp : ChosenSlot buf x.world.sys.chooser kind p) : x.Admits kind p := by
  obtain ⟨i, hi, heq, -⟩ := h.control.of_chosenSlot hp
  obtain ⟨c, hc, hslot⟩ := hp
  have hok := h.control.hash.table.membersOk h.control.hash.cursor
  have hb := sameButHash_chooseCandidate hc
  cases kind with
  | member =>
      obtain ⟨-, ⟨hne, -⟩ | ⟨-, hsound⟩⟩ := chooseCandidate_cases hok hc
      · exact absurd rfl hne
      have hs : SoundMember x.balancer c.nextMember := hsound.of_sameButHash hb
      obtain rfl : p = memberSlot c.nextMember := hslot
      exact ⟨⟨i, hi, heq⟩, hs.eligible, fun _ => hs.standby⟩
  | clone =>
      obtain ⟨huse, rfl⟩ := hslot
      have hready := cloneReady_of_choice (h.control.tables.tableOk .clone) h.control.cursor
        hok.hash_lt hc
      have he := (hb.eligible_iff _).mp (hready.next_eligible huse)
      exact ⟨⟨i, hi, heq⟩, he, nofun⟩

/-- **An event connects** a session only if it was not in use, and only to a server
that is admitted. -/
theorem admits_event (h : x.Sound) {e : Event} {env : EventEnv n} {w : World n L}
    (hleft : ¬ ServiceInput.HitsLeftover x (.event e env))
    (hw : processEvent e env x.world = some w) {s : Fin n} {kind : ServerKind} {p : ℕ}
    (hnew : x.NewHolder { x with world := w } s kind p) :
    (x.world.histories s).inUse = false ∧ x.Admits kind p := by
  obtain ⟨hnot, hs⟩ := hnew
  change (w.sessions s).Holds kind p at hs
  cases turn_of_event h.owned (fun t ht hl => hleft ⟨t, ht, hl⟩) hw with
  | quiet hsessions =>
      rw [hsessions] at hs
      exact absurd hs hnot
  | served t y hmoves =>
      have hsid : y.sid = t := (frame_moves hmoves).sid
      by_cases hst : s = t
      · subst hst
        rw [World.sessions_put_of_sid _ hsid] at hs
        rcases holds_moves (h.owned.ok s) (h.owned.owns s) hmoves hs with hx | hslot
        · exact absurd hx hnot
        · exact hslot.elim
      · rw [World.sessions_put_of_ne _ (hsid ▸ hst)] at hs
        exact absurd hs hnot
  | accepted t y fd env hin hmoves hy =>
      have hsid : y.sid = t := (frame_moves hmoves).sid
      by_cases hst : s = t
      · subst hst
        rw [World.sessions_put_of_sid _ hsid] at hs
        rcases holds_moves (h.owned.ok s) (h.owned.owns s) hmoves hs with hx | hslot
        · exact absurd hx hnot
        · exact ⟨hin, h.admits_of_chosenSlot hslot⟩
      · rw [World.sessions_put_of_ne _ (hsid ▸ hst)] at hs
        exact absurd hs hnot

/-- **Every step** connects sessions to admitted servers only. -/
theorem admits_step (h : x.Sound) {i : ServiceInput n L} (hleft : ¬ i.HitsLeftover x)
    (hstep : (serviceMachine n L).step x i = some y) {s : Fin n} {kind : ServerKind} {p : ℕ}
    (hnew : x.NewHolder y s kind p) : (x.world.histories s).inUse = false ∧ x.Admits kind p := by
  rcases serviceMachine_cases hstep with ⟨e, env, w, rfl, hw, rfl⟩ | ⟨j, hj, c, rfl, hc, rfl⟩
  · exact h.admits_event hleft hw hnew
  · exact absurd hnew.2 hnew.1

/-- The connections to a server after an event: no more than before, or one more if
it is admitted. -/
theorem holders_event (h : x.Sound) {e : Event} {env : EventEnv n} {w : World n L}
    (hleft : ¬ ServiceInput.HitsLeftover x (.event e env))
    (hw : processEvent e env x.world = some w) (p : ℕ) :
    w.holders p ≤ x.world.holders p ∨
      (∃ kind, x.Admits kind p) ∧ w.holders p ≤ x.world.holders p + 1 := by
  have hafter : Service.Sound { x with world := w } := h.event hleft hw
  -- one session changes, and it has at most one connection to the server
  have hput : ∀ s y, w = x.world.put y → y.sid = s →
      (∀ kind, y.session.Holds kind p → (x.world.sessions s).Holds kind p ∨ x.Admits kind p) →
      w.holders p ≤ x.world.holders p ∨
        (∃ kind, x.Admits kind p) ∧ w.holders p ≤ x.world.holders p + 1 := by
    intro s y hwy hsid hor
    have hsum := x.world.holders_put y p
    rw [← hwy, hsid] at hsum
    have hone : (w.sessions s).held p ≤ 1 := hafter.held_le_one s p
    rw [hwy, World.sessions_put_of_sid _ hsid] at hone
    by_cases hzero : y.session.held p = 0
    · exact Or.inl (by omega)
    · obtain ⟨kind, hs⟩ := Session.holds_of_held_ne_zero hzero
      rcases hor kind hs with hx | hadmits
      · have hpos := Session.held_pos hx
        exact Or.inl (by omega)
      · exact Or.inr ⟨⟨kind, hadmits⟩, by omega⟩
  cases turn_of_event h.owned (fun t ht hl => hleft ⟨t, ht, hl⟩) hw with
  | quiet hsessions =>
      refine Or.inl (le_of_eq ?_)
      unfold World.holders
      rw [hsessions]
  | served s y hmoves =>
      refine hput s y rfl (frame_moves hmoves).sid fun kind hs => ?_
      exact (holds_moves (h.owned.ok s) (h.owned.owns s) hmoves hs).imp_right False.elim
  | accepted s y fd env hin hmoves hy =>
      refine hput s y rfl (frame_moves hmoves).sid fun kind hs => ?_
      exact (holds_moves (h.owned.ok s) (h.owned.owns s) hmoves hs).imp_right
        h.admits_of_chosenSlot

end Service.Sound

section Run

variable [LoadArith L] {x : Service n L} {inputs : List (ServiceInput n L)}

/-- Where events are delivered for registered descriptors only and no server is created
in a full table, every step is a safe step from a sound state. -/
theorem sound_safe (hx : x.Start)
    (hdelivered : ∀ v ∈ (serviceMachine n L).visits x inputs, v.2.Delivered v.1)
    (hroom : ∀ v ∈ (serviceMachine n L).visits x inputs, ¬ v.2.Overfills v.1) :
    ∀ v ∈ (serviceMachine n L).visits x inputs, v.1.Sound ∧ v.2.Safe v.1 := by
  intro v hv
  obtain ⟨hsound, hregistered⟩ := sound_registered hx hdelivered hroom v.1
    ((serviceMachine n L).mem_states_of_mem_visits hv)
  exact ⟨hsound, hroom v hv, not_hitsLeftover hregistered (hdelivered v hv)⟩

/-- **New connections.**  In every run from the start in which events are delivered
for registered descriptors only and no server is created in a full table, whatever a
step connects was admitted before it: a session that was not in use, and a server of
its table that was enabled and below its limits. -/
theorem newConnections_admitted (hx : x.Start)
    (hdelivered : ∀ v ∈ (serviceMachine n L).visits x inputs, v.2.Delivered v.1)
    (hroom : ∀ v ∈ (serviceMachine n L).visits x inputs, ¬ v.2.Overfills v.1) :
    ∀ v ∈ (serviceMachine n L).visits x inputs, ∀ y, (serviceMachine n L).step v.1 v.2 = some y →
      ∀ s kind p, v.1.NewHolder y s kind p →
        (v.1.world.histories s).inUse = false ∧ v.1.Admits kind p := by
  intro v hv y hstep s kind p hnew
  obtain ⟨hsound, hsafe⟩ := sound_safe hx hdelivered hroom v hv
  exact hsound.admits_step hsafe.2 hstep hnew

end Run

/-! ## The limit of a server -/

/-- No server has more connections than its limit; one below zero is as good as
zero. -/
def Service.WithinLimits (x : Service n L) : Prop :=
  ∀ p, (x.world.holders p : ℤ) ≤ max 0 (x.balancer.servers p).maxc

/-- A `maxc` command reaches a server that has more connections than it allows. -/
def LowersLimit (x : Control L) : ControlInput L → Prop
  | .command tool (.maxc type id value) => ∃ p, Targets type id x.balancer (x.tools tool) p ∧
      max 0 value < (x.balancer.servers p).c
  | _ => False

/-- The same for a step of the service. -/
def ServiceInput.LowersLimit (x : Service n L) : ServiceInput n L → Prop
  | .event _ _ => False
  | .other i _ => OctopusLB.LowersLimit x.control i

/-- A single target can be looked up. -/
instance (type id : List UInt8) (b : Balancer L) (t : AdminTool) (value : ℤ) :
    Decidable (∃ p, Targets type id b t p ∧ max 0 value < (b.servers p).c) :=
  decidable_of_iff ((setSubject type id false b t).2 ≠ none ∧
      ((setSubject type id false b t).1.subject.any fun p =>
        decide (max 0 value < (b.servers p).c)) = true) <| by
    rw [Option.any_eq_true]
    exact ⟨fun ⟨hl, p, hp, hc⟩ => ⟨p, ⟨hl, hp⟩, of_decide_eq_true hc⟩,
      fun ⟨p, ⟨hl, hp⟩, hc⟩ => ⟨hl, p, hp, decide_eq_true hc⟩⟩

instance (x : Control L) (i : ControlInput L) : Decidable (OctopusLB.LowersLimit x i) := by
  unfold LowersLimit
  split <;> infer_instance

instance (x : Service n L) (i : ServiceInput n L) : Decidable (i.LowersLimit x) := by
  unfold ServiceInput.LowersLimit
  split <;> infer_instance

section Limit

variable [LoadArith L] {x y : Control L} {i : ControlInput L}

/-- A `maxc` command that reaches a slot sets its limit. -/
theorem exists_step_of_maxc {tool p : ℕ} {type id : List UInt8}
    (h : Targets type id x.balancer (x.tools tool) p) (value : ℤ) :
    ∃ y, (controlMachine L).step x (.command tool (.maxc type id value)) = some y ∧
      y.balancer = x.balancer.modifyServer p fun s => { s with maxc := value } := by
  obtain ⟨t, ht⟩ := cmdSingle_of_targets h fun s => { s with maxc := value }
  have hrun : runCommand (.maxc type id value) x.balancer (x.tools tool) = some (t, _) := ht
  refine ⟨_, step_command rfl, ?_⟩
  unfold commandStep
  rw [hrun]
  rfl

/-- A command leaves what `runCommand` makes of the balancer, or crashes and leaves
it as it is. -/
theorem runCommand_of_step {tool : ℕ} {cmd : Command L}
    (h : (controlMachine L).step x (.command tool cmd) = some y) :
    y.balancer = x.balancer ∨
      ∃ t, runCommand cmd x.balancer (x.tools tool) = some (t, y.balancer) := by
  obtain ⟨-, hy⟩ := commandStep_of_step h
  unfold commandStep at hy
  cases hrun : runCommand cmd x.balancer (x.tools tool) with
  | none =>
      rw [hrun] at hy
      rw [← hy]
      exact Or.inl rfl
  | some r =>
      rw [hrun] at hy
      rw [← hy]
      exact Or.inr ⟨r.1, rfl⟩

/-- **What a step does to a limit**: it stays, unless the slot has no connections
afterwards or a `maxc` command reaches it. -/
theorem maxc_step (hi : i.ofSessions = false) (hstep : (controlMachine L).step x i = some y)
    (p : ℕ) : (y.balancer.servers p).maxc = (x.balancer.servers p).maxc ∨
      (y.balancer.servers p).c = 0 ∨
      ∃ tool type id value, i = .command tool (.maxc type id value) ∧
        Targets type id x.balancer (x.tools tool) p ∧ (y.balancer.servers p).maxc = value := by
  cases control_cases hstep with
  | same => exact Or.inl rfl
  | created i malloc kind r tools hc =>
      rcases createBalancerServer_cases malloc kind r x.balancer with ⟨-, heq, -⟩ | ⟨-, -, hw⟩
      · exact Or.inl (congrArg (fun b => (b.servers p).maxc) heq)
      · by_cases hp : p = slot kind (newIndex kind x.balancer)
        · exact Or.inr (Or.inl (hp ▸ congrArg Server.c hw.written))
        · exact Or.inl (congrArg Server.maxc (hw.others p hp))
  | edited tool cmd b tools hc he =>
      by_cases hm : ∃ type id value, cmd = .maxc type id value
      · -- a `maxc` command edits the slot that it reaches
        obtain ⟨type, id, value, rfl⟩ := hm
        by_cases htarget : Targets type id x.balancer (x.tools tool) p
        · obtain ⟨y', hstep', hb⟩ := exists_step_of_maxc htarget value
          obtain rfl := Option.some.inj (hstep.symm.trans hstep')
          refine Or.inr (Or.inr ⟨tool, type, id, value, rfl, htarget, ?_⟩)
          rw [hb, servers_modifyServer_self]
        · refine Or.inl ?_
          rcases runCommand_of_step hstep with heq | ⟨t, hrun⟩
          · rw [heq]
          · rcases cmdSingle_cases hrun with heq | ⟨q, hq, heq⟩
            · rw [heq]
            · have hpq : p ≠ q := by
                rintro rfl
                exact htarget hq
              rw [heq, servers_modifyServer_of_ne _ hpq]
      · have hedit : ServerEdit x.balancer (x.tools tool) p cmd (b.servers p) := he.servers p
        refine Or.inl ?_
        show (b.servers p).maxc = _
        generalize b.servers p = s at hedit
        cases hedit with
        | maxc type id value => exact absurd ⟨type, id, value, rfl⟩ hm
        | _ => rfl
  | released hidle =>
      have hpass := passed_handleDeleteServers x.balancer
      by_cases hp : x.balancer.Releases p
      · exact Or.inr (Or.inl (congrArg Server.c (hpass.zeroed p hp)))
      · exact Or.inl (congrArg Server.maxc (hpass.kept p hp))
  | probing => exact Or.inl rfl
  | judged verdict q hq =>
      refine Or.inl ?_
      show ((finishProbe q verdict x.balancer).servers p).maxc = _
      rcases finishProbe_cases q verdict x.balancer with heq | ⟨alive, mode, -, heq⟩
      · rw [heq]
      · rw [heq]
        refine servers_modifyServer_eq Server.maxc x.balancer q p (verdictServer alive) ?_
        unfold verdictServer
        split_ifs <;> rfl
  | rebalanced q threshold size =>
      have hb := sameButHash_rebalanceHash q threshold size x.balancer
      exact Or.inl (hb.field Server.maxc (fun _ _ => rfl) p)
  | chosen => cases hi
  | counted => cases hi

end Limit

namespace Service.Sound

variable [LoadArith L] {x y : Service n L}

/-- **Good steps keep the limits.** -/
theorem withinLimits_step (h : x.Sound) (hx : x.WithinLimits) {i : ServiceInput n L}
    (hsafe : i.Safe x) (hlowers : ¬ i.LowersLimit x)
    (hstep : (serviceMachine n L).step x i = some y) : y.WithinLimits := by
  obtain ⟨hroom, hleft⟩ := hsafe
  have hy := h.step hroom hleft hstep
  intro p
  have hp := hx p
  rcases serviceMachine_cases hstep with ⟨e, env, w, rfl, hw, rfl⟩ | ⟨j, hj, c, rfl, hc, rfl⟩
  · -- an event leaves the limit, and adds a connection only below it
    have hmaxc : (w.sys.chooser.balancer.servers p).maxc = (x.balancer.servers p).maxc :=
      field_turn (turn_of_event h.owned (fun s hs hl => hleft ⟨s, hs, hl⟩) hw)
        (g := Server.maxc) (fun _ _ _ _ _ _ => rfl) p
    show (w.holders p : ℤ) ≤ max 0 (w.sys.chooser.balancer.servers p).maxc
    rw [hmaxc]
    rcases h.holders_event hleft hw p with hle | ⟨⟨kind, hadmits⟩, hle⟩
    · omega
    · have hc := hadmits.eligible.2.1
      rw [h.exact p] at hc
      omega
  · -- the sessions stay as they are
    show (x.world.holders p : ℤ) ≤ max 0 (c.balancer.servers p).maxc
    rcases maxc_step hj hc p with hmaxc | hzero | ⟨tool, type, id, value, rfl, htarget, hvalue⟩
    · rw [hmaxc]
      exact hp
    · have hcount : (c.balancer.servers p).c = x.world.holders p := hy.exact p
      omega
    · rw [hvalue]
      by_contra hlow
      refine hlowers ⟨p, htarget, ?_⟩
      have hcount : (x.control.balancer.servers p).c = x.world.holders p := h.exact p
      omega

/-- Lowering a limit below the count breaks it. -/
theorem not_withinLimits_of_lowers (h : x.Sound) {i : ServiceInput n L} (hi : i.LowersLimit x) :
    ∃ y, (serviceMachine n L).step x i = some y ∧ ¬ y.WithinLimits := by
  cases i with
  | event e env => exact hi.elim
  | other j hj =>
      cases j with
      | command tool cmd =>
          cases cmd with
          | maxc type id value =>
              obtain ⟨p, htarget, hlow⟩ := hi
              obtain ⟨c, hc, hb⟩ := exists_step_of_maxc htarget value
              refine ⟨x.withControl c, congrArg (Option.map x.withControl) hc, fun hall => ?_⟩
              have hp : (x.world.holders p : ℤ) ≤ max 0 (c.balancer.servers p).maxc := hall p
              have hcount : (x.control.balancer.servers p).c = x.world.holders p := h.exact p
              rw [hb, servers_modifyServer_self] at hp
              change (x.world.holders p : ℤ) ≤ max 0 value at hp
              omega
          | _ => exact hi.elim
      | _ => exact hi.elim

end Service.Sound

/-- **The limit of a server.**  In a run from the start in which events are delivered
for registered descriptors only and no server is created in a full table, no server
ever has more connections than its limit, if and only if no `maxc` command sets a
limit below the connections at that time. -/
theorem connections_within_limit_iff [LoadArith L] {x : Service n L} (hx : x.Start)
    {inputs : List (ServiceInput n L)}
    (hdelivered : ∀ v ∈ (serviceMachine n L).visits x inputs, v.2.Delivered v.1)
    (hroom : ∀ v ∈ (serviceMachine n L).visits x inputs, ¬ v.2.Overfills v.1) :
    (∀ y ∈ (serviceMachine n L).states x inputs, y.WithinLimits)
      ↔ ∀ v ∈ (serviceMachine n L).visits x inputs, ¬ v.2.LowersLimit v.1 := by
  have hall := sound_safe hx hdelivered hroom
  constructor
  · intro hlimits v hv hlowers
    obtain ⟨y, hstep, hnot⟩ := (hall v hv).1.not_withinLimits_of_lowers hlowers
    exact hnot (hlimits y ((serviceMachine n L).mem_states_of_step hv hstep))
  · intro hgood
    have hstart : x.WithinLimits := by
      intro p
      have hzero : x.world.holders p = 0 := Finset.sum_eq_zero fun s _ =>
        Session.held_eq_zero fun kind => by
          rw [hx.world.sessions]
          cases kind <;> rfl
      rw [hzero]
      exact le_max_left _ _
    -- every state that consumes an input is sound
    exact (serviceMachine n L).states_invariant_of_visits
      (fun u i w hu (hi : (u.Sound ∧ i.Safe u) ∧ ¬ i.LowersLimit u) hstep =>
        hi.1.1.withinLimits_step hu hi.1.2 hi.2 hstep) hstart
      fun v hv => ⟨hall v hv, hgood v hv⟩

/-- The only member has room for ten; its limit is lowered to one while one client is
connected, and to zero after that one has gone. -/
def limitLowered : List (ServiceInput 1 ℤ) :=
  memberSections 1 sampleRequest ++ [clientComes, .other (.command 0 (.maxc [109] [48] 1)) rfl,
    clientGoes, .other (.command 0 (.maxc [109] [48] 0)) rfl]

/-- What the runs below are tested for. -/
def deliveredWithRoom (v : Service 1 ℤ × ServiceInput 1 ℤ) : Bool :=
  decide (v.2.Delivered v.1 ∧ ¬ v.2.Overfills v.1)

theorem limits_kept_while_lowered :
    (∀ y ∈ (serviceMachine 1 ℤ).states sampleService limitLowered, y.WithinLimits)
      ↔ ∀ v ∈ (serviceMachine 1 ℤ).visits sampleService limitLowered, ¬ v.2.LowersLimit v.1 := by
  have hgood : ((serviceMachine 1 ℤ).visits sampleService limitLowered).all deliveredWithRoom
      = true := by
    decide +kernel
  have hall := fun v hv => of_decide_eq_true (List.all_eq_true.mp hgood v hv)
  exact connections_within_limit_iff start_sampleService (fun v hv => (hall v hv).1)
    fun v hv => (hall v hv).2

theorem connections_of_limitLowered :
    ((serviceMachine 1 ℤ).run sampleService limitLowered).isSome = true ∧
      ∀ v ∈ (serviceMachine 1 ℤ).visits sampleService limitLowered, ∀ y,
        (serviceMachine 1 ℤ).step v.1 v.2 = some y → ∀ s kind p, v.1.NewHolder y s kind p →
          (v.1.world.histories s).inUse = false ∧ v.1.Admits kind p := by
  have hgood : ((serviceMachine 1 ℤ).visits sampleService limitLowered).all deliveredWithRoom
      = true := by
    decide +kernel
  have hall := fun v hv => of_decide_eq_true (List.all_eq_true.mp hgood v hv)
  exact ⟨by decide +kernel, newConnections_admitted start_sampleService
    (fun v hv => (hall v hv).1) fun v hv => (hall v hv).2⟩

/-! ## Deleted servers -/

namespace Service

/-- A server of the table that is deleted and not being probed. -/
structure Retired (x : Service n L) (kind : ServerKind) (j : ℕ) : Prop where
  lt : j < x.balancer.count kind
  deleted : (x.balancer.table kind j).status = .deleted
  unprobed : x.probe ≠ some (slot kind j)

/-- From `x` to `y` a retired server has stayed one, and sessions have only gone. -/
structure Drains (x y : Service n L) (kind : ServerKind) (j : ℕ) : Prop where
  retired : y.Retired kind j
  same : (x.balancer.table kind j).Same (y.balancer.table kind j)
  fewer : ∀ s, (y.world.sessions s).Holds kind (slot kind j) →
    (x.world.sessions s).Holds kind (slot kind j)

theorem Drains.trans {x y z : Service n L} {kind : ServerKind} {j : ℕ} (h : x.Drains y kind j)
    (h' : y.Drains z kind j) : x.Drains z kind j :=
  ⟨h'.retired, h.same.trans h'.same, fun s hs => h.fewer s (h'.fewer s hs)⟩

end Service

/-- A pass of the monitor releases a slot. -/
def ServiceInput.ReleasesAt (x : Service n L) (i : ServiceInput n L) (p : ℕ) : Prop :=
  ∃ j h, i = .other j h ∧ OctopusLB.ReleasesAt x.control j p

namespace Service.Sound

variable [LoadArith L] {x y : Service n L}

/-- **A retired server** stays one until it is released, whatever another process
does. -/
theorem retired_other (h : x.Sound) {kind : ServerKind} {j : ℕ} (hx : x.Retired kind j)
    {i : ControlInput L} (hi : i.ofSessions = false) (hroom : ¬ Overfills x.control i)
    {c : Control L} (hstep : (controlMachine L).step x.control i = some c)
    (hrelease : ¬ OctopusLB.ReleasesAt x.control i (slot kind j)) :
    (x.withControl c).Retired kind j ∧
      (x.balancer.table kind j).Same (c.balancer.table kind j) := by
  have hmax := Nat.lt_of_lt_of_le hx.lt (h.control.tables.count_le kind)
  have hne : (x.balancer.table kind j).status ≠ .free := by
    rw [hx.deleted]
    nofun
  cases control_slot hi hstep (slot kind j) with
  | kept same hc completed status live =>
      -- not live before and not probed, so not live now
      have hdead : ¬ (c.balancer.table kind j).Live := fun hl => (live hl).elim
        (fun hl' => hl'.2 hx.deleted) hx.unprobed
      have hdeleted : (c.balancer.table kind j).status = .deleted := by
        by_contra hd
        exact hdead ⟨status hne, hd⟩
      refine ⟨⟨?_, hdeleted, fun hp => ?_⟩, same⟩
      · by_cases hr : i = .release
        · subst hr
          cases control_cases hstep with
          | same => exact hx.lt
          | released hidle =>
              refine (passed_handleDeleteServers x.balancer).count_lt kind j hx.lt fun hd => ?_
              exact hrelease ⟨rfl, hidle, kind, j, hx.lt, rfl, hd⟩
          | created i malloc kind' r tools hcreation => cases hcreation
        · exact Nat.lt_of_lt_of_le hx.lt (count_le_step hstep hr kind)
      · rcases probe_step hstep with ⟨hsame, -⟩ | hnone | ⟨kind', k, hk, hp', hprobed⟩
        · exact hx.unprobed (hsame.symm.trans hp)
        · exact absurd (hnone.symm.trans hp) nofun
        · -- only live servers are probed
          have hcount := (h.control.step hi hroom hstep).tables.count_le kind'
          obtain ⟨rfl, rfl⟩ := slot_inj (Nat.lt_of_lt_of_le hk hcount) hmax
            (Option.some.inj (hp'.symm.trans hp))
          exact hdead (Server.live_of_probed hprobed)
  | created kind' hcreate =>
      obtain ⟨malloc, r, hc, hv, hp⟩ := hcreate
      have hnew := newIndex_lt_of_not_full (h.control.tables.count_le kind')
        fun hfull => hroom ⟨malloc, kind', r, hc, hv, hfull⟩
      obtain ⟨rfl, hjn⟩ := slot_inj hmax hnew hp
      have hlt := hx.lt
      rw [hjn] at hlt hne
      exact absurd (newIndex_free hlt) hne
  | released hr zeroed => exact absurd hr hrelease

/-- **One step** of a retired server. -/
theorem drains_step (h : x.Sound) {kind : ServerKind} {j : ℕ} (hx : x.Retired kind j)
    {i : ServiceInput n L} (hsafe : i.Safe x) (hrelease : ¬ i.ReleasesAt x (slot kind j))
    (hstep : (serviceMachine n L).step x i = some y) : x.Drains y kind j := by
  obtain ⟨hroom, hleft⟩ := hsafe
  have hfewer : ∀ s, (y.world.sessions s).Holds kind (slot kind j) →
      (x.world.sessions s).Holds kind (slot kind j) := by
    intro s hs
    by_contra hnot
    -- a server that is admitted is enabled
    have hstatus := (h.admits_step hleft hstep ⟨hnot, hs⟩).2.eligible.1
    exact absurd (hx.deleted.symm.trans hstatus) nofun
  rcases serviceMachine_cases hstep with ⟨e, env, w, rfl, hw, rfl⟩ | ⟨k, hk, c, rfl, hc, rfl⟩
  · obtain ⟨hcount, hslot⟩ :=
      tables_of_turn (turn_of_event h.owned (fun t ht hl => hleft ⟨t, ht, hl⟩) hw)
    refine ⟨⟨?_, (hslot _).2.trans hx.deleted, hx.unprobed⟩, (hslot _).1, hfewer⟩
    show j < w.sys.chooser.balancer.count kind
    rw [hcount]
    exact hx.lt
  · obtain ⟨hretired, hsame⟩ := h.retired_other hx hk hroom hc fun hr =>
      hrelease ⟨k, hk, rfl, hr⟩
    exact ⟨hretired, hsame, hfewer⟩

/-- **A pass releases** a retired server exactly if no session is connected to it. -/
theorem released_iff (h : x.Sound) {kind : ServerKind} {j : ℕ} (hx : x.Retired kind j)
    (hidle : x.probe = none) : ∃ y, (serviceMachine n L).step x (.other .release rfl) = some y ∧
      ((y.balancer.table kind j).status = .free ↔ x.Unheld (slot kind j)) := by
  have hpass : (controlMachine L).step x.control .release
      = some (x.control.withBalancer (handleDeleteServers x.balancer)) := if_pos hidle
  refine ⟨_, congrArg (Option.map x.withControl) hpass, ?_⟩
  have hexact := h.passExact (y := x.withControl (x.control.withBalancer
    (handleDeleteServers x.balancer))) (passed_handleDeleteServers x.balancer)
  constructor
  · intro hfree
    by_contra hheld
    have hmax := Nat.lt_of_lt_of_le hx.lt (h.control.tables.count_le kind)
    have hkept := (hexact.kept kind j hmax fun hr => hheld hr.unheld).1
    rw [hkept, hx.deleted] at hfree
    cases hfree
  · intro hunheld
    rw [hexact.released kind j ⟨hx.lt, hx.deleted, hunheld⟩]
    rfl

end Service.Sound

/-- **Deleted servers drain.**  In every run from the start in which events are
delivered for registered descriptors only and no server is created in a full table:
once a server has been deleted while it was not being probed, it stays deleted and
gets no new session until it is released, and a pass of the monitor releases it
exactly if no session is connected to it any more. -/
theorem deleted_drains [LoadArith L] {x y : Service n L} (hx : x.Start)
    {before during : List (ServiceInput n L)}
    (hdelivered : ∀ v ∈ (serviceMachine n L).visits x (before ++ during), v.2.Delivered v.1)
    (hroom : ∀ v ∈ (serviceMachine n L).visits x (before ++ during), ¬ v.2.Overfills v.1)
    (hbefore : (serviceMachine n L).run x before = some y) {kind : ServerKind} {j : ℕ}
    (hy : y.Retired kind j)
    (hduring : ∀ v ∈ (serviceMachine n L).visits y during, ¬ v.2.ReleasesAt v.1 (slot kind j)) :
    ∀ z ∈ (serviceMachine n L).states y during, y.Drains z kind j ∧
      (z.probe = none → ∃ u, (serviceMachine n L).step z (.other .release rfl) = some u ∧
        ((u.balancer.table kind j).status = .free ↔ z.Unheld (slot kind j))) := by
  have hsafe := sound_safe hx hdelivered hroom
  rw [(serviceMachine n L).visits_append hbefore] at hsafe
  have hsound : y.Sound := (Service.Sound.start hx).states
    (fun v hv => (hsafe v (List.mem_append_left _ hv)).2) y
    ((serviceMachine n L).mem_states_of_run hbefore)
  have hall : ∀ z ∈ (serviceMachine n L).states y during, z.Sound ∧ y.Drains z kind j :=
    (serviceMachine n L).states_invariant_of_visits
      (fun z i u (hz : z.Sound ∧ y.Drains z kind j)
        (hi : i.Safe z ∧ ¬ i.ReleasesAt z (slot kind j)) hstep =>
        ⟨hz.1.step hi.1.1 hi.1.2 hstep,
          hz.2.trans (hz.1.drains_step hz.2.retired hi.1 hi.2 hstep)⟩)
      ⟨hsound, hy, .refl _, fun _ => id⟩
      (fun v hv => ⟨(hsafe v (List.mem_append_right _ hv)).2, hduring v hv⟩)
  exact fun z hz => ⟨(hall z hz).2, (hall z hz).1.released_iff (hall z hz).2.retired⟩

/-- The only member is deleted while a client is connected to it. -/
def memberDeleted : List (ServiceInput 1 ℤ) := deletedInUse.take 3

/-- Its slot is retired. -/
def firstRetired (y : Service 1 ℤ) : Bool :=
  decide (0 < y.balancer.nmembers ∧ (y.balancer.members 0).status = .deleted ∧ y.probe = none)

theorem deleted_member_drains : ∃ y, (serviceMachine 1 ℤ).run sampleService memberDeleted = some y ∧
    ∀ z ∈ (serviceMachine 1 ℤ).states y [clientGoes], y.Drains z .member 0 ∧
      (z.probe = none → ∃ u, (serviceMachine 1 ℤ).step z (.other .release rfl) = some u ∧
        ((u.balancer.table .member 0).status = .free ↔ z.Unheld (slot .member 0))) := by
  have hgood : ((serviceMachine 1 ℤ).visits sampleService (memberDeleted ++ [clientGoes])).all
      deliveredWithRoom = true := by
    decide +kernel
  have hall := fun v hv => of_decide_eq_true (List.all_eq_true.mp hgood v hv)
  have htest : ((serviceMachine 1 ℤ).run sampleService memberDeleted).any firstRetired = true := by
    decide +kernel
  obtain ⟨y, hy, hcond⟩ := (Option.any_eq_true _ _).mp htest
  obtain ⟨hlt, hdeleted, hidle⟩ := of_decide_eq_true hcond
  have hretired : y.Retired .member 0 := ⟨hlt, hdeleted, by rw [hidle]; nofun⟩
  refine ⟨y, hy, deleted_drains start_sampleService (fun v hv => (hall v hv).1)
    (fun v hv => (hall v hv).2) hy hretired ?_⟩
  rintro v hv ⟨i, hi, heq, -⟩
  have hlast := (serviceMachine 1 ℤ).mem_of_mem_visits hv
  rw [List.mem_singleton, heq] at hlast
  cases hlast

end OctopusLB
