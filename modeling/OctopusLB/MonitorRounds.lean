/-
# The monitor process beside the service (`initialize_monitor`)

The loop of the monitor, step by step, in a build with or without SNMP, while the
sessions, the admin processes and the configuration go on.  A step of the monitor is
what it does up to the next place where another process may come in: the sleep, the
`select` of a health check, and before each `check_server_snmp`.  `check_server_snmp`
itself is one step: nobody comes in between its test of the status and what it writes.

`Watched.goOn_check`: the steps of a check, if nobody comes in between, are
`check_server_state`.  `Watched.goOn_follows`: a step of the monitor is a step of the
service, or it writes loads.  So what holds of the service in every run holds with this
monitor (`watched_sound`).
-/
import OctopusLB.Admission
import OctopusLB.EffectiveLoad
import OctopusLB.Probe
import OctopusLB.RebalanceSchedule

namespace OctopusLB

open Balancer

variable {n : ℕ} {L : Type}

/-! ## The end of a health check -/

/-- `check_server_state` after the test of the status. -/
def finishCheck [IntCast L] (env : ProbeEnv) (p : ℕ) (m : Prober L) : Prober L × ℤ :=
  match env.created m with
  | none => (m, -1)
  | some serverfd =>
      let opened := { m with isOpen := Function.update m.isOpen serverfd true }
      if !env.nonblock then (opened, -1)
      else if !env.nodelay then (opened, -1)
      else if env.Connects then
        ({ balancer := judge env p m.balancer
           isOpen := Function.update opened.isOpen serverfd false }, 0)
      else (opened, 0)

theorem checkServerState_eq [IntCast L] (env : ProbeEnv) (p : ℕ) (m : Prober L) :
    checkServerState env p m
      = if (m.balancer.servers p).Probed then finishCheck env p m else (m, 0) :=
  ite_not _ _ _

/-- The check comes to a verdict. -/
def ProbeEnv.Judges (env : ProbeEnv) (m : Prober L) : Prop := env.Configured m ∧ env.Connects

instance (env : ProbeEnv) (m : Prober L) : Decidable (env.Judges m) := by
  unfold ProbeEnv.Judges ProbeEnv.Configured
  infer_instance

/-- **The end of a check**: the verdict, if it comes to one. -/
theorem balancer_finishCheck [IntCast L] (env : ProbeEnv) (p : ℕ) (m : Prober L) :
    (finishCheck env p m).1.balancer
      = finishProbe p (if env.Judges m then some (decide env.Answers) else none) m.balancer := by
  unfold finishCheck
  cases hs : env.created m with
  | none =>
      rw [if_neg fun hj => hj.1.1 hs]
      rfl
  | some serverfd =>
      have hsome : env.created m ≠ none := by
        rw [hs]
        exact Option.some_ne_none _
      dsimp only
      by_cases hblock : env.nonblock = true
      · by_cases hdelay : env.nodelay = true
        · rw [hblock, hdelay, Bool.not_true, if_neg Bool.false_ne_true, if_neg Bool.false_ne_true]
          by_cases hc : env.Connects
          · rw [if_pos hc, if_pos ⟨⟨hsome, hblock, hdelay⟩, hc⟩]
            exact judge_eq hc _ _
          · rw [if_neg hc, if_neg fun hj => hc hj.2]
            rfl
        · rw [if_neg fun hj : env.Judges m => hdelay hj.1.2.2, hblock,
            Bool.eq_false_of_not_eq_true hdelay]
          rfl
      · rw [if_neg fun hj : env.Judges m => hblock hj.1.2.1, Bool.eq_false_of_not_eq_true hblock]
        rfl

/-! ## The load of a server (`check_server_snmp`) -/

/-- What the SNMP library returns: whether the session opens, whether the agent answers
without an error, and the variables of the answer, with the text of those that are octet
strings. -/
structure SnmpEnv where
  opened : Bool
  success : Bool
  vars : List (Option (List UInt8))

/-- `SNMP_LOAD_FAILED`. -/
def snmpLoadFailed [IntCast L] : L := ((-2 : ℤ) : L)

/-- The load that one variable of the answer gives. -/
def variableLoad [IntCast L] (build : Build L) (v : Option (List UInt8)) : L :=
  (v.map build.atof).getD snmpLoadFailed

/-- `server->load = ..`. -/
def setLoad (p : ℕ) (load : L) (b : Balancer L) : Balancer L :=
  b.modifyServer p fun s => { s with load := load }

/-- `check_server_snmp`: the last variable decides. -/
def checkServerSnmp [IntCast L] (build : Build L) (env : SnmpEnv) (p : ℕ) (b : Balancer L) :
    Balancer L × ℤ :=
  if (b.servers p).status = .enabled ∨ (b.servers p).status = .disabled then
    if !env.opened then (setLoad p snmpLoadFailed b, -1)
    else if env.success then
      (env.vars.foldl (fun b v => setLoad p (variableLoad build v) b) b, 0)
    else (setLoad p snmpLoadFailed b, 0)
  else (b, 0)

/-- At most the loads of the servers differ. -/
structure SameButLoads (b b' : Balancer L) : Prop where
  servers : ∀ p, b'.servers p
    = { b.servers p with load := (b'.servers p).load, eLoad := (b'.servers p).eLoad }
  rest : b' = { b with servers := b'.servers }

namespace SameButLoads

variable {b b₁ b' : Balancer L}

theorem refl (b : Balancer L) : SameButLoads b b := ⟨fun _ => rfl, rfl⟩

theorem trans (h : SameButLoads b b₁) (h' : SameButLoads b₁ b') : SameButLoads b b' where
  servers := fun p => by rw [h'.servers p, h.servers p]
  rest := by rw [h'.rest, h.rest]

theorem modifyServer (b : Balancer L) (p : ℕ) {f : Server L → Server L}
    (hf : ∀ s, f s = { s with load := (f s).load, eLoad := (f s).eLoad }) :
    SameButLoads b (b.modifyServer p f) := by
  refine ⟨fun q => ?_, rfl⟩
  rw [servers_modifyServer]
  split_ifs
  · exact hf _
  · rfl

/-- A fold of such changes. -/
theorem foldl {ι : Type*} {f : Balancer L → ι → Balancer L} (hf : ∀ b i, SameButLoads b (f b i))
    (l : List ι) (b : Balancer L) : SameButLoads b (l.foldl f b) := by
  induction l generalizing b with
  | nil => exact .refl b
  | cons i l ih => exact (hf b i).trans (ih (f b i))

theorem foldlM {ι : Type*} {f : Balancer L → ι → Option (Balancer L)}
    (hf : ∀ b i b', f b i = some b' → SameButLoads b b') {l : List ι} {b b' : Balancer L}
    (h : l.foldlM f b = some b') : SameButLoads b b' := by
  induction l generalizing b with
  | nil =>
      obtain rfl := Option.some.inj h
      exact .refl b
  | cons i l ih =>
      rw [List.foldlM_cons, Option.bind_eq_bind, Option.bind_eq_some_iff] at h
      obtain ⟨b₁, hstep, hrest⟩ := h
      exact (hf b i b₁ hstep).trans (ih hrest)

/-- A field other than the two loads. -/
theorem field (h : SameButLoads b b') {α : Type*} (g : Server L → α)
    (hg : ∀ s load eLoad, g { s with load := load, eLoad := eLoad } = g s) (p : ℕ) :
    g (b'.servers p) = g (b.servers p) := by
  rw [h.servers p, hg]

theorem count (h : SameButLoads b b') : b'.count = b.count := by
  rw [h.rest]
  funext kind
  cases kind <;> rfl

theorem hashTable (h : SameButLoads b b') : b'.hashTable = b.hashTable := by
  rw [h.rest]

theorem live_iff (h : SameButLoads b b') (p : ℕ) : (b'.servers p).Live ↔ (b.servers p).Live := by
  unfold Server.Live
  rw [h.field Server.status (fun _ _ _ => rfl) p]

end SameButLoads

theorem sameButLoads_setLoad (p : ℕ) (load : L) (b : Balancer L) :
    SameButLoads b (setLoad p load b) :=
  .modifyServer b p fun _ => rfl

theorem sameButLoads_checkServerSnmp [IntCast L] (build : Build L) (env : SnmpEnv) (p : ℕ)
    (b : Balancer L) : SameButLoads b (checkServerSnmp build env p b).1 := by
  unfold checkServerSnmp
  split_ifs
  · exact sameButLoads_setLoad p _ b
  · exact .foldl (fun b v => sameButLoads_setLoad p _ b) _ b
  · exact sameButLoads_setLoad p _ b
  · exact .refl b

theorem sameButLoads_setEffectiveLoad {kind : ServerKind} {b b' : Balancer ℚ} {i : ℕ}
    (h : setEffectiveLoad kind b i = some b') : SameButLoads b b' := by
  obtain ⟨e, -, rfl⟩ := Option.map_eq_some_iff.mp h
  exact SameButLoads.modifyServer b _ fun _ => rfl

/-- `calc_effective_load` writes loads only. -/
theorem sameButLoads_calcEffectiveLoad {b b' : Balancer ℚ} {overall overall' : ℤ}
    (h : calcEffectiveLoad b overall = some (b', overall')) : SameButLoads b b' := by
  obtain ⟨x, hx, h⟩ := Option.bind_eq_some_iff.mp h
  obtain ⟨b₂, hb₂, h⟩ := Option.bind_eq_some_iff.mp h
  have hmembers : (List.range b.nmembers).foldlM (setEffectiveLoad .member) b
      = some x.balancer := by
    rw [← balancer_foldlM_addMember _ ⟨b, 0, 0⟩, hx, Option.map_some]
  have hb : b' = b₂ := by
    split_ifs at h
    · obtain ⟨o, -, heq⟩ := Option.map_eq_some_iff.mp h
      exact (congrArg Prod.fst heq).symm
    · exact (congrArg Prod.fst (Option.some.inj h)).symm
  rw [hb]
  exact (SameButLoads.foldlM (fun _ _ _ => sameButLoads_setEffectiveLoad) hmembers).trans
    (.foldlM (fun _ _ _ => sameButLoads_setEffectiveLoad) hb₂)

/-! ## The loop -/

/-- Where the monitor is in its loop, with the settings that the round has read. -/
inductive MonitorPlace
  | head
  | sleeping (r : RoundSettings)
  /-- at the head of the loop over a table, in `check_server_state`, and in
  `check_server_snmp` -/
  | checking (r : RoundSettings) (kind : ServerKind) (i : ℕ)
  | probing (r : RoundSettings) (kind : ServerKind) (i : ℕ)
  | measuring (r : RoundSettings) (kind : ServerKind) (i : ℕ)
  | calculating (r : RoundSettings)
  | rebalancing (r : RoundSettings)

/-- The service with the monitor: the settings (of whose balancer the service has the
current one), and what the monitor keeps for itself. -/
structure Watched (n : ℕ) where
  service : Service n ℚ
  settings : Shared ℚ
  overallLoad : ℤ
  place : MonitorPlace
  j : ℕ
  isOpen : ℕ → Bool

/-- What the system calls of one step of the monitor return, and the sort that
`rebalance_hash` uses. -/
structure MonitorEnv where
  probe : ProbeEnv
  snmp : SnmpEnv
  sort : QSort ℚ

namespace Watched

/-- The shared memory. -/
def shared (w : Watched n) : Shared ℚ := { w.settings with balancer := w.service.balancer }

/-- The monitor writes to the balancer. -/
def writeBalancer (w : Watched n) (b : Balancer ℚ) : Watched n :=
  { w with service := w.service.withControl (w.service.control.withBalancer b) }

/-- The server that is being probed. -/
def setProbe (w : Watched n) (probe : Option ℕ) : Watched n :=
  { w with service := { w.service with probe := probe } }

/-- From the sleep to the next call of another process's interest. -/
def goOn (build : Build ℚ) (env : MonitorEnv) (w : Watched n) : Option (Watched n) :=
  let b := w.service.balancer
  match w.place with
  | .head =>
      match readSettings w.shared with
      | some r => some { w with place := .sleeping r }
      | none => some w
  | .sleeping r =>
      some { w.writeBalancer (handleDeleteServers b) with place := .checking r .member 0 }
  | .checking r kind i =>
      if i < b.count kind then
        if (b.table kind i).Probed then
          some { w.setProbe (some (slot kind i)) with place := .probing r kind i }
        else some { w with place := .checking r kind (i + 1) }
      else
        match kind with
        | .member => some { w with place := .checking r .clone 0 }
        | .clone =>
            if build.useSnmp = true ∧ w.settings.snmpStatus = .enabled ∧
                w.settings.snmpCommunityPw.isSome = true then
              some { w with place := .measuring r .member 0 }
            else some { w with place := .head }
  | .probing r kind i =>
      let m := (finishCheck env.probe (slot kind i) ⟨b, w.isOpen⟩).1
      some { (w.setProbe none).writeBalancer m.balancer with
        isOpen := m.isOpen
        place := .checking r kind (i + 1) }
  | .measuring r kind i =>
      if i < b.count kind then
        some { w.writeBalancer (checkServerSnmp build env.snmp (slot kind i) b).1 with
          place := .measuring r kind (i + 1) }
      else
        match kind with
        | .member => some { w with place := .measuring r .clone 0 }
        | .clone => some { w with place := .calculating r }
  | .calculating r =>
      (calcEffectiveLoad b w.overallLoad).map fun (b', overall) =>
        { w.writeBalancer b' with overallLoad := overall, place := .rebalancing r }
  | .rebalancing r =>
      if b.algorithm = .hash ∧ 0 < r.hashRebalanceInterval ∧ 0 < r.hashRebalanceThreshold ∧
          0 < r.hashRebalanceSize then
        (countPass r.interval r.monitorInterval w.j).map fun (j, due) =>
          let settings := correctInterval r w.settings
          let b' := if due then
              rebalanceHash env.sort settings.hashRebalanceThreshold settings.hashRebalanceSize b
            else b
          { w.writeBalancer b' with settings := settings, j := j, place := .head }
      else some { w with place := .head }

end Watched

/-- The inputs of the control machine that stand for the monitor. -/
def ControlInput.ofMonitor : ControlInput L → Bool
  | .release | .probe _ _ | .verdict _ | .rebalance _ _ _ => true
  | _ => false

/-- The monitor creates no server. -/
theorem creation_of_monitor {x : Control L} {i : ControlInput L} (h : i.ofMonitor = true) :
    i.creation x = none := by
  cases i <;> first | rfl | cases h

/-- The same for the service. -/
def ServiceInput.ofMonitor : ServiceInput n L → Bool
  | .event _ _ => false
  | .other i _ => i.ofMonitor

/-- One step of the service or of the monitor. -/
inductive WatchedInput (n : ℕ)
  /-- an event, or a step of a process other than the monitor -/
  | service (i : ServiceInput n ℚ) (h : i.ofMonitor = false)
  /-- another process writes settings -/
  | setting (s : Shared ℚ)
  | loop (env : MonitorEnv)

/-- The service with its monitor; the steps of the other processes come between any two
of the monitor's, each of which is atomic. -/
def watchedMachine (n : ℕ) (build : Build ℚ) : Machine (Watched n) (WatchedInput n) where
  step w i :=
    match i with
    | .service i _ => ((serviceMachine n ℚ).step w.service i).map fun x => { w with service := x }
    | .setting s => some { w with settings := s }
    | .loop env => w.goOn build env

/-! ## What a step of the monitor does -/

namespace Watched

/-- The ways on from every place. -/
inductive GoesOn (build : Build ℚ) (env : MonitorEnv) (w : Watched n) : Watched n → Prop
  | waits (h : w.place = .head) : GoesOn build env w w
  | begins (r : RoundSettings) (h : w.place = .head) :
      GoesOn build env w { w with place := .sleeping r }
  | releases (r : RoundSettings) (h : w.place = .sleeping r) :
      GoesOn build env w
        { w.writeBalancer (handleDeleteServers w.service.balancer) with
          place := .checking r .member 0 }
  | probes (r : RoundSettings) (kind : ServerKind) (i : ℕ) (h : w.place = .checking r kind i)
      (hi : i < w.service.balancer.count kind) (hs : (w.service.balancer.table kind i).Probed) :
      GoesOn build env w { w.setProbe (some (slot kind i)) with place := .probing r kind i }
  | passes (r : RoundSettings) (kind : ServerKind) (i : ℕ) (h : w.place = .checking r kind i)
      (hi : i < w.service.balancer.count kind) (hs : ¬ (w.service.balancer.table kind i).Probed) :
      GoesOn build env w { w with place := .checking r kind (i + 1) }
  | turns (r : RoundSettings) (i : ℕ) (h : w.place = .checking r .member i)
      (hi : w.service.balancer.count .member ≤ i) :
      GoesOn build env w { w with place := .checking r .clone 0 }
  | ends (r : RoundSettings) (i : ℕ) (h : w.place = .checking r .clone i)
      (hi : w.service.balancer.count .clone ≤ i) :
      GoesOn build env w { w with place := .head }
  | asks (r : RoundSettings) (i : ℕ) (h : w.place = .checking r .clone i)
      (hi : w.service.balancer.count .clone ≤ i) :
      GoesOn build env w { w with place := .measuring r .member 0 }
  | judges (r : RoundSettings) (kind : ServerKind) (i : ℕ) (h : w.place = .probing r kind i)
      (m : Prober ℚ)
      (hm : m = (finishCheck env.probe (slot kind i) ⟨w.service.balancer, w.isOpen⟩).1) :
      GoesOn build env w
        { (w.setProbe none).writeBalancer m.balancer with
          isOpen := m.isOpen
          place := .checking r kind (i + 1) }
  | measures (r : RoundSettings) (kind : ServerKind) (i : ℕ) (h : w.place = .measuring r kind i)
      (hi : i < w.service.balancer.count kind) (b : Balancer ℚ)
      (hb : SameButLoads w.service.balancer b) :
      GoesOn build env w { w.writeBalancer b with place := .measuring r kind (i + 1) }
  | turnsLoads (r : RoundSettings) (i : ℕ) (h : w.place = .measuring r .member i) :
      GoesOn build env w { w with place := .measuring r .clone 0 }
  | endsLoads (r : RoundSettings) (i : ℕ) (h : w.place = .measuring r .clone i) :
      GoesOn build env w { w with place := .calculating r }
  | calculates (r : RoundSettings) (h : w.place = .calculating r) (b : Balancer ℚ) (overall : ℤ)
      (hb : SameButLoads w.service.balancer b) :
      GoesOn build env w
        { w.writeBalancer b with overallLoad := overall, place := .rebalancing r }
  | counts (r : RoundSettings) (h : w.place = .rebalancing r) (settings : Shared ℚ) (j : ℕ) :
      GoesOn build env w
        { w.writeBalancer w.service.balancer with settings := settings, j := j, place := .head }
  | rebalances (r : RoundSettings) (h : w.place = .rebalancing r) (settings : Shared ℚ) (j : ℕ) :
      GoesOn build env w
        { w.writeBalancer (rebalanceHash env.sort settings.hashRebalanceThreshold
            settings.hashRebalanceSize w.service.balancer) with
          settings := settings
          j := j
          place := .head }
  | skips (r : RoundSettings) (h : w.place = .rebalancing r) :
      GoesOn build env w { w with place := .head }

/-- **Inversion.** -/
theorem goesOn_of_goOn {build : Build ℚ} {env : MonitorEnv} {w w' : Watched n}
    (h : w.goOn build env = some w') : GoesOn build env w w' := by
  unfold goOn at h
  cases hplace : w.place with
  | head =>
      rw [hplace] at h
      dsimp only at h
      cases hr : readSettings w.shared with
      | none =>
          rw [hr] at h
          obtain rfl := Option.some.inj h
          exact .waits hplace
      | some r =>
          rw [hr] at h
          obtain rfl := Option.some.inj h
          exact .begins r hplace
  | sleeping r =>
      rw [hplace] at h
      obtain rfl := Option.some.inj h
      exact .releases r hplace
  | checking r kind i =>
      rw [hplace] at h
      dsimp only at h
      by_cases hi : i < w.service.balancer.count kind
      · rw [if_pos hi] at h
        split_ifs at h with hs
        · obtain rfl := Option.some.inj h
          exact .probes r kind i hplace hi hs
        · obtain rfl := Option.some.inj h
          exact .passes r kind i hplace hi hs
      · rw [if_neg hi] at h
        cases kind with
        | member =>
            obtain rfl := Option.some.inj h
            exact .turns r i hplace (Nat.le_of_not_lt hi)
        | clone =>
            dsimp only at h
            split_ifs at h
            · obtain rfl := Option.some.inj h
              exact .asks r i hplace (Nat.le_of_not_lt hi)
            · obtain rfl := Option.some.inj h
              exact .ends r i hplace (Nat.le_of_not_lt hi)
  | probing r kind i =>
      rw [hplace] at h
      obtain rfl := Option.some.inj h
      exact .judges r kind i hplace _ rfl
  | measuring r kind i =>
      rw [hplace] at h
      dsimp only at h
      by_cases hi : i < w.service.balancer.count kind
      · rw [if_pos hi] at h
        obtain rfl := Option.some.inj h
        exact .measures r kind i hplace hi _ (sameButLoads_checkServerSnmp _ _ _ _)
      · rw [if_neg hi] at h
        cases kind with
        | member =>
            obtain rfl := Option.some.inj h
            exact .turnsLoads r i hplace
        | clone =>
            obtain rfl := Option.some.inj h
            exact .endsLoads r i hplace
  | calculating r =>
      rw [hplace] at h
      obtain ⟨⟨b, overall⟩, hb, rfl⟩ := Option.map_eq_some_iff.mp h
      exact .calculates r hplace b overall (sameButLoads_calcEffectiveLoad hb)
  | rebalancing r =>
      rw [hplace] at h
      dsimp only at h
      split_ifs at h
      · obtain ⟨⟨j, due⟩, -, rfl⟩ := Option.map_eq_some_iff.mp h
        cases due with
        | false => exact .counts r hplace _ j
        | true => exact .rebalances r hplace _ j
      · obtain rfl := Option.some.inj h
        exact .skips r hplace

/-- **The check of a server**, if nobody comes in between, is `check_server_state`, in
one step or two. -/
theorem goOn_check (build : Build ℚ) (env env' : MonitorEnv) {w : Watched n} {r : RoundSettings}
    {kind : ServerKind} {i : ℕ} (hplace : w.place = .checking r kind i)
    (hi : i < w.service.balancer.count kind) :
    ∃ w', (w.goOn build env = some w' ∨
        ∃ v, w.goOn build env = some v ∧ v.goOn build env' = some w') ∧
      w'.place = .checking r kind (i + 1) ∧
      Prober.mk w'.service.balancer w'.isOpen
        = (checkServerState env'.probe (slot kind i) ⟨w.service.balancer, w.isOpen⟩).1 := by
  have hgo : w.goOn build env = if (w.service.balancer.table kind i).Probed then
      some { w.setProbe (some (slot kind i)) with place := .probing r kind i }
      else some { w with place := .checking r kind (i + 1) } := by
    unfold goOn
    rw [hplace]
    exact if_pos hi
  have hcheck := checkServerState_eq env'.probe (slot kind i) ⟨w.service.balancer, w.isOpen⟩
  by_cases hs : (w.service.balancer.table kind i).Probed
  · rw [hcheck.trans (if_pos hs), hgo, if_pos hs]
    exact ⟨_, Or.inr ⟨_, rfl, rfl⟩, rfl, rfl⟩
  · rw [hcheck.trans (if_neg hs), hgo, if_neg hs]
    exact ⟨_, Or.inl rfl, rfl, rfl⟩

end Watched

/-- The server that the monitor waits for. -/
def MonitorPlace.probe : MonitorPlace → Option ℕ
  | .probing _ kind i => some (slot kind i)
  | _ => none

/-- The server that is being probed is the one that the monitor waits for, and in its
table. -/
structure Watched.Placed (w : Watched n) : Prop where
  probe : w.service.probe = w.place.probe
  lt : ∀ r kind i, w.place = .probing r kind i → i < w.service.balancer.count kind

/-- A step of the service by the monitor, none at all, or one that writes loads. -/
inductive Service.Follows (x : Service n ℚ) : Service n ℚ → Prop
  | idle : Follows x x
  | step {y : Service n ℚ} (i : ControlInput ℚ) (hi : i.ofSessions = false)
      (hm : i.ofMonitor = true) (h : (serviceMachine n ℚ).step x (.other i hi) = some y) :
      Follows x y
  | loads (b : Balancer ℚ) (hb : SameButLoads x.balancer b) :
      Follows x (x.withControl (x.control.withBalancer b))

/-- **Simulation.**  The monitor does to the service what its machine allows, and writes
loads. -/
theorem Watched.goOn_follows {build : Build ℚ} {env : MonitorEnv} {w w' : Watched n}
    (hw : w.Placed) (h : w.goOn build env = some w') : w.service.Follows w'.service := by
  have hidle : w.place.probe = none → w.service.control.probe = none :=
    fun hnone => hw.probe.trans hnone
  have hother : ∀ {i : ControlInput ℚ} {c : Control ℚ} (hi : i.ofSessions = false),
      i.ofMonitor = true → controlStep w.service.control i = some c →
        w.service.Follows (w.service.withControl c) :=
    fun hi hm hc => .step _ hi hm (congrArg (Option.map w.service.withControl) hc)
  cases goesOn_of_goOn h with
  | releases r hplace => exact hother (i := .release) rfl rfl (if_pos (hidle (by rw [hplace]; rfl)))
  | probes r kind i hplace hi hs =>
      exact hother (i := .probe kind i) rfl rfl (if_pos ⟨hidle (by rw [hplace]; rfl), hi, hs⟩)
  | judges r kind i hplace m hm =>
      have hprobe : w.service.control.probe = some (slot kind i) := by
        refine Eq.trans hw.probe ?_
        rw [hplace]
        rfl
      rw [hm, balancer_finishCheck]
      exact hother (i := .verdict _) rfl rfl (step_verdict hprobe _)
  | measures r kind i hplace hi b hb => exact .loads b hb
  | calculates r hplace b overall hb => exact .loads b hb
  | rebalances r hplace settings j =>
      exact hother (i := .rebalance env.sort _ _) rfl rfl (if_pos (hidle (by rw [hplace]; rfl)))
  | _ => exact .idle

/-! ## The invariant of the service -/

theorem SameButLoads.memberTable {b b' : Balancer L} (h : SameButLoads b b') (hb : MemberTable b) :
    MemberTable b' := by
  have hid := h.field Server.id fun _ _ _ => rfl
  refine hb.of_members (congrFun h.count .member) h.hashTable
    (fun i _ => h.field Server.hashTableUsage (fun _ _ _ => rfl) _) (fun i _ hs => ?_)
    fun i hi hl => ?_
  · rwa [members, h.field Server.status (fun _ _ _ => rfl)]
  · have hl' := (h.live_iff (memberSlot i)).mp hl
    exact ⟨(hid _).trans (hb.id_eq i hi hl'), hb.past i hi hl'⟩

/-- Loads are written. -/
theorem ControlSound.loads {x : Control L} (h : ControlSound x) {b : Balancer L}
    (hb : SameButLoads x.balancer b) : ControlSound (x.withBalancer b) where
  hash :=
    { table := hb.memberTable h.hash.table
      cursor := h.hash.cursor
      probe := by
        intro i hi hp
        obtain ⟨hlt, hs, hid⟩ := h.hash.probe i hi hp
        have hn : b.nmembers = x.balancer.nmembers := congrFun hb.count .member
        refine ⟨hn.symm ▸ hlt, fun hfree => hs ?_,
          (hb.field Server.id (fun _ _ _ => rfl) _).trans hid⟩
        exact (hb.field Server.status (fun _ _ _ => rfl) _).symm.trans hfree }
  tables := h.tables.of_slots rfl hb.count (hb.field Server.status fun _ _ _ => rfl)
    (hb.field Server.id fun _ _ _ => rfl)
  cursor := h.cursor

theorem Service.Sound.loads {x : Service n L} (h : x.Sound) {b : Balancer L}
    (hb : SameButLoads x.balancer b) : (x.withControl (x.control.withBalancer b)).Sound where
  owned := ⟨h.owned.ok, h.owned.owns, h.owned.listening, h.owned.listener_free, h.owned.idle,
    h.owned.unused⟩
  control := h.control.loads hb
  exact := fun p => (hb.field Server.c (fun _ _ _ => rfl) p).trans (h.exact p)
  placed := by
    intro s kind p hs
    obtain ⟨i, hi, hp, hfree⟩ := h.placed s kind p hs
    refine ⟨i, (congrFun hb.count kind).symm ▸ hi, hp, fun hnow => hfree ?_⟩
    exact (hb.field Server.status (fun _ _ _ => rfl) p).symm.trans hnow
  idle := h.idle

/-! ## Every run -/

/-- When the processes start. -/
structure Watched.Start (w : Watched n) : Prop where
  service : w.service.Start
  place : w.place = .head

/-- An event of a registered descriptor; a server is not created in a full table. -/
def WatchedInput.Good (w : Watched n) : WatchedInput n → Prop
  | .service i _ => i.Delivered w.service ∧ ¬ i.Overfills w.service
  | _ => True

instance (w : Watched n) (i : WatchedInput n) : Decidable (i.Good w) :=
  match i with
  | .service i _ =>
      inferInstanceAs (Decidable (i.Delivered w.service ∧ ¬ i.Overfills w.service))
  | .setting _ => instDecidableTrue
  | .loop _ => instDecidableTrue

/-- What a step can be. -/
theorem watchedMachine_cases {build : Build ℚ} {w w' : Watched n} {i : WatchedInput n}
    (h : (watchedMachine n build).step w i = some w') :
    (∃ j hj x, i = .service j hj ∧ (serviceMachine n ℚ).step w.service j = some x ∧
        w' = { w with service := x }) ∨
      (∃ s, i = .setting s ∧ w' = { w with settings := s }) ∨
        ∃ env, i = .loop env ∧ w.goOn build env = some w' := by
  cases i with
  | service j hj =>
      obtain ⟨x, hx, rfl⟩ := Option.map_eq_some_iff.mp h
      exact Or.inl ⟨j, hj, x, rfl, hx, rfl⟩
  | setting s =>
      obtain rfl := Option.some.inj h
      exact Or.inr (Or.inl ⟨s, rfl, rfl⟩)
  | loop env => exact Or.inr (Or.inr ⟨env, rfl, h⟩)

/-- What the service keeps in every run. -/
structure Watched.Ok (w : Watched n) : Prop where
  sound : w.service.Sound
  registered : w.service.world.Registered
  placed : w.Placed

namespace Watched

variable {build : Build ℚ} {w w' : Watched n}

theorem Start.ok (h : w.Start) : w.Ok where
  sound := .start h.service
  registered := .start h.service.world
  placed := by
    refine ⟨h.service.control.probe.trans ?_, fun r kind i hplace => ?_⟩
    · rw [h.place]
      rfl
    · rw [h.place] at hplace
      cases hplace

/-- Another process does not probe, and shortens no table. -/
theorem tables_of_service {j : ServiceInput n ℚ} {x : Service n ℚ} (hw : w.service.Sound)
    (hj : j.ofMonitor = false) (hleft : ¬ j.HitsLeftover w.service)
    (hx : (serviceMachine n ℚ).step w.service j = some x) :
    x.probe = w.service.probe ∧ ∀ kind, w.service.balancer.count kind ≤ x.balancer.count kind := by
  rcases serviceMachine_cases hx with ⟨e, env, u, rfl, hu, rfl⟩ | ⟨k, hk, c, rfl, hc, rfl⟩
  · have htables := Service.Sound.tables_of_turn
      (turn_of_event hw.owned (fun t ht hl => hleft ⟨t, ht, hl⟩) hu)
    exact ⟨rfl, fun kind => le_of_eq (congrFun htables.1 kind).symm⟩
  · refine ⟨?_, count_le_step hc fun hrelease => ?_⟩
    · show c.probe = w.service.control.probe
      cases control_cases hc with
      | probing => cases hj
      | judged => cases hj
      | _ => rfl
    · subst hrelease
      cases hj

theorem Placed.unprobed (h : w.service.probe = none) (hplace : w.place.probe = none) :
    w.Placed := by
  refine ⟨h.trans hplace.symm, fun r kind i heq => ?_⟩
  rw [heq] at hplace
  cases hplace

/-- **The monitor stays where its probe is.** -/
theorem Placed.goOn {env : MonitorEnv} (hw : w.Placed) (h : w.goOn build env = some w') :
    w'.Placed := by
  have hidle : ∀ {place : MonitorPlace}, w.place = place → place.probe = none →
      w.service.probe = none := fun heq hnone => hw.probe.trans (heq ▸ hnone)
  cases goesOn_of_goOn h with
  | waits => exact hw
  | probes r kind i hplace hi hs =>
      refine ⟨rfl, fun r' kind' i' heq => ?_⟩
      cases heq
      exact hi
  | judges r kind i hplace m hm => exact .unprobed rfl rfl
  | _ => exact .unprobed (hidle ‹w.place = _› rfl) rfl

/-- **Good steps keep the invariant.** -/
theorem Ok.step (hw : w.Ok) {i : WatchedInput n} (hi : i.Good w)
    (h : (watchedMachine n build).step w i = some w') : w'.Ok := by
  rcases watchedMachine_cases h with ⟨j, hj, x, rfl, hx, rfl⟩ | ⟨s, rfl, rfl⟩ | ⟨env, rfl, hgo⟩
  · have hleft := not_hitsLeftover hw.registered hi.1
    obtain ⟨hprobe, hcount⟩ := tables_of_service hw.sound hj hleft hx
    refine ⟨hw.sound.step hi.2 hleft hx, ?_,
      ⟨hprobe.trans hw.placed.probe, fun r kind i hplace =>
        Nat.lt_of_lt_of_le (hw.placed.lt r kind i hplace) (hcount kind)⟩⟩
    rcases serviceMachine_cases hx with ⟨e, env, u, rfl, hu, rfl⟩ | ⟨k, hk, c, rfl, hc, rfl⟩
    · exact hw.registered.event hw.sound.owned hi.1 hu
    · exact ⟨hw.registered.closed, hw.registered.leftover⟩
  · exact ⟨hw.sound, hw.registered, ⟨hw.placed.probe, hw.placed.lt⟩⟩
  · have hfollows := goOn_follows hw.placed hgo
    refine ⟨?_, ?_, hw.placed.goOn hgo⟩
    · generalize w'.service = y at hfollows
      cases hfollows with
      | idle => exact hw.sound
      | step k hk hm hstep =>
          refine hw.sound.step (fun hover => ?_) id hstep
          obtain ⟨malloc, kind, r, hc, -⟩ := hover
          exact Option.some_ne_none _ (hc.symm.trans (creation_of_monitor hm))
      | loads b hb => exact hw.sound.loads hb
    · generalize w'.service = y at hfollows
      cases hfollows with
      | idle => exact hw.registered
      | step k hk hm hstep =>
          obtain ⟨c, -, rfl⟩ := Option.map_eq_some_iff.mp hstep
          exact ⟨hw.registered.closed, hw.registered.leftover⟩
      | loads b hb => exact ⟨hw.registered.closed, hw.registered.leftover⟩

theorem Ok.states (hw : w.Ok) {inputs : List (WatchedInput n)}
    (hgood : ∀ v ∈ (watchedMachine n build).visits w inputs, v.2.Good v.1) :
    ∀ z ∈ (watchedMachine n build).states w inputs, z.Ok :=
  (watchedMachine n build).states_invariant_of_visits
    (fun u i _ hu (hi : i.Good u) hstep => hu.step hi hstep) hw hgood

end Watched

/-- **The service with its monitor.**  In every run in which events are delivered for
registered descriptors only and no server is created in a full table, the invariant of
the service holds in every state. -/
theorem watched_sound {build : Build ℚ} {w : Watched n} (hw : w.Start)
    {inputs : List (WatchedInput n)}
    (hgood : ∀ v ∈ (watchedMachine n build).visits w inputs, v.2.Good v.1) :
    ∀ z ∈ (watchedMachine n build).states w inputs, z.Ok :=
  hw.ok.states hgood

/-! ## Samples -/

/-- One session, the listener at descriptor 3, no server, and SNMP is switched on. -/
def sampleWatched : Watched 1 where
  service :=
    { world :=
        { sampleWorld with
          sys :=
            { sampleWorld.sys with
              chooser :=
                { balancer := initializeBalancer 4 0
                  nextMember := 0
                  nextClone := 0
                  availableMembers := []
                  availableClones := []
                  useClone := false
                  usingMemberStandby := false
                  usingCloneStandby := false } } }
      tools := fun _ => .initial
      probe := none }
  settings :=
    { sampleShared with
      balancer := initializeBalancer 4 0
      snmpStatus := .enabled
      snmpCommunityPw := some [] }
  overallLoad := 0
  place := .head
  j := 0
  isOpen := fun fd => fd ≤ 2

theorem start_sampleWatched : sampleWatched.Start where
  service := ⟨⟨fun _ => rfl, fun _ => rfl, fun _ => rfl, rfl, fun _ => rfl⟩,
    ⟨⟨4, 0, rfl⟩, fun _ => rfl, rfl, rfl, rfl⟩⟩
  place := rfl

/-- A sample: a build with SNMP. -/
def watchedBuild : Build ℚ where
  useSnmp := true
  atof := fun str => (readDecimal str).value
  atofRange := fun str => (readDecimal str).erange
  positive := fun v => 0 < v
  nonneg := fun v => 0 ≤ v
  malloc := fun _ => true

/-- The server does not answer in time, and its agent reports the load one. -/
def silentEnv : MonitorEnv where
  probe :=
    { socket := some 4
      nonblock := true
      nodelay := true
      connect := -1
      inProgress := true
      select := 0
      readable := false
      exception := false
      read := 0 }
  snmp := ⟨true, true, [some [49]]⟩
  sort := insertionQSort ℚ

/-- The configuration creates a member, and the monitor begins a pass. -/
def memberWatched : List (WatchedInput 1) :=
  [.service (.other (.section true .member
      { serverName := [97]
        serverStatus := .enabled
        standbyState := false
        serverPort := 80
        serverIP := 1
        serverMaxc := 10
        servermaxl := 4 }) rfl) rfl,
    .loop silentEnv, .loop silentEnv]

theorem watched_sound_memberWatched :
    ((watchedMachine 1 watchedBuild).run sampleWatched memberWatched).isSome = true ∧
      ∀ z ∈ (watchedMachine 1 watchedBuild).states sampleWatched memberWatched, z.Ok := by
  have hgood : ((watchedMachine 1 watchedBuild).visits sampleWatched memberWatched).all
      (fun v => decide (v.2.Good v.1)) = true := by
    decide +kernel
  exact ⟨by decide +kernel, watched_sound start_sampleWatched
    fun v hv => of_decide_eq_true (List.all_eq_true.mp hgood v hv)⟩

end OctopusLB
