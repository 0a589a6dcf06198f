/-
# What the health checks come to

A pass of the monitor among everything else that goes on, in the runs of
`watched_sound`: events are delivered for registered descriptors only, and no server is
created in a full table.

* `pass_bounded`: it comes to its end after so many steps of the monitor, whatever is
  created meanwhile;
* `health_follows`: a server that nobody else enables, disables or deletes has the status
  that its probes give it, from the end of the first pass on; and one whose probes fail
  gets no session any more.
-/
import OctopusLB.MonitorRounds

namespace OctopusLB

open Balancer

variable {n : ℕ}

/-! ## The length of a pass -/

/-- The monitor has just released the deleted servers. -/
def MonitorPlace.begins : MonitorPlace → Bool
  | .checking _ .member 0 => true
  | _ => false

/-- The monitor is in a pass. -/
def MonitorPlace.inPass : MonitorPlace → Bool
  | .head | .sleeping _ => false
  | _ => true

theorem MonitorPlace.eq_of_begins {place : MonitorPlace} (h : place.begins = true) :
    ∃ r, place = .checking r .member 0 := by
  cases place with
  | checking r kind i =>
      cases kind with
      | member =>
          cases i with
          | zero => exact ⟨r, rfl⟩
          | succ i => cases h
      | clone => cases h
  | _ => cases h

/-- The steps of the monitor that are left of the pass at most; zero between two
passes. -/
def MonitorPlace.left : MonitorPlace → ℕ
  | .head => 0
  | .sleeping _ => 0
  | .checking _ .member i => 2 * (maxServers - i) + 4 * maxServers + 6
  | .probing _ .member i => 2 * (maxServers - (i + 1)) + 4 * maxServers + 7
  | .checking _ .clone i => 2 * (maxServers - i) + 2 * maxServers + 5
  | .probing _ .clone i => 2 * (maxServers - (i + 1)) + 2 * maxServers + 6
  | .measuring _ .member i => maxServers - i + maxServers + 4
  | .measuring _ .clone i => maxServers - i + 3
  | .calculating _ => 2
  | .rebalancing _ => 1

theorem MonitorPlace.left_pos {place : MonitorPlace} (h : place.inPass = true) :
    0 < place.left := by
  cases place with
  | head => cases h
  | sleeping r => cases h
  | calculating r => exact Nat.zero_lt_succ _
  | rebalancing r => exact Nat.zero_lt_succ _
  | checking r kind i => cases kind <;> exact Nat.zero_lt_succ _
  | probing r kind i => cases kind <;> exact Nat.zero_lt_succ _
  | measuring r kind i => cases kind <;> exact Nat.zero_lt_succ _

/-- A step of the monitor. -/
def WatchedInput.isLoop : WatchedInput n → Bool
  | .loop _ => true
  | _ => false

namespace Watched

variable {build : Build ℚ} {w w' : Watched n}

/-- **Each step of a pass** leaves less of it. -/
theorem left_goOn (hw : w.Ok) {env : MonitorEnv} (h : w.goOn build env = some w')
    (hleft : 0 < w.place.left) : w'.place.left < w.place.left := by
  have hle := hw.sound.control.tables.count_le
  have hlt : ∀ {kind i}, i < w.service.balancer.count kind → i < maxServers :=
    fun hi => Nat.lt_of_lt_of_le hi (hle _)
  cases goesOn_of_goOn h with
  | waits hplace => exact absurd hleft (by rw [hplace]; decide)
  | begins r hplace => exact absurd hleft (by rw [hplace]; exact Nat.lt_irrefl 0)
  | releases r hplace => exact absurd hleft (by rw [hplace]; exact Nat.lt_irrefl 0)
  | probes r kind i hplace hi hs =>
      have hi' := hlt hi
      rw [hplace]
      cases kind <;> simp only [MonitorPlace.left] <;> omega
  | passes r kind i hplace hi hs =>
      have hi' := hlt hi
      rw [hplace]
      cases kind <;> simp only [MonitorPlace.left] <;> omega
  | judges r kind i hplace m hm =>
      rw [hplace]
      cases kind <;> simp only [MonitorPlace.left] <;> omega
  | measures r kind i hplace hi b hb =>
      have hi' := hlt hi
      rw [hplace]
      cases kind <;> simp only [MonitorPlace.left] <;> omega
  | turns r i hplace hi =>
      rw [hplace]
      simp only [MonitorPlace.left]
      omega
  | ends r i hplace hi =>
      rw [hplace]
      simp only [MonitorPlace.left]
      omega
  | asks r i hplace hi =>
      rw [hplace]
      simp only [MonitorPlace.left]
      omega
  | turnsLoads r i hplace =>
      rw [hplace]
      simp only [MonitorPlace.left]
      omega
  | endsLoads r i hplace =>
      rw [hplace]
      simp only [MonitorPlace.left]
      omega
  | calculates r hplace b overall hb =>
      rw [hplace]
      exact Nat.lt_succ_self 1
  | counts r hplace settings j =>
      rw [hplace]
      exact Nat.zero_lt_one
  | rebalances r hplace settings j =>
      rw [hplace]
      exact Nat.zero_lt_one
  | skips r hplace =>
      rw [hplace]
      exact Nat.zero_lt_one

/-- Another process leaves the monitor where it is. -/
theorem place_of_not_loop {i : WatchedInput n} (hi : i.isLoop = false)
    (h : (watchedMachine n build).step w i = some w') : w'.place = w.place := by
  rcases watchedMachine_cases h with ⟨j, hj, x, rfl, -, rfl⟩ | ⟨s, rfl, rfl⟩ | ⟨env, rfl, -⟩
  · rfl
  · rfl
  · cases hi

/-- **The steps of a pass** so far, with those that are left. -/
theorem left_run (hw : w.Ok) {inputs : List (WatchedInput n)}
    (hgood : ∀ v ∈ (watchedMachine n build).visits w inputs,
      v.2.Good v.1 ∧ 0 < v.1.place.left)
    (hrun : (watchedMachine n build).run w inputs = some w') :
    w'.place.left + inputs.countP WatchedInput.isLoop ≤ w.place.left := by
  induction inputs generalizing w with
  | nil =>
      rw [Option.some.inj hrun]
      exact Nat.le_refl _
  | cons i inputs ih =>
      obtain ⟨u, hstep, hrest⟩ := (watchedMachine n build).exists_step_of_run_cons hrun
      rw [Machine.visits_cons_of_step _ hstep, List.forall_mem_cons] at hgood
      obtain ⟨⟨hi, hleft⟩, hgood⟩ := hgood
      have hle := ih (hw.step hi hstep) hgood hrest
      cases hloop : i.isLoop with
      | false =>
          rw [List.countP_cons_of_neg (by rw [hloop]; exact Bool.false_ne_true),
            ← place_of_not_loop hloop hstep]
          exact hle
      | true =>
          rw [List.countP_cons_of_pos hloop]
          cases i with
          | loop env =>
              have hlt := left_goOn hw hstep hleft
              omega
          | service j hj => cases hloop
          | setting s => cases hloop

end Watched

/-- **Every pass ends.**  In every such run: from the release of the deleted servers on, as
long as the pass lasts, the monitor has made `6 * MAXSERVERS + 6` steps at most, whatever
is created meanwhile. -/
theorem pass_bounded {build : Build ℚ} {w y z : Watched n} (hw : w.Start)
    {before pass : List (WatchedInput n)}
    (hgood : ∀ v ∈ (watchedMachine n build).visits w (before ++ pass), v.2.Good v.1)
    (hbefore : (watchedMachine n build).run w before = some y) (hy : y.place.begins = true)
    (hpass : (watchedMachine n build).run y pass = some z)
    (hlasts : ∀ v ∈ (watchedMachine n build).visits y pass, v.1.place.inPass = true) :
    pass.countP WatchedInput.isLoop ≤ 6 * maxServers + 6 := by
  rw [(watchedMachine n build).visits_append hbefore] at hgood
  have hok : y.Ok := hw.ok.states (fun v hv => hgood v (List.mem_append_left _ hv)) y
    ((watchedMachine n build).mem_states_of_run hbefore)
  have hle := Watched.left_run hok (fun v hv => ⟨hgood v (List.mem_append_right _ hv), ?_⟩) hpass
  · obtain ⟨r, hr⟩ := MonitorPlace.eq_of_begins hy
    rw [hr] at hle
    simp only [MonitorPlace.left] at hle
    omega
  · exact MonitorPlace.left_pos (hlasts v hv)

/-- A pass over one member, with its load. -/
def silentPass : List (WatchedInput 1) := List.replicate 9 (.loop silentEnv)

theorem pass_bounded_silentPass : ∃ y,
    (watchedMachine 1 watchedBuild).run sampleWatched memberWatched = some y ∧
      (∃ z, (watchedMachine 1 watchedBuild).run y silentPass = some z ∧
        silentPass.countP WatchedInput.isLoop ≤ 6 * maxServers + 6) := by
  have hgood : ((watchedMachine 1 watchedBuild).visits sampleWatched
      (memberWatched ++ silentPass)).all (fun v => decide (v.2.Good v.1)) = true := by
    decide +kernel
  have hbegins : ((watchedMachine 1 watchedBuild).run sampleWatched memberWatched).any
      (fun y => y.place.begins && ((watchedMachine 1 watchedBuild).run y silentPass).isSome &&
        ((watchedMachine 1 watchedBuild).visits y silentPass).all fun v => v.1.place.inPass)
      = true := by
    decide +kernel
  obtain ⟨y, hy, hpass⟩ := (Option.any_eq_true _ _).mp hbegins
  obtain ⟨⟨hplace, hsome⟩, hlasts⟩ := by simpa only [Bool.and_eq_true] using hpass
  obtain ⟨z, hz⟩ := Option.isSome_iff_exists.mp hsome
  exact ⟨y, hy, z, hz, pass_bounded start_sampleWatched
    (fun v hv => of_decide_eq_true (List.all_eq_true.mp hgood v hv)) hy hplace hz
    (List.all_eq_true.mp hlasts)⟩

/-! ## What the checks of a server come to -/

/-- The monitor has dealt with a slot in this pass, or is between two passes. -/
def MonitorPlace.Beyond (kind : ServerKind) (j : ℕ) : MonitorPlace → Prop
  | .checking _ kind' i => kind' = kind ∧ j < i ∨ kind = .member ∧ kind' = .clone
  | .probing _ kind' i => kind' = kind ∧ j < i ∨ kind = .member ∧ kind' = .clone
  | _ => True

theorem MonitorPlace.beyond_of_not_inPass {place : MonitorPlace} (h : place.inPass = false)
    (kind : ServerKind) (j : ℕ) : place.Beyond kind j := by
  cases place <;> trivial

/-- A process other than the monitor changes the status of a server. -/
def WatchedInput.Edits (build : Build ℚ) (kind : ServerKind) (j : ℕ) (w : Watched n)
    (i : WatchedInput n) : Prop :=
  i.isLoop = false ∧ ∃ w', (watchedMachine n build).step w i = some w' ∧
    (w'.service.balancer.table kind j).status ≠ (w.service.balancer.table kind j).status

/-- The checks of a server come to a verdict, always the same. -/
def WatchedInput.Finds (up : Bool) (kind : ServerKind) (j : ℕ) (w : Watched n) :
    WatchedInput n → Prop
  | .loop env => w.place.probe = some (slot kind j) →
      env.probe.Judges ⟨w.service.balancer, w.isOpen⟩ ∧ (env.probe.Answers ↔ up = true)
  | _ => True

instance (up : Bool) (kind : ServerKind) (j : ℕ) (w : Watched n) (i : WatchedInput n) :
    Decidable (i.Finds up kind j w) :=
  match i with
  | .loop env => inferInstanceAs (Decidable (w.place.probe = some (slot kind j) →
      env.probe.Judges ⟨w.service.balancer, w.isOpen⟩ ∧ (env.probe.Answers ↔ up = true)))
  | .service _ _ => instDecidableTrue
  | .setting _ => instDecidableTrue

/-- The status that the checks give. -/
def healthStatus (up : Bool) : ServerStatus := if up then .enabled else .failed

/-- A server of the table that the monitor checks. -/
structure Watched.Checked (w : Watched n) (kind : ServerKind) (j : ℕ) : Prop where
  lt : j < w.service.balancer.count kind
  probed : (w.service.balancer.table kind j).Probed

theorem probed_of_status_eq {s : Server ℚ} {up : Bool} (h : s.status = healthStatus up) :
    s.Probed := by
  cases up with
  | false => exact Or.inr h
  | true => exact Or.inl h

theorem status_verdictServer (up : Bool) (s : Server ℚ) :
    (verdictServer up s).status = healthStatus up := by
  cases up <;> rfl

namespace Watched

variable {build : Build ℚ} {w w' : Watched n} {kind : ServerKind} {j : ℕ} {up : Bool}

/-- **One step of the monitor** beside a server that it checks: it gives the verdict, or
leaves the status. -/
theorem status_goOn (hw : w.Ok) (hc : w.Checked kind j) {env : MonitorEnv}
    (hfinds : (WatchedInput.loop env).Finds up kind j w) (h : w.goOn build env = some w') :
    j < w'.service.balancer.count kind ∧
      ((w'.service.balancer.table kind j).status = healthStatus up ∨
        (w'.service.balancer.table kind j).status = (w.service.balancer.table kind j).status ∧
          (w'.place.Beyond kind j → w.place.Beyond kind j)) := by
  have hmax := Nat.lt_of_lt_of_le hc.lt (hw.sound.control.tables.count_le kind)
  have hlive : ¬ (w.service.balancer.table kind j).Drained := fun hd =>
    (Server.live_of_probed hc.probed).2 hd.1
  cases goesOn_of_goOn h with
  | waits hplace => exact ⟨hc.lt, Or.inr ⟨rfl, id⟩⟩
  | begins r hplace => exact ⟨hc.lt, Or.inr ⟨rfl, fun _ => by rw [hplace]; trivial⟩⟩
  | releases r hplace =>
      have hpass := passed_handleDeleteServers w.service.balancer
      refine ⟨hpass.count_lt kind j hc.lt hlive, Or.inr ⟨?_, fun _ => by rw [hplace]; trivial⟩⟩
      refine congrArg Server.status (hpass.kept _ ?_)
      rintro ⟨kind', i, hi, heq, hd⟩
      exact hlive hd
  | probes r kind' i hplace hi hs => exact ⟨hc.lt, Or.inr ⟨rfl, fun hb => by rwa [hplace]⟩⟩
  | passes r kind' i hplace hi hs =>
      refine ⟨hc.lt, Or.inr ⟨rfl, fun hb => ?_⟩⟩
      rw [hplace]
      rcases hb with ⟨rfl, hlt⟩ | hlater
      · -- the slot that is passed is another one
        have hne : j ≠ i := fun heq => hs (heq ▸ hc.probed)
        exact Or.inl ⟨rfl, by omega⟩
      · exact Or.inr hlater
  | turns r i hplace hi =>
      refine ⟨hc.lt, Or.inr ⟨rfl, fun hb => ?_⟩⟩
      rw [hplace]
      rcases hb with ⟨-, hlt⟩ | ⟨rfl, -⟩
      · exact absurd hlt (Nat.not_lt_zero j)
      · exact Or.inl ⟨rfl, Nat.lt_of_lt_of_le hc.lt hi⟩
  | ends r i hplace hi =>
      refine ⟨hc.lt, Or.inr ⟨rfl, fun _ => ?_⟩⟩
      rw [hplace]
      cases kind with
      | member => exact Or.inr ⟨rfl, rfl⟩
      | clone => exact Or.inl ⟨rfl, Nat.lt_of_lt_of_le hc.lt hi⟩
  | asks r i hplace hi =>
      refine ⟨hc.lt, Or.inr ⟨rfl, fun _ => ?_⟩⟩
      rw [hplace]
      cases kind with
      | member => exact Or.inr ⟨rfl, rfl⟩
      | clone => exact Or.inl ⟨rfl, Nat.lt_of_lt_of_le hc.lt hi⟩
  | judges r kind' i hplace m hm =>
      have hi := Nat.lt_of_lt_of_le (hw.placed.lt r kind' i hplace)
        (hw.sound.control.tables.count_le kind')
      have hb : m.balancer = finishProbe (slot kind' i)
          (if env.probe.Judges ⟨w.service.balancer, w.isOpen⟩ then
            some (decide env.probe.Answers) else none) w.service.balancer := by
        rw [hm, balancer_finishCheck]
      refine ⟨?_, ?_⟩
      · show j < m.balancer.count kind
        rw [hb, count_finishProbe]
        exact hc.lt
      change (m.balancer.servers (slot kind j)).status = _ ∨
        (m.balancer.servers (slot kind j)).status = _ ∧ _
      rw [hb]
      by_cases hslot : kind' = kind ∧ i = j
      · obtain ⟨rfl, rfl⟩ := hslot
        obtain ⟨hjudges, hanswers⟩ := hfinds (by rw [hplace]; rfl)
        have hup : decide env.probe.Answers = up := by
          rw [Bool.eq_iff_iff, decide_eq_true_iff]
          exact hanswers
        rw [if_pos hjudges, hup, servers_finishProbe, if_pos rfl, status_verdictServer]
        exact Or.inl rfl
      · have hne : slot kind j ≠ slot kind' i := fun heq =>
          hslot ((slot_inj hi hmax heq.symm).imp id id)
        refine Or.inr ⟨?_, fun hbeyond => ?_⟩
        · split_ifs
          · rw [servers_finishProbe, if_neg hne]
            rfl
          · rfl
        · rw [hplace]
          rcases hbeyond with ⟨rfl, hlt⟩ | hlater
          · have hij : i ≠ j := fun heq => hslot ⟨rfl, heq⟩
            exact Or.inl ⟨rfl, by omega⟩
          · exact Or.inr hlater
  | measures r kind' i hplace hi b hb =>
      exact ⟨(congrFun hb.count kind).symm ▸ hc.lt, Or.inr
        ⟨hb.field Server.status (fun _ _ _ => rfl) _, fun _ => by rw [hplace]; trivial⟩⟩
  | turnsLoads r i hplace => exact ⟨hc.lt, Or.inr ⟨rfl, fun _ => by rw [hplace]; trivial⟩⟩
  | endsLoads r i hplace => exact ⟨hc.lt, Or.inr ⟨rfl, fun _ => by rw [hplace]; trivial⟩⟩
  | calculates r hplace b overall hb =>
      exact ⟨(congrFun hb.count kind).symm ▸ hc.lt, Or.inr
        ⟨hb.field Server.status (fun _ _ _ => rfl) _, fun _ => by rw [hplace]; trivial⟩⟩
  | counts r hplace settings j' => exact ⟨hc.lt, Or.inr ⟨rfl, fun _ => by rw [hplace]; trivial⟩⟩
  | rebalances r hplace settings j' =>
      have hb := sameButHash_rebalanceHash env.sort settings.hashRebalanceThreshold
        settings.hashRebalanceSize w.service.balancer
      exact ⟨(congrFun hb.count kind).symm ▸ hc.lt, Or.inr
        ⟨hb.field Server.status (fun _ _ => rfl) _, fun _ => by rw [hplace]; trivial⟩⟩
  | skips r hplace => exact ⟨hc.lt, Or.inr ⟨rfl, fun _ => by rw [hplace]; trivial⟩⟩

/-- What is known of a server that is checked: once the monitor has been there, it has the
status that the checks give. -/
structure Judged (up : Bool) (kind : ServerKind) (j : ℕ) (w : Watched n) : Prop where
  ok : w.Ok
  checked : w.Checked kind j
  beyond : w.place.Beyond kind j → (w.service.balancer.table kind j).status = healthStatus up

/-- The inputs of a run in which nobody else changes the status of the server. -/
structure Undisturbed (build : Build ℚ) (up : Bool) (kind : ServerKind) (j : ℕ) (w : Watched n)
    (i : WatchedInput n) : Prop where
  good : i.Good w
  unedited : ¬ i.Edits build kind j w
  finds : i.Finds up kind j w

/-- **One step.**  The status is that of the checks now, or it is as it was. -/
theorem status_step (hw : w.Ok) (hc : w.Checked kind j) {i : WatchedInput n}
    (hi : Undisturbed build up kind j w i) (h : (watchedMachine n build).step w i = some w') :
    w'.Checked kind j ∧
      ((w'.service.balancer.table kind j).status = healthStatus up ∨
        (w'.service.balancer.table kind j).status = (w.service.balancer.table kind j).status ∧
          (w'.place.Beyond kind j → w.place.Beyond kind j)) := by
  have hstatus : j < w'.service.balancer.count kind ∧
      ((w'.service.balancer.table kind j).status = healthStatus up ∨
        (w'.service.balancer.table kind j).status = (w.service.balancer.table kind j).status ∧
          (w'.place.Beyond kind j → w.place.Beyond kind j)) := by
    cases hloop : i.isLoop with
    | true =>
        cases i with
        | loop env => exact status_goOn hw hc hi.finds h
        | service k hk => cases hloop
        | setting s => cases hloop
    | false =>
        have hsame : (w'.service.balancer.table kind j).status
            = (w.service.balancer.table kind j).status := by
          by_contra hne
          exact hi.unedited ⟨hloop, w', h, hne⟩
        refine ⟨?_, Or.inr ⟨hsame, fun hb => place_of_not_loop hloop h ▸ hb⟩⟩
        rcases watchedMachine_cases h with ⟨k, hk, x, rfl, hx, rfl⟩ | ⟨s, rfl, rfl⟩ | ⟨env, rfl, -⟩
        · have hleft := not_hitsLeftover hw.registered hi.good.1
          exact Nat.lt_of_lt_of_le hc.lt ((tables_of_service hw.sound hk hleft hx).2 kind)
        · exact hc.lt
        · cases hloop
  refine ⟨⟨hstatus.1, ?_⟩, hstatus.2⟩
  rcases hstatus.2 with hnow | ⟨hsame, -⟩
  · exact probed_of_status_eq hnow
  · exact hc.probed.imp hsame.trans hsame.trans

theorem Judged.step (hw : w.Judged up kind j) {i : WatchedInput n}
    (hi : Undisturbed build up kind j w i) (h : (watchedMachine n build).step w i = some w') :
    w'.Judged up kind j := by
  obtain ⟨hchecked, hstatus⟩ := status_step hw.ok hw.checked hi h
  refine ⟨hw.ok.step hi.good h, hchecked, fun hbeyond => ?_⟩
  rcases hstatus with hnow | ⟨hsame, hback⟩
  · exact hnow
  · exact hsame.trans (hw.beyond (hback hbeyond))

/-- **The status that the checks give** stays. -/
theorem settled_step (hw : w.Judged up kind j)
    (hs : (w.service.balancer.table kind j).status = healthStatus up) {i : WatchedInput n}
    (hi : Undisturbed build up kind j w i) (h : (watchedMachine n build).step w i = some w') :
    (w'.service.balancer.table kind j).status = healthStatus up := by
  rcases (status_step hw.ok hw.checked hi h).2 with hnow | ⟨hsame, -⟩
  · exact hnow
  · exact hsame.trans hs

/-- A server that has failed gets no session. -/
theorem not_newHolder (hw : w.Ok) (hs : (w.service.balancer.table kind j).status = .failed)
    {i : WatchedInput n} (hi : i.Good w) (h : (watchedMachine n build).step w i = some w')
    (s : Fin n) : ¬ w.service.NewHolder w'.service s kind (slot kind j) := by
  intro hnew
  rcases watchedMachine_cases h with ⟨k, hk, x, rfl, hx, rfl⟩ | ⟨s', rfl, rfl⟩ | ⟨env, rfl, hgo⟩
  · have hleft := not_hitsLeftover hw.registered hi.1
    have hadmits := (hw.sound.admits_step hleft hx hnew).2
    exact absurd (hs.symm.trans hadmits.eligible.1) (by decide)
  · exact hnew.1 hnew.2
  · -- the monitor connects nobody
    have hfollows := goOn_follows hw.placed hgo
    generalize w'.service = y at hfollows hnew
    cases hfollows with
    | idle => exact hnew.1 hnew.2
    | step k hk hm hstep =>
        obtain ⟨c, -, rfl⟩ := Option.map_eq_some_iff.mp hstep
        exact hnew.1 hnew.2
    | loads b hb => exact hnew.1 hnew.2

end Watched

/-- **The checks of a server.**  In every such run: if a server of the table is checked in a
whole pass, always with the same finding, and no other process changes its status, then
from the end of the pass on it is in its table with the status that the checks give; and
one that has failed gets no session any more. -/
theorem health_follows {build : Build ℚ} {w y z : Watched n} (hw : w.Start)
    {before pass rest : List (WatchedInput n)}
    (hgood : ∀ v ∈ (watchedMachine n build).visits w before, v.2.Good v.1)
    (hbefore : (watchedMachine n build).run w before = some y) (hy : y.place.begins = true)
    {kind : ServerKind} {j : ℕ} (hj : y.Checked kind j)
    {up : Bool}
    (hquiet : ∀ v ∈ (watchedMachine n build).visits y (pass ++ rest),
      Watched.Undisturbed build up kind j v.1 v.2)
    (hpass : (watchedMachine n build).run y pass = some z) (hz : z.place.inPass = false) :
    (∀ u ∈ (watchedMachine n build).states z rest, u.Checked kind j ∧
      (u.service.balancer.table kind j).status = healthStatus up) ∧
      (up = false → ∀ v ∈ (watchedMachine n build).visits z rest, ∀ u,
        (watchedMachine n build).step v.1 v.2 = some u →
          ∀ s, ¬ v.1.service.NewHolder u.service s kind (slot kind j)) := by
  rw [(watchedMachine n build).visits_append hpass] at hquiet
  have hok : y.Ok := hw.ok.states hgood y ((watchedMachine n build).mem_states_of_run hbefore)
  have hstart : y.Judged up kind j := by
    refine ⟨hok, hj, fun hbeyond => ?_⟩
    obtain ⟨r, hr⟩ := MonitorPlace.eq_of_begins hy
    rw [hr] at hbeyond
    rcases hbeyond with ⟨-, hlt⟩ | ⟨-, hkind⟩
    · exact absurd hlt (Nat.not_lt_zero j)
    · cases hkind
  have hend : z.Judged up kind j := by
    refine (watchedMachine n build).states_invariant_of_visits
      (fun u i _ hu (hi : Watched.Undisturbed build up kind j u i) hstep => hu.step hi hstep)
      hstart (fun v hv => hquiet v (List.mem_append_left _ hv)) z
      ((watchedMachine n build).mem_states_of_run hpass)
  have hall : ∀ u ∈ (watchedMachine n build).states z rest, u.Judged up kind j ∧
      (u.service.balancer.table kind j).status = healthStatus up := by
    refine (watchedMachine n build).states_invariant_of_visits
      (fun u i _ hu (hi : Watched.Undisturbed build up kind j u i) hstep =>
        ⟨hu.1.step hi hstep, Watched.settled_step hu.1 hu.2 hi hstep⟩)
      ⟨hend, hend.beyond (MonitorPlace.beyond_of_not_inPass hz kind j)⟩
      fun v hv => hquiet v (List.mem_append_right _ hv)
  refine ⟨fun u hu => ⟨(hall u hu).1.checked, (hall u hu).2⟩, ?_⟩
  rintro rfl v hv u hstep s
  obtain ⟨hjudged, hstatus⟩ := hall v.1 ((watchedMachine n build).mem_states_of_mem_visits hv)
  exact Watched.not_newHolder hjudged.ok hstatus (hquiet v (List.mem_append_right _ hv)).good
    hstep s

/-- The member does not answer in this pass nor in the next one. -/
theorem health_of_silentPass : ∃ y z,
    (watchedMachine 1 watchedBuild).run sampleWatched memberWatched = some y ∧
      (watchedMachine 1 watchedBuild).run y silentPass = some z ∧
      (∀ u ∈ (watchedMachine 1 watchedBuild).states z silentPass, u.Checked .member 0 ∧
        (u.service.balancer.table .member 0).status = healthStatus false) ∧
      ∀ v ∈ (watchedMachine 1 watchedBuild).visits z silentPass, ∀ u,
        (watchedMachine 1 watchedBuild).step v.1 v.2 = some u →
          ∀ s, ¬ v.1.service.NewHolder u.service s .member (slot .member 0) := by
  have hgood : ((watchedMachine 1 watchedBuild).visits sampleWatched memberWatched).all
      (fun v => decide (v.2.Good v.1)) = true := by
    decide +kernel
  have hruns : ((watchedMachine 1 watchedBuild).run sampleWatched memberWatched).any (fun y =>
      y.place.begins && decide (0 < y.service.balancer.nmembers) &&
        decide (y.service.balancer.table .member 0).Probed &&
          ((watchedMachine 1 watchedBuild).run y silentPass).any (fun z => !z.place.inPass) &&
            ((watchedMachine 1 watchedBuild).visits y (silentPass ++ silentPass)).all fun v =>
              v.2.isLoop && decide (v.2.Good v.1) && decide (v.2.Finds false .member 0 v.1))
      = true := by
    decide +kernel
  obtain ⟨y, hy, hpass⟩ := (Option.any_eq_true _ _).mp hruns
  obtain ⟨⟨⟨⟨hbegins, hlt⟩, hprobed⟩, hend⟩, hquiet⟩ := by
    simpa only [Bool.and_eq_true, decide_eq_true_eq] using hpass
  obtain ⟨z, hz, hhead⟩ := (Option.any_eq_true _ _).mp hend
  have hundisturbed : ∀ v ∈ (watchedMachine 1 watchedBuild).visits y (silentPass ++ silentPass),
      Watched.Undisturbed watchedBuild false .member 0 v.1 v.2 := by
    intro v hv
    obtain ⟨⟨hloop, hgood⟩, hfinds⟩ := by
      simpa only [Bool.and_eq_true, decide_eq_true_eq] using List.all_eq_true.mp hquiet v hv
    exact ⟨hgood, fun hedit => absurd (hloop.symm.trans hedit.1) (by decide), hfinds⟩
  obtain ⟨hfailed, hnone⟩ := health_follows start_sampleWatched
    (fun v hv => of_decide_eq_true (List.all_eq_true.mp hgood v hv)) hy hbegins ⟨hlt, hprobed⟩
    hundisturbed hz (by simpa using hhead)
  exact ⟨y, z, hy, hz, hfailed, hnone rfl⟩

end OctopusLB
