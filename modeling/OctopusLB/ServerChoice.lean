/-
# Every session is given a server exactly once

The accept branch chooses a server at once unless the algorithm is HASH or
STATIC; then the choice is left to the first `client_read`, which makes it if
the session has `STATE_FRESH`.  No code ever sets that bit, so the choice is
never made: `chosenBeforeData_always_iff` says that the property fails exactly
where data is read for a session accepted under one of these two algorithms.
-/
import OctopusLB.Ownership

namespace OctopusLB

variable {n : ℕ} {L : Type}

/-! ## Choices in the history -/

/-- The algorithm in force when the entry hands the session out. -/
def Obs.allocatedUnder : Obs → Option Algorithm
  | .allocated algorithm => some algorithm
  | _ => none

/-- The algorithm in force when the session was last handed out. -/
def History.acceptedUnder (h : History) : Option Algorithm := h.findSome? Obs.allocatedUnder

/-- The accept branch has left the choice to the first read. -/
def History.Deferred (h : History) : Prop :=
  h.acceptedUnder = some .hash ∨ h.acceptedUnder = some .static

/-- The session is in use and a server has been chosen for it exactly once since
it was handed out. -/
def History.ChosenOnce (h : History) : Prop :=
  ∃ status, status ≠ -1 ∧ h.sinceAllocated.choices = [status]

/-- What the choices of a session in use are. -/
structure History.ChoiceRecord (h : History) : Prop where
  deferred : h.inUse = true → h.Deferred → h.sinceAllocated.choices = []
  chosen : h.inUse = true → ¬ h.Deferred → h.ChosenOnce

namespace History

/-- Traffic changes nothing of this. -/
theorem same_append_traffic {h h' : History} (htraffic : ∀ o ∈ h', o.isTraffic = true) :
    acceptedUnder (h' ++ h) = acceptedUnder h ∧
      (sinceAllocated (h' ++ h)).choices = (sinceAllocated h).choices := by
  induction h' with
  | nil => exact ⟨rfl, rfl⟩
  | cons o os ih =>
      obtain ⟨ho, hos⟩ := List.forall_mem_cons.mp htraffic
      obtain ⟨halgorithm, hchoices⟩ := ih hos
      cases o with
      | received _ _ => exact ⟨halgorithm, hchoices⟩
      | sent _ _ => exact ⟨halgorithm, hchoices⟩
      | _ => cases ho

theorem ChoiceRecord.append {h h' : History} (hr : ChoiceRecord h)
    (htraffic : ∀ o ∈ h', o.isTraffic = true) : ChoiceRecord (h' ++ h) := by
  obtain ⟨halgorithm, hchoices⟩ := same_append_traffic (h := h) htraffic
  have hin := inUse_append (h := h) fun o ho => Obs.handsOut_of_isTraffic (htraffic o ho)
  constructor
  · intro huse hdef
    rw [hchoices]
    unfold Deferred at hdef
    rw [halgorithm] at hdef
    exact hr.deferred (hin ▸ huse) hdef
  · intro huse hdef
    unfold Deferred at hdef
    rw [halgorithm] at hdef
    unfold ChosenOnce
    rw [hchoices]
    exact hr.chosen (hin ▸ huse) hdef

/-- A session that is not in use. -/
theorem ChoiceRecord.of_not_inUse {h : History} (hin : inUse h = false) : ChoiceRecord h := by
  constructor
  all_goals
    intro huse
    rw [hin] at huse
    cases huse

end History

/-! ## The record along a run -/

/-- A call keeps the record. -/
theorem choiceRecord_effect {x y : Ctx n L} {call : Call} (he : Effect x call y)
    (h : x.history.ChoiceRecord) : y.history.ChoiceRecord := by
  obtain ⟨hs, htraffic, heq | ⟨⟨reason, before, heq⟩, -⟩⟩ := history_effect he
  · rw [heq]
    exact h.append htraffic
  · rw [heq]
    exact .of_not_inUse rfl

/-- The record of every session. -/
def World.ChoiceRecord (w : World n L) : Prop := ∀ s, (w.histories s).ChoiceRecord

/-- At the start no session has a record to keep. -/
theorem choiceRecord_start {w : World n L} (h : w.Start) : w.ChoiceRecord := by
  intro s
  rw [h.histories]
  exact .of_not_inUse rfl

section Record

variable [LoadArith L] {x y : Ctx n L}

/-- **The accept branch chooses once**, unless it defers the choice. -/
theorem choiceRecord_acceptClient {fd : Fd} {env : AcceptEnv}
    (h : acceptClient fd env x = some y) : y.history.ChoiceRecord := by
  rcases acceptClient_cases h with rfl | ⟨halg, rfl⟩ | ⟨halg, z, status, hz, hor⟩
  · rw [history_deleteSession]
    exact .of_not_inUse rfl
  · refine ⟨fun _ _ => rfl, fun _ hdef => absurd ?_ hdef⟩
    exact halg.imp (congrArg some) (congrArg some)
  · obtain ⟨hs, heq, hconnected⟩ := history_chooseServer hz
    rcases hor with ⟨-, rfl⟩ | ⟨hstatus, rfl⟩
    · rw [history_deleteSession]
      exact .of_not_inUse rfl
    -- what is left: the record of the history `.chose status :: (hs ++ admitted)`
    have hrest : ∀ rest : History, (∀ o ∈ rest, ∃ role slot, o = .connected role slot) →
        History.acceptedUnder (rest ++ .allocated x.sys.chooser.balancer.algorithm :: x.history)
            = some x.sys.chooser.balancer.algorithm ∧
          (History.sinceAllocated
            (rest ++ .allocated x.sys.chooser.balancer.algorithm :: x.history)).choices = [] := by
      intro rest hrest
      induction rest with
      | nil => exact ⟨rfl, rfl⟩
      | cons o os ih =>
          obtain ⟨⟨role, slot, rfl⟩, hos⟩ := List.forall_mem_cons.mp hrest
          exact ih hos
    obtain ⟨halgorithm, hchoices⟩ := hrest hs hconnected
    show History.ChoiceRecord z.history
    rw [heq]
    refine ⟨fun _ hdef => absurd hdef ?_, fun _ _ => ⟨status, hstatus, ?_⟩⟩
    · rintro (hhash | hstatic)
      · exact halg.1 (Option.some.inj (halgorithm.symm.trans hhash))
      · exact halg.2 (Option.some.inj (halgorithm.symm.trans hstatic))
    · exact congrArg (status :: ·) hchoices

/-- Every step of the main loop keeps the records. -/
theorem choiceRecord_loop {m m' : MainLoop n L} {i : LoopInput n L} (how : m.world.Owned)
    (h : m.world.ChoiceRecord) (hstep : (loopMachine n L).step m i = some m') :
    m'.world.ChoiceRecord := by
  refine loop_histories h (fun x y fd env _ hy => choiceRecord_acceptClient hy) ?_ hstep
  intro env e es s y _ _ _ _ hserve
  exact serve_keeps (P := fun z => z.history.ChoiceRecord) (how.ok s) (h s)
    (fun u v call _ hu he => choiceRecord_effect he hu) hserve

end Record

/-! ## Reads from clients -/

/-- The main loop comes to an event for which it calls `client_read` in session
`x`. -/
structure CallsClientRead (m : MainLoop n L) (i : LoopInput n L) (e : Event) (env : EventEnv n)
    (x : Ctx n L) : Prop where
  input : i = .process env
  head : ∃ es, m.pending = e :: es
  not_listener : e.fd ≠ m.world.listenerfd
  session : ∃ s, m.world.sys.fds e.fd = some s ∧ x = m.world.ctx s
  role : x.session.roleOf e.fd = some .client
  err : e.err = false
  hup : e.hup = false
  ready : e.input = true

/-- If the session is alive with bytes of its client after `client_read`, then a
server has been chosen for it exactly once. -/
def ChosenBeforeData [LoadArith L] (m : MainLoop n L) (i : LoopInput n L) : Prop :=
  ∀ e env x y, CallsClientRead m i e env x → clientRead e.fd env.read env.connect x = some y →
    y.history.inUse = true → 0 < y.session.clientUsedBuffer → y.history.ChosenOnce

/-- `client_read` gets bytes for a session whose choice was deferred. -/
def ReadsDeferred (m : MainLoop n L) (i : LoopInput n L) : Prop :=
  ∃ e env x bytes, CallsClientRead m i e env x ∧ x.history.Deferred ∧ bytes ≠ [] ∧
    x.sys.read e.fd (messageSizeLimit - x.session.clientUsedBuffer) env.read = some bytes

section Choice

variable [LoadArith L]

/-- **One step.**  The property fails exactly for a read of the bad kind. -/
theorem chosenBeforeData_iff {m : MainLoop n L} (how : m.world.Owned)
    (h : m.world.ChoiceRecord) (i : LoopInput n L) :
    ChosenBeforeData m i ↔ ¬ ReadsDeferred m i := by
  -- a session whose client is read is in use, and has no `STATE_FRESH`
  have hsession : ∀ {e env x}, CallsClientRead m i e env x →
      x.history.inUse = true ∧ x.session.state.fresh = false ∧ x.history.ChoiceRecord := by
    intro e env x hread
    obtain ⟨s, -, rfl⟩ := hread.session
    refine ⟨?_, (how.ok s).fresh, h s⟩
    by_contra hnot
    have hnone := how.idle s (Bool.eq_false_of_not_eq_true hnot)
    have hsome : (m.world.sessions s).clientfd = some e.fd := Session.fdOf_of_roleOf hread.role
    rw [hnone] at hsome
    cases hsome
  constructor
  · rintro hall ⟨e, env, x, bytes, hread, hdef, hne, hbytes⟩
    obtain ⟨hin, hfresh, hrecord⟩ := hsession hread
    obtain ⟨b, bs, rfl⟩ := List.exists_cons_of_ne_nil hne
    have hy := clientRead_of_not_fresh hfresh e.fd env.read env.connect
    rw [hbytes] at hy
    have hused : 0 < (forwardClientRead (b :: bs).length
        (receiveFromClient (b :: bs) x)).session.clientUsedBuffer := by
      rw [clientUsedBuffer_forwardClientRead]
      show 0 < x.session.clientUsedBuffer + (b :: bs).length
      rw [List.length_cons]
      omega
    have hhist : (forwardClientRead (b :: bs).length (receiveFromClient (b :: bs) x)).history
        = .received .client (b :: bs) :: x.history := history_forwardClientRead ..
    obtain ⟨status, -, hchoices⟩ := hall e env x _ hread hy (by rw [hhist]; exact hin) hused
    have hempty : (History.sinceAllocated (.received .client (b :: bs) :: x.history)).choices = [] :=
      hrecord.deferred hin hdef
    rw [hhist, hempty] at hchoices
    cases hchoices
  · intro hgood e env x y hread hy hyin _
    obtain ⟨hin, hfresh, hrecord⟩ := hsession hread
    rw [clientRead_of_not_fresh hfresh, Option.some.injEq] at hy
    rcases hr : x.sys.read e.fd (messageSizeLimit - x.session.clientUsedBuffer) env.read with
      _ | _ | ⟨b, bs⟩ <;> rw [hr] at hy <;> dsimp only at hy
    · rw [← hy, history_deleteSession] at hyin
      cases hyin
    · rw [← hy, history_deleteSession] at hyin
      cases hyin
    · have hchosen := hrecord.chosen hin fun hdef =>
        hgood ⟨e, env, x, b :: bs, hread, hdef, by simp, hr⟩
      rw [← hy, history_forwardClientRead]
      exact hchosen

/-- What holds in every state of a run. -/
theorem owned_choiceRecord {w : World n L} (h : w.Start) (inputs : List (LoopInput n L)) :
    ∀ m ∈ (loopMachine n L).states ⟨w, []⟩ inputs, m.world.Owned ∧ m.world.ChoiceRecord := by
  refine (loopMachine n L).states_invariant ?_ ⟨.start h, choiceRecord_start h⟩ inputs
  rintro m i m' ⟨how, hrecord⟩ hstep
  exact ⟨how.loop hstep, choiceRecord_loop how hrecord hstep⟩

/-- **Every session is given a server before its data is handled**, whatever
happens, in exactly the runs in which no data is read for a session accepted
while the algorithm was HASH or STATIC. -/
theorem chosenBeforeData_always_iff {w : World n L} (h : w.Start)
    (inputs : List (LoopInput n L)) :
    (∀ v ∈ (loopMachine n L).visits ⟨w, []⟩ inputs, ChosenBeforeData v.1 v.2)
      ↔ ∀ v ∈ (loopMachine n L).visits ⟨w, []⟩ inputs, ¬ ReadsDeferred v.1 v.2 := by
  refine forall₂_congr fun v hv => ?_
  obtain ⟨how, hrecord⟩ :=
    owned_choiceRecord h inputs v.1 ((loopMachine n L).mem_states_of_mem_visits hv)
  exact chosenBeforeData_iff how hrecord v.2

end Choice

/-- A client connects and sends a request. -/
def clientRequest : List (LoopInput 1 ℤ) :=
  clientConnects ++ [.poll [⟨5, true, false, false, false⟩],
    .process (sampleEventEnv (.data [71]))]

/-- Under round robin the server is there before the request. -/
theorem chosenBeforeData_of_round_robin :
    sampleWorld.Start ∧ ∀ v ∈ (loopMachine 1 ℤ).visits ⟨sampleWorld, []⟩ clientRequest,
      ChosenBeforeData v.1 v.2 := by
  refine ⟨start_sampleWorld, (chosenBeforeData_always_iff start_sampleWorld _).mpr ?_⟩
  intro v hv hbad
  have hrr : ∀ v ∈ (loopMachine 1 ℤ).visits ⟨sampleWorld, []⟩ clientRequest,
      (v.1.world.histories 0).acceptedUnder ≠ some .hash
        ∧ (v.1.world.histories 0).acceptedUnder ≠ some .static := by decide +kernel
  obtain ⟨e, env, x, bytes, hread, hdef, -⟩ := hbad
  obtain ⟨s, -, rfl⟩ := hread.session
  obtain rfl : s = 0 := Subsingleton.elim s 0
  exact hdef.elim (hrr v hv).1 (hrr v hv).2

/-- The operator has chosen HASH before the client connects. -/
def hashThenConnect : List (LoopInput 1 ℤ) :=
  .share { pairChooser.balancer with algorithm := .hash } :: clientConnects
    ++ [.poll [⟨5, true, false, false, false⟩]]

/-- Under HASH the first request is read and kept, and no server is chosen. -/
theorem request_without_server :
    sampleWorld.Start ∧
      ¬ ∀ v ∈ (loopMachine 1 ℤ).visits ⟨sampleWorld, []⟩
          (hashThenConnect ++ [.process (sampleEventEnv (.data [71]))]),
        ChosenBeforeData v.1 v.2 := by
  refine ⟨start_sampleWorld, fun hall => ?_⟩
  have hrun : ((loopMachine 1 ℤ).run ⟨sampleWorld, []⟩ hashThenConnect).any (fun m =>
      decide (m.pending = [⟨5, true, false, false, false⟩] ∧ 5 ≠ m.world.listenerfd ∧
        m.world.sys.fds 5 = some 0 ∧ (m.world.sessions 0).roleOf 5 = some .client ∧
        (m.world.histories 0).acceptedUnder = some .hash ∧
        m.world.sys.read 5 (messageSizeLimit - (m.world.sessions 0).clientUsedBuffer) (.data [71])
          = some [71])) = true := by decide +kernel
  obtain ⟨m, hm, hcond⟩ := (Option.any_eq_true _ _).mp hrun
  obtain ⟨hpending, hne, hfds, hrole, hhash, hread⟩ := of_decide_eq_true hcond
  obtain ⟨how, hrecord⟩ := owned_choiceRecord start_sampleWorld hashThenConnect m
    ((loopMachine 1 ℤ).mem_states_of_run hm)
  have hlast : ChosenBeforeData m (.process (sampleEventEnv (.data [71]))) := by
    refine hall (m, _) ?_
    rw [(loopMachine 1 ℤ).visits_append hm]
    exact List.mem_append_right _ List.mem_cons_self
  refine (chosenBeforeData_iff how hrecord _).mp hlast
    ⟨⟨5, true, false, false, false⟩, sampleEventEnv (.data [71]), m.world.ctx 0, [71], ?_,
      Or.inl hhash, by simp, hread⟩
  exact ⟨rfl, ⟨[], hpending⟩, hne, ⟨0, hfds, rfl⟩, hrole, rfl, rfl, rfl⟩

end OctopusLB
