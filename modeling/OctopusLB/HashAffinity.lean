/-
# Affinity of the HASH algorithm

Requests with one table index go to one member for as long as that member
passes the test of `verify_server`; then the index moves to another.

`Affine h s x inputs` says it of the run from `x` over `inputs`: the requests
with index `h` go to `s` as long as `s` passes, the first one at which it does
not goes to a sound member that takes the place of `s`, and so on until the
table is rebalanced or the member of the moment is deleted.

`affinity_of_room`: this is what happens after every request in every run in
which no member is created beyond `MAXSERVERS`.  `affinity_lost` is a run with
one member more.
-/
import OctopusLB.HashUsage

namespace OctopusLB

open Balancer

variable {L : Type}

/-! ## Requests and where they go -/

/-- The test of a hash entry, for the member that it names. -/
def PassesTest (b : Balancer L) (s : ℕ) : Prop :=
  Eligible b.overloadMode (b.members s) ∧
    ((b.members s).standbyState = true → ∀ j < b.nmembers,
      Eligible b.overloadMode (b.members j) → (b.members j).standbyState = true)

/-- A request under `HASH` whose table index is `h`. -/
def HashRequest (h : ℕ) (clientReadBuffer : List UInt8) (x : Control L) : Prop :=
  x.balancer.algorithm = .hash ∧ uriIndex clientReadBuffer = .found h

/-- `choose_server` calls `connect_server` for member `s`. -/
def SentTo [LoadArith L] (clientReadBuffer : List UInt8) (x : Control L) (s : ℕ) : Prop :=
  ∃ c, chooseCandidate clientReadBuffer x.chooser = some (c, 0) ∧ c.nextMember = s

/-- The table is rebalanced, or member `s` deleted. -/
def Disturbs (s : ℕ) (x : Control L) (i : ControlInput L) : Prop :=
  (∃ q threshold size, i = .rebalance q threshold size) ∨
    ∃ tool type id, i = .command tool (.delete type id) ∧
      Targets type id x.balancer (x.tools tool) (memberSlot s)

/-- What affinity to `s` asks of one step, and the member that the index belongs
to after it. -/
inductive Routes [LoadArith L] (h s : ℕ) (x : Control L) : ControlInput L → ℕ → Prop
  | other (i : ControlInput L) (hi : ∀ buf, i = .request buf → ¬ HashRequest h buf x) :
      Routes h s x i s
  | kept (buf : List UInt8) (hreq : HashRequest h buf x) (hs : PassesTest x.balancer s)
      (hsent : SentTo buf x s) : Routes h s x (.request buf) s
  | moved (buf : List UInt8) (s' : ℕ) (hreq : HashRequest h buf x)
      (hs : ¬ PassesTest x.balancer s) (hsound : SoundMember x.balancer s')
      (hsent : SentTo buf x s')
      (hmoved : ∃ y, (controlMachine L).step x (.request buf) = some y ∧
        y.balancer.hashTable h = some s') : Routes h s x (.request buf) s'
  | unserved (buf : List UInt8) (hreq : HashRequest h buf x) (hs : ¬ PassesTest x.balancer s)
      (hnone : ∀ j < x.balancer.nmembers,
        ¬ Eligible x.balancer.overloadMode (x.balancer.members j)) :
      Routes h s x (.request buf) s

/-- Affinity of index `h`, which belongs to `s`, along a run. -/
def Affine [LoadArith L] (h : ℕ) : ℕ → Control L → List (ControlInput L) → Prop
  | _, _, [] => True
  | s, x, i :: is => Disturbs s x i ∨
      ∃ s', Routes h s x i s' ∧
        ∀ y, (controlMachine L).step x i = some y → Affine h s' y is

/-- Affinity after every request of a run. -/
def Affinity [LoadArith L] (x : Control L) (inputs : List (ControlInput L)) : Prop :=
  ∀ before buf after h s y z, inputs = before ++ .request buf :: after →
    (controlMachine L).run x before = some y → HashRequest h buf y → SentTo buf y s →
    (controlMachine L).step y (.request buf) = some z → Affine h s z after

/-- A member is created when there are `MAXSERVERS` and none of them is free. -/
def OverfillsMembers [IntCast L] (x : Control L) (i : ControlInput L) : Prop :=
  ∃ malloc r, i.creation x = some (malloc, .member, r) ∧ r.Valid malloc ∧
    Full .member x.balancer

/-- A step that does not create a member beyond the table. -/
def Roomy [IntCast L] (x : Control L) (i : ControlInput L) : Prop := ¬ OverfillsMembers x i

/-! ## One request -/

section Request

variable [LoadArith L] {x y : Control L} {buf : List UInt8} {h s : ℕ}

/-- A request with an index is looked up in the table unless no member is
eligible. -/
theorem chooseCandidate_hash (hreq : HashRequest h buf x)
    (h0 : (getAvailableServers x.chooser).2 = 0) : chooseCandidate buf x.chooser
      = some (hashLookup h (getAvailableServers x.chooser).1, 0) := by
  obtain ⟨halg, huri⟩ := hreq
  unfold chooseCandidate selectServer setHashServer
  rw [if_neg (not_not.mpr h0), balancer_getAvailableServers, show
    x.chooser.balancer.algorithm = .hash from halg]
  dsimp only
  rw [huri]
  rfl

theorem step_request {c : Chooser L} {code : ℤ}
    (hc : chooseCandidate buf x.chooser = some (c, code)) :
    (controlMachine L).step x (.request buf) = some { x with chooser := c } := by
  show (chooseCandidate buf x.chooser).map _ = _
  rw [hc, Option.map_some]

omit [LoadArith L] in
/-- An entry that names a member is hit exactly if the member passes the test. -/
theorem hit_iff_passes (hx : HashInvariant x) (h0 : (getAvailableServers x.chooser).2 = 0)
    (hs : s < x.balancer.nmembers) :
    (verifyServer x.balancer.overloadMode (x.balancer.members s) = 0 ∨
        verifyServer x.balancer.overloadMode (x.balancer.members s) = 1 ∧
          (getAvailableServers x.chooser).1.usingMemberStandby = true) ↔
      PassesTest x.balancer s := by
  have hok := hx.table.membersOk hx.cursor
  have hready := getAvailableServers_memberReady hok.cursorOk h0
  have hiff := hit_iff_mem (k := s) hready (by rw [balancer_getAvailableServers]; exact hs)
  rw [hready.members_eq, mem_availableServers, balancer_getAvailableServers] at hiff
  exact hiff.trans ⟨fun hmem => hmem.2, fun hp => ⟨hs, hp⟩⟩

/-- **One request** with index `h`, whose entry names `s`. -/
theorem routes_request (hx : HashInvariant x) (hentry : x.balancer.hashTable h = some s)
    (hs : s < x.balancer.nmembers) (hreq : HashRequest h buf x) :
    ∃ s', Routes h s x (.request buf) s' ∧
      ∀ y, (controlMachine L).step x (.request buf) = some y → y.balancer.hashTable h = some s' := by
  have hok := hx.table.membersOk hx.cursor
  by_cases h0 : (getAvailableServers x.chooser).2 = 0
  · have hchoose := chooseCandidate_hash hreq h0
    have hstep := step_request hchoose
    have hiff := hit_iff_passes hx h0 hs
    rcases hashLookup_cases h (getAvailableServers x.chooser).1 with
      ⟨k, hk, hv, hb, hm⟩ | ⟨hnot, hb, hm⟩
    · -- the entry is hit
      rw [balancer_getAvailableServers] at hk hv hb hm
      obtain rfl : s = k := Option.some.inj (hentry.symm.trans hk)
      have hpass := hiff.mp hv
      refine ⟨s, .kept buf hreq hpass ⟨_, hchoose, ?_⟩, fun y hy => ?_⟩
      · rw [hm]
        exact hok.table.id_eq s hs hpass.1.1
      · obtain rfl := Option.some.inj (hstep.symm.trans hy)
        show (hashLookup h (getAvailableServers x.chooser).1).balancer.hashTable h = some s
        rw [hb]
        exact hentry
    · -- the entry is given to the member found by least connections
      rw [balancer_getAvailableServers] at hnot hb
      have hsound := soundMember_fallbackMember hok h0
      have hmoved : (hashLookup h (getAvailableServers x.chooser).1).balancer.hashTable h
          = some (fallbackMember x.chooser) := by
        rw [hb, hashTable_giveEntry]
        exact Function.update_self _ _ _
      refine ⟨fallbackMember x.chooser, .moved buf _ hreq ?_ hsound ⟨_, hchoose, hm⟩
        ⟨_, hstep, hmoved⟩, fun y hy => ?_⟩
      · exact fun hpass => hnot ⟨s, hentry, hiff.mpr hpass⟩
      · obtain rfl := Option.some.inj (hstep.symm.trans hy)
        exact hmoved
  · have hnone := (getAvailableServers_ne_zero_iff x.chooser).mp h0
    refine ⟨s, .unserved buf hreq (fun hpass => hnone s hs hpass.1) hnone, fun y hy => ?_⟩
    obtain ⟨⟨c, code⟩, hc, rfl⟩ := Option.map_eq_some_iff.mp hy
    show c.balancer.hashTable h = some s
    rcases chooseCandidate_balancer hc with ⟨-, heq⟩ | ⟨hash, hr, -⟩
    · rw [heq]
      exact hentry
    · exact absurd hr.1 h0

/-- A member that a request is sent to is there, and has the entry afterwards. -/
theorem entry_of_sent (hx : HashInvariant x) (hreq : HashRequest h buf x)
    (hsent : SentTo buf x s) (hstep : (controlMachine L).step x (.request buf) = some y) :
    y.balancer.hashTable h = some s ∧ SoundMember x.balancer s := by
  have hok := hx.table.membersOk hx.cursor
  obtain ⟨c, hc, rfl⟩ := hsent
  obtain ⟨hsame, ⟨hne, -⟩ | ⟨-, hsound⟩⟩ := chooseCandidate_cases hok hc
  · exact absurd rfl hne
  refine ⟨?_, hsound.of_sameButHash hsame⟩
  obtain rfl := Option.some.inj ((step_request hc).symm.trans hstep)
  show c.balancer.hashTable h = some c.nextMember
  have h0 : (getAvailableServers x.chooser).2 = 0 := by
    by_contra hne
    have hnone := (getAvailableServers_ne_zero_iff x.chooser).mp hne
    have hs := hsound.of_sameButHash hsame
    exact hnone _ hs.lt hs.eligible
  obtain ⟨rfl, -⟩ := Prod.mk.inj (Option.some.inj (hc.symm.trans (chooseCandidate_hash hreq h0)))
  rcases hashLookup_cases h (getAvailableServers x.chooser).1 with
    ⟨k, hk, hv, hb, hm⟩ | ⟨-, hb, hm⟩
  · rw [balancer_getAvailableServers] at hk hv hb hm
    have hlt := hok.hash_lt h k hk
    have hpass := (hit_iff_passes hx h0 hlt).mp hv
    rw [hb, hm, hk]
    exact congrArg some (hok.table.id_eq k hlt hpass.1.1).symm
  · rw [hb, hm, hashTable_giveEntry]
    exact Function.update_self _ _ _

end Request

/-! ## Along a run -/

section Run

variable [LoadArith L] {x y : Control L} {i : ControlInput L} {h s : ℕ}

/-- A step without `OverfillsMembers` stays within the table. -/
theorem staysWithin_of_room (hx : HashInvariant x) (hroom : ¬ OverfillsMembers x i) :
    StaysWithin x i := by
  intro y hstep
  have hle : x.balancer.count .member ≤ maxServers := hx.table.count_le
  exact count_le_of_room hle (fun malloc r hi hvalid hfull => hroom ⟨malloc, r, hi, hvalid, hfull⟩)
    hstep

/-- The invariant in all states of a run in which there is room for the members
that are created. -/
theorem hashInvariant_of_room (hx : HashInvariant x) {inputs : List (ControlInput L)}
    (hroom : ∀ v ∈ (controlMachine L).visits x inputs, ¬ OverfillsMembers v.1 v.2) :
    ∀ y ∈ (controlMachine L).states x inputs, HashInvariant y := by
  have hgood : ∀ v ∈ (controlMachine L).visits x inputs, Roomy v.1 v.2 := hroom
  refine (controlMachine L).states_invariant_of_visits ?_ hx hgood
  exact fun s i t hs hg hstep => hs.step hstep (staysWithin_of_room hs hg t hstep)

/-- Index `h` belongs to `s`, which has not been deleted. -/
structure Belongs (h s : ℕ) (x : Control L) : Prop where
  inv : HashInvariant x
  entry : x.balancer.hashTable h = some s
  lt : h < hashTableSize
  status : (x.balancer.members s).status ≠ .deleted

omit [LoadArith L] in
theorem Belongs.member_lt (hx : Belongs h s x) :
    s < x.balancer.nmembers ∧ (x.balancer.members s).status ≠ .free :=
  hx.inv.table.exact.named h hx.lt s hx.entry

/-- A step other than a request with the index leaves the entry where it is. -/
theorem Belongs.keep (hx : Belongs h s x) (hdist : ¬ Disturbs s x i)
    (hother : ∀ buf, i = .request buf → ¬ HashRequest h buf x)
    (hstep : (controlMachine L).step x i = some y) : y.balancer.hashTable h = some s := by
  obtain ⟨hinv, hentry, -, hs⟩ := hx
  cases control_cases hstep with
  | same => exact hentry
  | created i malloc kind r tools hi =>
      show (createBalancerServer malloc kind r x.balancer).1.hashTable h = some s
      rcases createBalancerServer_cases malloc kind r x.balancer with ⟨-, heq, -⟩ | ⟨-, -, hc⟩
      · rw [heq]
        exact hentry
      · rw [hc.hashTable]
        exact hentry
  | edited tool cmd b tools hi he => exact (congrFun he.hashTable h).trans hentry
  | released hidle =>
      -- only entries of deleted members are cleared
      refine ((passed_handleDeleteServers x.balancer).hashKept h fun _ k _ hk hd => ?_).trans hentry
      obtain rfl : s = k := Option.some.inj (hentry.symm.trans hk)
      exact hs hd.1
  | probing => exact hentry
  | judged verdict p hp =>
      exact (congrFun (hashTable_finishProbe p verdict x.balancer) h).trans hentry
  | rebalanced q threshold size _ => exact absurd (Or.inl ⟨q, threshold, size, rfl⟩) hdist
  | chosen buf c status hc =>
      show c.balancer.hashTable h = some s
      rcases chooseCandidate_balancer hc with ⟨-, heq⟩ | ⟨hash, hr, heq, -, -⟩
      · rw [heq]
        exact hentry
      · have hne : h ≠ hash := by
          rintro rfl
          exact hother buf rfl ⟨hr.2.1, hr.2.2.1⟩
        rw [heq, hashTable_giveEntry, Function.update_of_ne hne]
        exact hentry
  | counted p c => exact hentry

/-- Members that are there get deleted by the administrator only. -/
theorem ne_deleted_step (hx : HashInvariant x) (hlt : s < x.balancer.nmembers)
    (hfree : (x.balancer.members s).status ≠ .free)
    (hs : (x.balancer.members s).status ≠ .deleted) (hdist : ¬ Disturbs s x i)
    (hstep : (controlMachine L).step x i = some y) : (y.balancer.members s).status ≠ .deleted := by
  have hmax : s < maxServers := Nat.lt_of_lt_of_le hlt hx.table.count_le
  have hsame : ∀ b : Balancer L, SameButHash x.balancer b → (b.members s).status ≠ .deleted := by
    intro b hb
    rw [members, hb.field Server.status fun _ _ => rfl]
    exact hs
  cases control_cases hstep with
  | same => exact hs
  | created i malloc kind r tools hi =>
      show ((createBalancerServer malloc kind r x.balancer).1.members s).status ≠ .deleted
      rcases createBalancerServer_cases malloc kind r x.balancer with ⟨-, heq, -⟩ | ⟨-, -, hc⟩
      · rw [heq]
        exact hs
      · rw [members, hc.others (memberSlot s)]
        · exact hs
        · cases kind with
          | clone => exact memberSlot_ne_cloneSlot hmax _
          | member =>
              intro heq
              have hnew : s = newIndex .member x.balancer := heq
              rw [hnew] at hlt hfree
              exact hfree (newIndex_free hlt)
  | edited tool cmd b tools hi he =>
      intro hdel
      rcases (he.servers (memberSlot s)).was_deleted hdel with hdel | ⟨type, id, rfl, htarget⟩
      · exact hs hdel
      · exact hdist (Or.inr ⟨tool, type, id, rfl, htarget⟩)
  | released hidle =>
      have hpass := passed_handleDeleteServers x.balancer
      show ((handleDeleteServers x.balancer).members s).status ≠ .deleted
      by_cases hr : x.balancer.Releases (memberSlot s)
      · rw [members, hpass.zeroed _ hr]
        intro hdel
        cases hdel
      · rw [members, hpass.kept _ hr]
        exact hs
  | probing => exact hs
  | judged verdict p hp =>
      show ((finishProbe p verdict x.balancer).members s).status ≠ .deleted
      rcases finishProbe_cases p verdict x.balancer with heq | ⟨alive, mode, -, heq⟩
      · rw [heq]
        exact hs
      · rw [heq]
        show ((x.balancer.modifyServer p (verdictServer alive)).servers (memberSlot s)).status ≠ _
        rw [servers_modifyServer]
        split_ifs
        · unfold verdictServer
          split_ifs
          · simp
          · simp
        · exact hs
  | rebalanced q threshold size _ => exact hsame _ (sameButHash_rebalanceHash q threshold size _)
  | chosen buf c status hc => exact hsame _ (sameButHash_chooseCandidate hc)
  | counted p c =>
      show ((setConnections p c x.balancer).members s).status ≠ .deleted
      rw [members, setConnections_field Server.status fun _ _ => rfl]
      exact hs

/-- **One step.**  The index goes on belonging to a member, and requests with it
are routed accordingly. -/
theorem Belongs.step (hx : Belongs h s x) (hdist : ¬ Disturbs s x i)
    (hroom : ¬ OverfillsMembers x i) : ∃ s', Routes h s x i s' ∧
      ∀ y, (controlMachine L).step x i = some y → Belongs h s' y := by
  have hnext : ∀ y, (controlMachine L).step x i = some y → HashInvariant y := fun y hstep =>
    hx.inv.step hstep (staysWithin_of_room hx.inv hroom y hstep)
  obtain ⟨hlt, hfree⟩ := hx.member_lt
  by_cases hreq : ∃ buf, i = .request buf ∧ HashRequest h buf x
  · obtain ⟨buf, rfl, hreq⟩ := hreq
    obtain ⟨s', hroutes, hentry⟩ := routes_request hx.inv hx.entry hlt hreq
    refine ⟨s', hroutes, fun y hstep => ⟨hnext y hstep, hentry y hstep, hx.lt, ?_⟩⟩
    have hs' : (x.balancer.members s').status ≠ .deleted := by
      cases hroutes with
      | other _ hi => exact absurd hreq (hi buf rfl)
      | kept => exact hx.status
      | moved _ _ _ _ hsound =>
          rw [hsound.eligible.1]
          nofun
      | unserved => exact hx.status
    obtain ⟨⟨c, code⟩, hc, rfl⟩ := Option.map_eq_some_iff.mp hstep
    show (c.balancer.members s').status ≠ .deleted
    rw [members, (sameButHash_chooseCandidate hc).field Server.status fun _ _ => rfl]
    exact hs'
  · have hother : ∀ buf, i = .request buf → ¬ HashRequest h buf x :=
      fun buf hi hr => hreq ⟨buf, hi, hr⟩
    refine ⟨s, .other i hother, fun y hstep => ?_⟩
    exact ⟨hnext y hstep, hx.keep hdist hother hstep, hx.lt,
      ne_deleted_step hx.inv hlt hfree hx.status hdist hstep⟩

/-- Along a run. -/
theorem Belongs.affine (hx : Belongs h s x) (inputs : List (ControlInput L))
    (hroom : ∀ v ∈ (controlMachine L).visits x inputs, ¬ OverfillsMembers v.1 v.2) :
    Affine h s x inputs := by
  induction inputs generalizing s x with
  | nil => trivial
  | cons i is ih =>
      by_cases hdist : Disturbs s x i
      · exact Or.inl hdist
      · have hfirst : ¬ OverfillsMembers x i := hroom (x, i) List.mem_cons_self
        obtain ⟨s', hroutes, hnext⟩ := hx.step hdist hfirst
        refine Or.inr ⟨s', hroutes, fun y hstep => ih (hnext y hstep) fun v hv => ?_⟩
        rw [(controlMachine L).visits_cons_of_step hstep] at hroom
        exact hroom v (List.mem_cons_of_mem _ hv)

/-- Affinity goes on after a step that is no request and disturbs nothing. -/
theorem Affine.tail {is : List (ControlInput L)} (ha : Affine h s x (i :: is))
    (hdist : ¬ Disturbs s x i) (hi : ∀ buf, i ≠ .request buf)
    (hstep : (controlMachine L).step x i = some y) : Affine h s y is := by
  rcases ha with hd | ⟨s', hroutes, hnext⟩
  · exact absurd hd hdist
  · cases hroutes with
    | other => exact hnext y hstep
    | kept buf => exact absurd rfl (hi buf)
    | moved buf => exact absurd rfl (hi buf)
    | unserved buf => exact absurd rfl (hi buf)

/-- While its member passes the test, a request with the index is sent to it. -/
theorem Affine.sentTo {buf : List UInt8} {is : List (ControlInput L)}
    (ha : Affine h s x (.request buf :: is)) (hreq : HashRequest h buf x)
    (hs : PassesTest x.balancer s) : SentTo buf x s := by
  rcases ha with hd | ⟨s', hroutes, -⟩
  · rcases hd with ⟨_, _, _, hi⟩ | ⟨_, _, _, hi, -⟩ <;> cases hi
  · cases hroutes with
    | other _ hi => exact absurd hreq (hi buf rfl)
    | kept _ _ _ hsent => exact hsent
    | moved _ _ _ hn => exact absurd hs hn
    | unserved _ _ hn => exact absurd hs hn

/-- **Affinity.**  In every run from the state of `initialize_balancer` in which
no member is created when there are `MAXSERVERS`, requests with an index follow
the first one until its member fails the test, and then the next. -/
theorem affinity_of_room (hx : x.Initial) (inputs : List (ControlInput L))
    (hroom : ∀ v ∈ (controlMachine L).visits x inputs, ¬ OverfillsMembers v.1 v.2) :
    Affinity x inputs := by
  rintro before buf after h s y z rfl hrun hreq hsent hstep
  have hinv := hashInvariant_of_room (hashInvariant_initial hx) hroom
  have hvisits : (controlMachine L).visits x (before ++ .request buf :: after)
      = (controlMachine L).visits x before ++
        (y, .request buf) :: (controlMachine L).visits z after := by
    rw [(controlMachine L).visits_append hrun, (controlMachine L).visits_cons_of_step hstep]
  have hvisit : (y, .request buf) ∈ (controlMachine L).visits x (before ++ .request buf :: after) :=
    hvisits ▸ List.mem_append_right _ List.mem_cons_self
  have hy := hinv y ((controlMachine L).mem_states_of_mem_visits hvisit)
  have hz := hinv z ((controlMachine L).mem_states_of_step hvisit hstep)
  rw [hvisits] at hroom
  obtain ⟨hentry, hsound⟩ := entry_of_sent hy hreq hsent hstep
  refine Belongs.affine ⟨hz, hentry, ?_, ?_⟩ after fun v hv => ?_
  · exact Nat.lt_of_lt_of_le (uriIndex_lt hreq.2) (Nat.sub_le _ _)
  · obtain ⟨⟨c, code⟩, hc, rfl⟩ := Option.map_eq_some_iff.mp hstep
    show (c.balancer.members s).status ≠ .deleted
    rw [members, (sameButHash_chooseCandidate hc).field Server.status fun _ _ => rfl]
    show (y.balancer.members s).status ≠ .deleted
    rw [hsound.eligible.1]
    decide
  · exact hroom v (List.mem_append_right _ (List.mem_cons_of_mem _ hv))

end Run

/-! ## Samples -/

/-- A request for `/a`. -/
def sampleUri : List UInt8 := [71, 69, 84, 32, 47, 97, 10]

/-- One member, and two requests for one URI. -/
def twoRequests : List (ControlInput ℤ) :=
  [.section true .member sampleRequest, .command 0 (.algorithm .hash), .request sampleUri,
    .request sampleUri]

/-- There is room for the member. -/
theorem affinity_two_requests : Affinity sampleControl twoRequests :=
  affinity_of_room initial_sampleControl twoRequests fun v hv => by
    rintro ⟨malloc, r, hi, -, hfull, -⟩
    rcases (controlMachine ℤ).eq_or_mem_of_mem_visits hv with rfl | hmem
    · cases hfull
    · obtain ⟨x, i⟩ := v
      rcases List.mem_cons.mp hmem with rfl | hmem
      · cases hi
      · rcases List.mem_cons.mp hmem with rfl | hmem
        · cases hi
        · obtain rfl := List.mem_singleton.mp hmem
          cases hi

/-! ## One member too many -/

/-- The 513th member is enabled, and requests are hashed. -/
def lastEnabled : List (ControlInput ℤ) :=
  [.section true .member sampleRequest, .command 0 (.algorithm .hash)]

/-- A clone is created and enabled. -/
def cloneEnabled : List (ControlInput ℤ) :=
  [.command 0 (.create [99] [98] (some 2) 80 true), .command 0 (.enable [99] [48])]

/-- The state when the second request comes, found by running. -/
def secondRequestTest (w : Control ℤ) : Bool :=
  decide (w.balancer.algorithm = .hash ∧ (w.balancer.members 512).standbyState = false ∧
    Eligible w.balancer.overloadMode (w.balancer.members 512)) &&
  (chooseCandidate sampleUri w.chooser).all fun r => decide (r.1.nextMember = 0)

/-- The state when the first request comes. -/
def firstRequestTest (y : Control ℤ) : Bool :=
  decide (y.balancer.algorithm = .hash) &&
  (chooseCandidate sampleUri y.chooser).any fun r => decide (r.2 = 0 ∧ r.1.nextMember = 512)

/-- The first member gets the second request: the clone shares its slot with the
member that got the first, and its id is zero. -/
theorem affinity_lost :
    sampleControl.Initial ∧ ¬ Affinity sampleControl
      ((List.replicate maxServers (.section true .member disabledRequest) ++ lastEnabled) ++
        .request sampleUri :: (cloneEnabled ++ [.request sampleUri])) := by
  refine ⟨initial_sampleControl, fun hall => ?_⟩
  obtain ⟨y, hbefore, hcond⟩ := exists_run_of_crowded lastEnabled (fun y =>
    firstRequestTest y && ((controlMachine ℤ).run y (.request sampleUri :: cloneEnabled)).any
      secondRequestTest) (by decide +kernel)
  obtain ⟨htest, hrest⟩ := Bool.and_eq_true_iff.mp hcond
  obtain ⟨w, hw, hsecond⟩ := (Option.any_eq_true _ _).mp hrest
  obtain ⟨halg, hchoose⟩ := Bool.and_eq_true_iff.mp htest
  obtain ⟨⟨c, code⟩, hc, hcode⟩ := (Option.any_eq_true _ _).mp hchoose
  obtain ⟨rfl, hnext⟩ := of_decide_eq_true hcode
  have huri : uriIndex sampleUri = .found 34655 := by decide +kernel
  -- the steps between the two requests
  obtain ⟨z, hz, hzw⟩ := Machine.exists_step_of_run_cons _ hw
  obtain ⟨z₁, hz₁, hz₁w⟩ := Machine.exists_step_of_run_cons _ hzw
  obtain ⟨z₂, hz₂, hz₂w⟩ := Machine.exists_step_of_run_cons _ hz₁w
  obtain rfl := Option.some.inj hz₂w
  have hstart := hall _ sampleUri _ 34655 512 y z rfl hbefore
    ⟨of_decide_eq_true halg, huri⟩ ⟨c, hc, hnext⟩ hz
  have hquiet : ∀ (x : Control ℤ) (tool : ℕ) (cmd : Command ℤ),
      (∀ type id, cmd ≠ .delete type id) → ¬ Disturbs 512 x (.command tool cmd) := by
    rintro x tool cmd hcmd (⟨_, _, _, hi⟩ | ⟨_, type, id, hi, -⟩)
    · cases hi
    · exact hcmd type id (ControlInput.command.inj hi).2
  have hcreated := hstart.tail (hquiet _ _ _ nofun) nofun hz₁
  have henabled := hcreated.tail (hquiet _ _ _ nofun) nofun hz₂
  -- the second request
  obtain ⟨hstate, hsent⟩ := Bool.and_eq_true_iff.mp hsecond
  obtain ⟨halg', hnormal, heligible⟩ := of_decide_eq_true hstate
  have hpass : PassesTest z₂.balancer 512 :=
    ⟨heligible, fun hs => absurd (hnormal.symm.trans hs) nofun⟩
  obtain ⟨c', hc', hnext'⟩ := henabled.sentTo ⟨halg', huri⟩ hpass
  have hzero := of_decide_eq_true ((Option.all_eq_true _ _).mp hsent _ hc')
  rw [hnext'] at hzero
  cases hzero

end OctopusLB
