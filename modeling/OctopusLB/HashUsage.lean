/-
# The hash table in all reachable states

`usage_exact`: as long as there are never more than `MAXSERVERS` members, in
every state reached from that of `initialize_balancer` the usage counter of a
member is the number of table entries that name it, every entry names a member
that is there, and no step wraps a counter.

The invariant is `MemberTable`; it also keeps what a choice of member needs to
know of the table (`MemberTable.membersOk`).
-/
import OctopusLB.HashEntries

namespace OctopusLB

open Balancer

variable {L : Type}

/-! ## The table of members -/

/-- What holds of the members and of the hash table. -/
structure MemberTable (b : Balancer L) : Prop where
  exact : UsageExact b
  outside : ∀ j, hashTableSize ≤ j → b.hashTable j = none
  count_le : b.nmembers ≤ maxServers
  id_eq : ∀ i < maxServers, (b.members i).Live → (b.members i).id = i
  past : ∀ i < maxServers, (b.members i).Live → i < b.nmembers

/-- A member that is being probed is there, under its own id. -/
def ProbesMember (x : Control L) : Prop :=
  ∀ i < maxServers, x.probe = some (memberSlot i) →
    i < x.balancer.nmembers ∧ (x.balancer.members i).status ≠ .free ∧
      (x.balancer.members i).id = i

/-- The invariant of the control machine. -/
structure HashInvariant (x : Control L) : Prop where
  table : MemberTable x.balancer
  cursor : x.chooser.nextMember < maxServers
  probe : ProbesMember x

theorem Server.live_of_enabled {s : Server L} (h : s.status = .enabled) : s.Live := by
  unfold Server.Live
  rw [h]
  exact ⟨nofun, nofun⟩

theorem Server.live_of_probed {s : Server L} (h : s.Probed) : s.Live := by
  unfold Server.Live
  rcases h with h | h
  · rw [h]
    exact ⟨nofun, nofun⟩
  · rw [h]
    exact ⟨nofun, nofun⟩

/-- What a choice of member needs. -/
theorem MemberTable.membersOk {x : Chooser L} (h : MemberTable x.balancer)
    (hcur : x.nextMember < maxServers) : x.MembersOk where
  table :=
    { id_eq := fun i hi hs =>
        h.id_eq i (Nat.lt_of_lt_of_le hi h.count_le) (Server.live_of_enabled hs)
      past := fun i hi hn hs =>
        absurd (h.past i hi (Server.live_of_enabled hs)) (Nat.not_lt.mpr hn) }
  next_lt := hcur
  hash_lt := by
    intro j k hk
    by_cases hj : j < hashTableSize
    · exact (h.exact.named j hj k hk).1
    · rw [h.outside j (Nat.not_lt.mp hj)] at hk
      cases hk

/-! ## What keeps it -/

/-- Changes that leave the hash table, the number of members and their counters. -/
theorem MemberTable.of_members {b b' : Balancer L} (h : MemberTable b)
    (hn : b'.nmembers = b.nmembers) (ht : b'.hashTable = b.hashTable)
    (husage : ∀ i < maxServers, (b'.members i).hashTableUsage = (b.members i).hashTableUsage)
    (hfree : ∀ i < maxServers, (b.members i).status ≠ .free → (b'.members i).status ≠ .free)
    (hlive : ∀ i < maxServers, (b'.members i).Live → (b'.members i).id = i ∧ i < b.nmembers) :
    MemberTable b' where
  exact :=
    { usage := by
        intro i hi
        rw [hn] at hi
        rw [husage i (Nat.lt_of_lt_of_le hi h.count_le), h.exact.usage i hi]
        unfold uses
        rw [ht]
      named := by
        intro j hj k hk
        rw [ht] at hk
        obtain ⟨hlt, hs⟩ := h.exact.named j hj k hk
        exact ⟨hn.symm ▸ hlt, hfree k (Nat.lt_of_lt_of_le hlt h.count_le) hs⟩ }
  outside := fun j hj => (congrFun ht j).trans (h.outside j hj)
  count_le := hn ▸ h.count_le
  id_eq := fun i hi hl => (hlive i hi hl).1
  past := fun i hi hl => hn.symm ▸ (hlive i hi hl).2

/-- Changes of the hash table only. -/
theorem MemberTable.of_exact {b b' : Balancer L} (h : MemberTable b) (hsame : SameButHash b b')
    (hexact : UsageExact b') (hout : ∀ j, hashTableSize ≤ j → b'.hashTable j = b.hashTable j) :
    MemberTable b' := by
  have hstatus := fun i => hsame.field Server.status (fun _ _ => rfl) (memberSlot i)
  have hid := fun i => hsame.field Server.id (fun _ _ => rfl) (memberSlot i)
  have hlive : ∀ i, (b'.members i).Live → (b.members i).Live := by
    intro i hl
    unfold Server.Live at hl ⊢
    exact hstatus i ▸ hl
  refine ⟨hexact, fun j hj => (hout j hj).trans (h.outside j hj), hsame.nmembers ▸ h.count_le,
    fun i hi hl => (hid i).trans (h.id_eq i hi (hlive i hl)), fun i hi hl => ?_⟩
  rw [hsame.nmembers]
  exact h.past i hi (hlive i hl)

/-- A slot of the clones is not one of the members. -/
theorem memberSlot_ne_cloneSlot {i : ℕ} (hi : i < maxServers) (j : ℕ) :
    memberSlot i ≠ cloneSlot j := by
  have h : i < maxServers + j := Nat.lt_of_lt_of_le hi (Nat.le_add_right _ _)
  exact Nat.ne_of_lt h

/-- A creation keeps the table as long as there are not too many members. -/
theorem MemberTable.create [IntCast L] {b : Balancer L} (h : MemberTable b) (malloc : Bool)
    (kind : ServerKind) (r : CreateRequest L)
    (hmax : (createBalancerServer malloc kind r b).1.nmembers ≤ maxServers) :
    MemberTable (createBalancerServer malloc kind r b).1 := by
  rcases createBalancerServer_cases malloc kind r b with ⟨-, heq, -⟩ | ⟨-, -, hc⟩
  · rw [heq]
    exact h
  generalize (createBalancerServer malloc kind r b).1 = b' at hmax hc
  cases kind with
  | clone =>
      have hsame : ∀ i < maxServers, b'.members i = b.members i :=
        fun i hi => hc.others _ (memberSlot_ne_cloneSlot hi _)
      refine h.of_members (hc.otherCount .member nofun) hc.hashTable (fun i hi => ?_)
        (fun i hi => ?_) fun i hi hl => ?_
      · rw [hsame i hi]
      · rw [hsame i hi]
        exact id
      · rw [hsame i hi] at hl ⊢
        exact ⟨h.id_eq i hi hl, h.past i hi hl⟩
  | member =>
      have hcount : b'.nmembers = max b.nmembers (newIndex .member b + 1) := hc.count
      have hwritten : b'.members (newIndex .member b)
          = { r.record with id := newIndex .member b } := hc.written
      have hother : ∀ i, i ≠ newIndex .member b → b'.members i = b.members i := fun i hi =>
        hc.others _ hi
      have hle : newIndex .member b ≤ b.nmembers := newIndex_le .member b
      -- no entry names the slot that is written
      have hunused : ∀ j < hashTableSize, b.hashTable j ≠ some (newIndex .member b) := by
        intro j hj hk
        obtain ⟨hlt, hs⟩ := h.exact.named j hj _ hk
        exact hs (newIndex_free hlt)
      have huses : ∀ i, uses b' i = uses b i := fun i => by
        unfold uses
        rw [hc.hashTable]
      refine ⟨⟨fun i hi => ?_, fun j hj k hk => ?_⟩, fun j hj => ?_, hmax, fun i hi hl => ?_,
        fun i hi hl => ?_⟩
      · rw [huses]
        by_cases hnew : i = newIndex .member b
        · rw [hnew, hwritten, uses_eq_zero hunused]
          rfl
        · rw [hother i hnew]
          exact h.exact.usage i (by omega)
      · rw [hc.hashTable] at hk
        obtain ⟨hlt, hs⟩ := h.exact.named j hj k hk
        have hne : k ≠ newIndex .member b := fun heq => hunused j hj (heq ▸ hk)
        rw [hother k hne]
        exact ⟨by omega, hs⟩
      · rw [hc.hashTable]
        exact h.outside j hj
      · by_cases hnew : i = newIndex .member b
        · rw [hnew, hwritten]
        · rw [hother i hnew] at hl ⊢
          exact h.id_eq i hi hl
      · by_cases hnew : i = newIndex .member b
        · omega
        · rw [hother i hnew] at hl
          have hlt := h.past i hi hl
          omega

/-- In a pass a member is drained and zeroed, or left. -/
theorem members_release_cases [IntCast L] (b : Balancer L) {i : ℕ} (hi : i < maxServers) :
    (i < b.nmembers ∧ (b.members i).Drained ∧ (handleDeleteServers b).members i = .zero L) ∨
      ((i < b.nmembers → ¬ (b.members i).Drained) ∧
        (handleDeleteServers b).members i = b.members i) := by
  have hpass := passed_handleDeleteServers b
  by_cases hd : i < b.nmembers ∧ (b.members i).Drained
  · exact Or.inl ⟨hd.1, hd.2, hpass.zeroed _ ⟨.member, i, hd.1, rfl, hd.2⟩⟩
  · refine Or.inr ⟨fun hlt hdr => hd ⟨hlt, hdr⟩, hpass.kept _ ?_⟩
    rintro ⟨kind, j, hj, hslot, hdr⟩
    cases kind with
    | member =>
        have hij : i = j := hslot
        exact hd ⟨hij ▸ hj, hdr⟩
    | clone => exact memberSlot_ne_cloneSlot hi j hslot

/-- A hash entry stays exactly if its member is not drained. -/
theorem MemberTable.hashTable_release_iff [IntCast L] {b : Balancer L} (h : MemberTable b) {j : ℕ}
    (hj : j < hashTableSize) (i : ℕ) : (handleDeleteServers b).hashTable j = some i ↔
      b.hashTable j = some i ∧ ¬ (b.members i).Drained := by
  have hpass := passed_handleDeleteServers b
  cases hk : b.hashTable j with
  | none =>
      rw [hpass.hashKept j fun _ i _ hi => absurd (hk.symm.trans hi) nofun, hk]
      exact ⟨nofun, fun h => nomatch h.1⟩
  | some k =>
      obtain ⟨hlt, -⟩ := h.exact.named j hj k hk
      by_cases hd : (b.members k).Drained
      · rw [hpass.cleared j hj k hlt hk hd]
        refine ⟨nofun, fun hi => ?_⟩
        rw [Option.some.injEq] at hi
        exact absurd hd (hi.1 ▸ hi.2)
      · rw [hpass.hashKept j fun _ i _ hi => ?_, hk]
        · refine ⟨fun hi => ⟨hi, ?_⟩, fun hi => hi.1⟩
          rw [Option.some.injEq] at hi
          exact hi ▸ hd
        · rw [hk, Option.some.injEq] at hi
          exact hi ▸ hd

/-- A member that is not drained keeps its entries. -/
theorem MemberTable.uses_release [IntCast L] {b : Balancer L} (h : MemberTable b) {i : ℕ}
    (hd : ¬ (b.members i).Drained) : uses (handleDeleteServers b) i = uses b i := by
  unfold uses
  refine tally_congr fun j hj => ?_
  rw [decide_eq_decide, h.hashTable_release_iff (List.mem_range.mp hj)]
  exact ⟨fun h => h.1, fun h => ⟨h, hd⟩⟩

/-- A pass keeps the usage counts exact. -/
theorem MemberTable.usage_release [IntCast L] {b : Balancer L} (h : MemberTable b) :
    UsageExact (handleDeleteServers b) where
  usage := by
    intro i hi
    have hib : i < b.nmembers :=
      Nat.lt_of_lt_of_le hi ((passed_handleDeleteServers b).count_le .member)
    rcases members_release_cases b (Nat.lt_of_lt_of_le hib h.count_le) with
      ⟨-, hd, hz⟩ | ⟨hd, heq⟩
    · rw [hz, uses_eq_zero fun j hj hk => ((h.hashTable_release_iff hj i).mp hk).2 hd]
      rfl
    · rw [heq, h.uses_release (hd hib)]
      exact h.exact.usage i hib
  named := by
    intro j hj k hk
    obtain ⟨hkb, hd⟩ := (h.hashTable_release_iff hj k).mp hk
    obtain ⟨hlt, hs⟩ := h.exact.named j hj k hkb
    refine ⟨(passed_handleDeleteServers b).count_lt .member k hlt hd, ?_⟩
    rcases members_release_cases b (Nat.lt_of_lt_of_le hlt h.count_le) with ⟨-, hd', -⟩ | ⟨-, heq⟩
    · exact absurd hd' hd
    · rw [heq]
      exact hs

/-- A pass of the monitor keeps the table. -/
theorem MemberTable.release [IntCast L] {b : Balancer L} (h : MemberTable b) :
    MemberTable (handleDeleteServers b) where
  exact := h.usage_release
  outside := by
    intro j hj
    rw [(passed_handleDeleteServers b).hashKept j fun hlt => absurd hlt (Nat.not_lt.mpr hj)]
    exact h.outside j hj
  count_le := Nat.le_trans ((passed_handleDeleteServers b).count_le .member) h.count_le
  id_eq := by
    intro i hi hl
    rcases members_release_cases b hi with ⟨-, -, hz⟩ | ⟨-, heq⟩
    · rw [hz] at hl
      exact absurd rfl hl.1
    · rw [heq] at hl ⊢
      exact h.id_eq i hi hl
  past := by
    intro i hi hl
    rcases members_release_cases b hi with ⟨-, -, hz⟩ | ⟨hd, heq⟩
    · rw [hz] at hl
      exact absurd rfl hl.1
    · rw [heq] at hl
      have hlt := h.past i hi hl
      exact (passed_handleDeleteServers b).count_lt .member i hlt (hd hlt)

/-- A verdict about a member that is there keeps the table. -/
theorem MemberTable.verdict [IntCast L] {b : Balancer L} (h : MemberTable b) {p : ℕ}
    (hp : ∀ i < maxServers, p = memberSlot i →
      i < b.nmembers ∧ (b.members i).status ≠ .free ∧ (b.members i).id = i)
    (verdict : Option Bool) : MemberTable (finishProbe p verdict b) := by
  rcases finishProbe_cases p verdict b with heq | ⟨alive, mode, -, heq⟩
  · rw [heq]
    exact h
  · have hkept : ∀ s : Server L, (verdictServer alive s).id = s.id ∧
        (verdictServer alive s).hashTableUsage = s.hashTableUsage ∧
        (verdictServer alive s).status ≠ .free := by
      intro s
      unfold verdictServer
      cases alive with
      | true => exact ⟨rfl, rfl, nofun⟩
      | false => exact ⟨rfl, rfl, nofun⟩
    have hslot : ∀ i, (finishProbe p verdict b).members i
        = if memberSlot i = p then verdictServer alive (b.members i) else b.members i := by
      intro i
      rw [heq]
      exact servers_modifyServer b p (memberSlot i) _
    refine h.of_members ?_ (hashTable_finishProbe p verdict b) (fun i hi => ?_) (fun i hi hs => ?_)
      fun i hi hl => ?_
    · exact congrFun (count_finishProbe p verdict b) .member
    · rw [hslot]
      split_ifs
      · exact (hkept _).2.1
      · rfl
    · rw [hslot]
      split_ifs
      · exact (hkept _).2.2
      · exact hs
    · rw [hslot] at hl ⊢
      split_ifs at hl ⊢ with hip
      · obtain ⟨hlt, -, hid⟩ := hp i hi hip.symm
        exact ⟨(hkept _).1.trans hid, hlt⟩
      · exact ⟨h.id_eq i hi hl, h.past i hi hl⟩

/-! ## Along a run -/

/-- A step wraps a usage counter. -/
def WrapsCounter [LoadArith L] (x : Control L) : ControlInput L → Prop
  | .request clientReadBuffer => ∃ hash, Reassigns clientReadBuffer x.chooser hash ∧
      GiveWraps hash (fallbackMember x.chooser) x.balancer
  | .rebalance q threshold size => RebalanceWraps hashTableSize q threshold size x.balancer
  | _ => False

section Run

variable [LoadArith L] {x y : Control L} {i : ControlInput L}

omit [LoadArith L] in
/-- The enabled members carry their own id. -/
theorem MemberTable.id_of_enabled {b : Balancer L} (h : MemberTable b) :
    ∀ i < b.nmembers, (b.members i).status = .enabled → (b.members i).id = i := fun i hi hs =>
  h.id_eq i (Nat.lt_of_lt_of_le hi h.count_le) (Server.live_of_enabled hs)

omit [LoadArith L] in
/-- The member that a request gives its entry to may be connected to. -/
theorem soundMember_fallbackMember (hok : x.chooser.MembersOk)
    (h : (getAvailableServers x.chooser).2 = 0) :
    SoundMember x.balancer (fallbackMember x.chooser) := by
  have hready := getAvailableServers_memberReady hok.cursorOk h
  have hside : (getAvailableServers x.chooser).1.MemberSide := by
    refine ⟨?_, hready⟩
    rw [balancer_getAvailableServers]
    exact hok.table
  have hchosen := (chosen_setLcServer _).member hside
  obtain ⟨hlt, he, hall⟩ := hchosen.ready.spec
  rw [balancer_setLcServer, balancer_getAvailableServers] at hlt he hall
  exact ⟨hlt, he, hall⟩

omit [LoadArith L] in
/-- A sound member is there. -/
theorem SoundMember.ne_free {b : Balancer L} {k : ℕ} (h : SoundMember b k) :
    (b.members k).status ≠ .free := by
  rw [h.eligible.1]
  nofun

/-- **No step wraps a counter.** -/
theorem HashInvariant.not_wraps (h : HashInvariant x) (i : ControlInput L) :
    ¬ WrapsCounter x i := by
  cases i with
  | request buf =>
      rintro ⟨hash, hr, hwraps⟩
      have hsound := soundMember_fallbackMember (h.table.membersOk h.cursor) hr.1
      have hhash : hash < hashTableSize := Nat.lt_of_lt_of_le (uriIndex_lt hr.2.2.1) (Nat.sub_le _ _)
      exact (h.table.exact.give hhash hsound.lt hsound.ne_free).2 hwraps
  | rebalance q threshold size =>
      exact (h.table.exact.rebalance h.table.id_of_enabled (Nat.le_refl _) q threshold size).2.2
  | _ => exact id

/-- What a creation does not write: the members that are there. -/
theorem members_create {b : Balancer L} (hle : b.nmembers ≤ maxServers) (malloc : Bool)
    (kind : ServerKind) (r : CreateRequest L) {j : ℕ} (hj : j < b.nmembers)
    (hs : (b.members j).status ≠ .free) :
    (createBalancerServer malloc kind r b).1.members j = b.members j := by
  rcases createBalancerServer_cases malloc kind r b with ⟨-, heq, -⟩ | ⟨-, -, hc⟩
  · rw [heq]
  · refine hc.others _ fun hslot => ?_
    cases kind with
    | member =>
        have hjn : j = newIndex .member b := hslot
        rw [hjn] at hj hs
        exact hs (newIndex_free hj)
    | clone => exact memberSlot_ne_cloneSlot (Nat.lt_of_lt_of_le hj hle) _ hslot

omit [LoadArith L] in
/-- A step that leaves the members that are there leaves the one being probed. -/
theorem ProbesMember.keep (h : ProbesMember x) (hprobe : y.probe = x.probe)
    (hn : x.balancer.nmembers ≤ y.balancer.nmembers)
    (hmembers : ∀ j < x.balancer.nmembers, (x.balancer.members j).status ≠ .free →
      (y.balancer.members j).status ≠ .free ∧
        (y.balancer.members j).id = (x.balancer.members j).id) : ProbesMember y := by
  intro j hj hp
  obtain ⟨hlt, hs, hid⟩ := h j hj (hprobe ▸ hp)
  obtain ⟨hs', hid'⟩ := hmembers j hlt hs
  exact ⟨Nat.lt_of_lt_of_le hlt hn, hs', hid'.trans hid⟩

omit [LoadArith L] in
theorem ProbesMember.of_sameButHash (h : ProbesMember x) (hprobe : y.probe = x.probe)
    (hb : SameButHash x.balancer y.balancer) : ProbesMember y := by
  refine h.keep hprobe (Nat.le_of_eq hb.nmembers.symm) fun j _ hs => ⟨?_, ?_⟩
  · rw [members, hb.field Server.status fun _ _ => rfl]
    exact hs
  · exact hb.field Server.id (fun _ _ => rfl) _

/-- **The member being probed** stays where it is. -/
theorem HashInvariant.probe_step (h : HashInvariant x)
    (hstep : (controlMachine L).step x i = some y) : ProbesMember y := by
  cases control_cases hstep with
  | same i tools => exact h.probe
  | created i malloc kind r tools hi =>
      refine h.probe.keep rfl (count_le_create malloc kind r x.balancer .member) fun j hj hs => ?_
      have hleft := members_create h.table.count_le malloc kind r hj hs
      show ((createBalancerServer malloc kind r x.balancer).1.members j).status ≠ .free ∧
        ((createBalancerServer malloc kind r x.balancer).1.members j).id = _
      rw [hleft]
      exact ⟨hs, rfl⟩
  | edited tool cmd b tools hi he =>
      refine h.probe.keep rfl (Nat.le_of_eq he.nmembers.symm) fun j _ hs => ?_
      exact ⟨(he.servers j).ne_free hs, (he.servers j).frame.1⟩
  | released hidle => exact fun j _ hp => absurd (hidle.symm.trans hp) nofun
  | probing kind k hidle hk hs =>
      intro j hj hp
      have hslot : slot kind k = memberSlot j := Option.some.inj hp
      cases kind with
      | member =>
          have hkj : k = j := hslot
          subst hkj
          have hl : (x.balancer.members k).Live := Server.live_of_probed hs
          exact ⟨hk, hl.1, h.table.id_eq k hj hl⟩
      | clone => exact absurd hslot.symm (memberSlot_ne_cloneSlot hj k)
  | judged verdict p hp => exact fun j _ hp' => nomatch hp'
  | rebalanced q threshold size hidle =>
      exact h.probe.of_sameButHash rfl (sameButHash_rebalanceHash q threshold size x.balancer)
  | chosen buf c status hc => exact h.probe.of_sameButHash rfl (sameButHash_chooseCandidate hc)
  | counted p c =>
      have hfield : ∀ {α : Type} (g : Server L → α), (∀ s c, g { s with c := c } = g s) → ∀ j,
          g ((setConnections p c x.balancer).members j) = g (x.balancer.members j) :=
        fun g hg j => setConnections_field g hg p c x.balancer (memberSlot j)
      refine h.probe.keep rfl (Nat.le_refl _) fun j _ hs => ⟨?_, hfield Server.id (fun _ _ => rfl) j⟩
      exact (hfield Server.status (fun _ _ => rfl) j).symm ▸ hs

/-- **The table of members** stays in order. -/
theorem HashInvariant.table_step (h : HashInvariant x)
    (hstep : (controlMachine L).step x i = some y) (hmax : y.balancer.nmembers ≤ maxServers) :
    MemberTable y.balancer := by
  obtain ⟨htable, hcur, hprobe⟩ := h
  cases control_cases hstep with
  | same i tools => exact htable
  | created i malloc kind r tools hi => exact htable.create malloc kind r hmax
  | edited tool cmd b tools hi he =>
      refine htable.of_members he.nmembers he.hashTable (fun j _ => (he.servers j).frame.2.2)
        (fun j _ hs => (he.servers j).ne_free hs) fun j hj hl => ?_
      have hl' : (x.balancer.members j).Live := (he.servers j).was_live hl
      exact ⟨(he.servers j).frame.1.trans (htable.id_eq j hj hl'), htable.past j hj hl'⟩
  | released hidle => exact htable.release
  | probing kind k hidle hk hs => exact htable
  | judged verdict p hp => exact htable.verdict (fun j hj heq => hprobe j hj (heq ▸ hp)) verdict
  | rebalanced q threshold size hidle =>
      have hb := sameButHash_rebalanceHash q threshold size x.balancer
      obtain ⟨hexact, hout, -⟩ :=
        htable.exact.rebalance htable.id_of_enabled (Nat.le_refl _) q threshold size
      exact htable.of_exact hb hexact hout
  | chosen buf c status hc =>
      show MemberTable c.balancer
      rcases chooseCandidate_balancer hc with ⟨-, heq⟩ | ⟨hash, hr, heq, -, -⟩
      · rw [heq]
        exact htable
      · -- the fallback has got the entry
        have hsound := soundMember_fallbackMember (htable.membersOk hcur) hr.1
        have hhash : hash < hashTableSize :=
          Nat.lt_of_lt_of_le (uriIndex_lt hr.2.2.1) (Nat.sub_le _ _)
        rw [heq]
        refine htable.of_exact (sameButHash_giveEntry hash _ _)
          (htable.exact.give hhash hsound.lt hsound.ne_free).1 fun j hj => ?_
        rw [hashTable_giveEntry, Function.update_of_ne]
        · rfl
        · exact Nat.ne_of_gt (Nat.lt_of_lt_of_le hhash hj)
  | counted p c =>
      have hfield : ∀ {α : Type} (g : Server L → α), (∀ s c, g { s with c := c } = g s) → ∀ j,
          g ((setConnections p c x.balancer).members j) = g (x.balancer.members j) :=
        fun g hg j => setConnections_field g hg p c x.balancer (memberSlot j)
      have hstatus := hfield Server.status fun _ _ => rfl
      refine htable.of_members rfl rfl (fun j _ => hfield Server.hashTableUsage (fun _ _ => rfl) j)
        (fun j _ hs => (hstatus j).symm ▸ hs) fun j hj hl => ?_
      have hl' : (x.balancer.members j).Live := by
        unfold Server.Live at hl ⊢
        exact hstatus j ▸ hl
      exact ⟨(hfield Server.id (fun _ _ => rfl) j).trans (htable.id_eq j hj hl'),
        htable.past j hj hl'⟩

/-- **Every step keeps the invariant** as long as there are not too many
members. -/
theorem HashInvariant.step (h : HashInvariant x) (hstep : (controlMachine L).step x i = some y)
    (hmax : y.balancer.nmembers ≤ maxServers) : HashInvariant y where
  table := h.table_step hstep hmax
  cursor := by
    cases control_cases hstep with
    | chosen buf c status hc =>
        exact nextMember_lt_chooseCandidate (h.table.membersOk h.cursor) h.table.count_le hc
    | _ => exact h.cursor
  probe := h.probe_step hstep

/-- The state of `initialize_balancer`. -/
theorem hashInvariant_initial (h : x.Initial) : HashInvariant x := by
  obtain ⟨maxl, weight, heq⟩ := h.balancer
  refine ⟨?_, ?_, fun j _ hp => absurd (h.probe.symm.trans hp) nofun⟩
  · rw [heq]
    exact ⟨⟨nofun, fun _ _ _ hk => nomatch hk⟩, fun _ _ => rfl, Nat.zero_le _,
      fun _ _ hl => absurd rfl hl.1, fun _ _ hl => absurd rfl hl.1⟩
  · rw [h.nextMember]
    exact maxServers_pos

/-- A step leaves no more than `MAXSERVERS` members. -/
def StaysWithin (x : Control L) (i : ControlInput L) : Prop :=
  ∀ y, (controlMachine L).step x i = some y → y.balancer.nmembers ≤ maxServers

/-- The invariant in all states of a run. -/
theorem hashInvariant_states (hx : x.Initial) (inputs : List (ControlInput L))
    (hmax : ∀ y ∈ (controlMachine L).states x inputs, y.balancer.nmembers ≤ maxServers) :
    ∀ y ∈ (controlMachine L).states x inputs, HashInvariant y := by
  have hgood : ∀ v ∈ (controlMachine L).visits x inputs, StaysWithin v.1 v.2 := fun v hv y hy =>
    hmax y ((controlMachine L).mem_states_of_step hv hy)
  refine (controlMachine L).states_invariant_of_visits ?_ (hashInvariant_initial hx) hgood
  exact fun s i t hs hstay hstep => hs.step hstep (hstay t hstep)

/-- **Hash table accounting.**  In every run from the state of
`initialize_balancer` with never more than `MAXSERVERS` members, the usage
counters are exact in all states, every table entry names a member that is
there, and no step wraps a counter. -/
theorem usage_exact (hx : x.Initial) (inputs : List (ControlInput L))
    (hmax : ∀ y ∈ (controlMachine L).states x inputs, y.balancer.nmembers ≤ maxServers) :
    (∀ y ∈ (controlMachine L).states x inputs, UsageExact y.balancer) ∧
      ∀ v ∈ (controlMachine L).visits x inputs, ¬ WrapsCounter v.1 v.2 := by
  have hinv := hashInvariant_states hx inputs hmax
  refine ⟨fun y hy => (hinv y hy).table.exact, fun v hv => ?_⟩
  exact (hinv v.1 ((controlMachine L).mem_states_of_mem_visits hv)).not_wraps v.2

end Run

/-- Two members, and a request that is hashed. -/
def hashedRequest : List (ControlInput ℤ) :=
  [.section true .member sampleRequest, .section true .member sampleRequest,
    .command 0 (.algorithm .hash), .request [71, 69, 84, 32, 47, 97, 10]]

/-- The table is rebalanced, the member with the entry is deleted and given back;
and another request for the same URI. -/
def entryReleased (q : QSort ℤ) : List (ControlInput ℤ) :=
  [.rebalance q 0 100, .command 0 (.delete [109] [49]), .release,
    .request [71, 69, 84, 32, 47, 97, 10]]

/-- The counters of that run. -/
theorem usage_exact_entryReleased :
    ((controlMachine ℤ).run sampleControl hashedRequest).any
        (fun y => y.balancer.hashTable 34655 = some 1) = true ∧
      ∀ q, (∀ y ∈ (controlMachine ℤ).states sampleControl (hashedRequest ++ entryReleased q),
          UsageExact y.balancer) ∧
        ∀ v ∈ (controlMachine ℤ).visits sampleControl (hashedRequest ++ entryReleased q),
          ¬ WrapsCounter v.1 v.2 := by
  refine ⟨by decide +kernel, fun q => usage_exact initial_sampleControl _ fun y hy => ?_⟩
  exact (count_le_length initial_sampleControl _ .member y hy).trans
    (show 8 ≤ maxServers by decide)

end OctopusLB
