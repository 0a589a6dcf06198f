/-
# Member selection is sound and complete

`chooseServer_selection`: `choose_server` gives up exactly when no member is
eligible, and otherwise connects to an eligible one, a standby only if there is
nothing else.  So no connect raises the count of a member above its limit.
-/
import OctopusLB.SelectionFacts
import OctopusLB.SessionRun

namespace OctopusLB

variable {n : ℕ} {L : Type}

/-- A member that may be handed to `connect_server`. -/
structure SoundMember (b : Balancer L) (k : ℕ) : Prop where
  lt : k < b.nmembers
  eligible : Eligible b.overloadMode (b.members k)
  standby : (b.members k).standbyState = true → ∀ j < b.nmembers,
    Eligible b.overloadMode (b.members j) → (b.members j).standbyState = true

/-- A request whose hash entry names a member that may be used. -/
def HashHit (hash : ℕ) (x : Chooser L) : Prop :=
  ∃ k, x.balancer.hashTable hash = some k ∧
    (verifyServer x.balancer.overloadMode (x.balancer.members k) = 0 ∨
      verifyServer x.balancer.overloadMode (x.balancer.members k) = 1 ∧
        (scanMembers x).usingMemberStandby = true)

/-- Hash usage counts do not matter. -/
theorem SoundMember.of_sameButHash {b b' : Balancer L} {k : ℕ} (hb : SameButHash b b')
    (h : SoundMember b' k) : SoundMember b k := by
  have hstandby : ∀ i, (b'.members i).standbyState = (b.members i).standbyState := by
    intro i
    rw [Balancer.members, hb.servers]
    rfl
  have hiff : ∀ i, Eligible b'.overloadMode (b'.members i)
      ↔ Eligible b.overloadMode (b.members i) := fun i => hb.eligible_iff _
  obtain ⟨hlt, he, hall⟩ := h
  simp only [hb.nmembers, hiff, hstandby] at hlt he hall
  exact ⟨hlt, he, hall⟩

/-- The two ways in which the choice can end. -/
theorem chooseCandidate_cases [LoadArith L] {buf : List UInt8} {x c : Chooser L} {code : ℤ}
    (hok : x.MembersOk) (h : chooseCandidate buf x = some (c, code)) :
    SameButHash x.balancer c.balancer ∧
      ((code ≠ 0 ∧ ∀ i < x.balancer.nmembers,
          ¬ Eligible x.balancer.overloadMode (x.balancer.members i)) ∨
        (code = 0 ∧ SoundMember c.balancer c.nextMember)) := by
  have hsame : SameButHash x.balancer (getAvailableServers x).1.balancer := by
    rw [balancer_getAvailableServers]
    exact .refl _
  unfold chooseCandidate at h
  by_cases h0 : (getAvailableServers x).2 = 0
  · rw [if_neg (not_not.mpr h0), Option.map_eq_some_iff] at h
    obtain ⟨y, hsel, heq⟩ := h
    obtain ⟨rfl, rfl⟩ := Prod.mk.inj heq
    have hhash : ∀ i k, (getAvailableServers x).1.balancer.hashTable i = some k →
        k < (getAvailableServers x).1.balancer.nmembers := by
      rw [balancer_getAvailableServers]
      exact hok.hash_lt
    have hside : (getAvailableServers x).1.MemberSide := by
      refine ⟨?_, getAvailableServers_memberReady hok.cursorOk h0⟩
      rw [balancer_getAvailableServers]
      exact hok.table
    have hchosen := selectServer_spec hhash hsel
    obtain ⟨hlt, he, hall⟩ := (hchosen.member hside).ready.spec
    exact ⟨hsame.trans hchosen.same, Or.inr ⟨rfl, hlt, he, hall⟩⟩
  · rw [if_pos h0] at h
    obtain ⟨rfl, rfl⟩ := Prod.mk.inj (Option.some.inj h)
    exact ⟨hsame, Or.inl ⟨by decide, (getAvailableServers_ne_zero_iff x).mp h0⟩⟩

/-! ## Connection counts -/

/-- One half of `connect_server` changes the count of its own server only, and
only from below its limit if that server is eligible. -/
theorem server_connects {kind : ServerKind} {slot : ℕ} {x y : Ctx n L}
    (h : Connects kind slot x y) (p : ℕ) :
    y.sys.chooser.balancer.servers p = x.sys.chooser.balancer.servers p ∨
      (p = slot ∧ y.sys.chooser.balancer.servers p
        = { x.sys.chooser.balancer.servers p with
            c := (x.sys.chooser.balancer.servers p).c + 1 }) := by
  cases h with
  | skipped => exact Or.inl rfl
  | leaked => exact Or.inl rfl
  | associated => exact Or.inl rfl
  | established fd hfd hnone =>
      have hp := x.sys.chooser.balancer.servers_modifyServer slot p
        fun s => { s with c := s.c + 1 }
      by_cases hps : p = slot
      · rw [if_pos hps] at hp
        exact Or.inr ⟨hps, hp⟩
      · rw [if_neg hps] at hp
        exact Or.inl hp

/-- `connect_server` raises the count of no member but the chosen one. -/
theorem member_connectServer (env : ConnectEnv) (x : Ctx n L) {i : ℕ} (hi : i < maxServers) :
    (connectServer env x).1.sys.chooser.balancer.members i = x.sys.chooser.balancer.members i ∨
      (i = x.sys.chooser.nextMember ∧ (connectServer env x).1.sys.chooser.balancer.members i
        = { x.sys.chooser.balancer.members i with
            c := (x.sys.chooser.balancer.members i).c + 1 }) := by
  have hm := server_connects (connectMember_connects env.member x) (Balancer.memberSlot i)
  unfold connectServer
  split_ifs
  · exact hm
  · have hc := server_connects (connectClone_connects env.clone (connectMember env.member x).1)
      (Balancer.memberSlot i)
    rcases hc with hc | ⟨hslot, -⟩
    · unfold Balancer.members at hm ⊢
      rw [hc]
      exact hm
    · -- a clone is never in a slot below `MAXSERVERS`
      exact absurd hslot (Nat.ne_of_lt (Nat.lt_of_lt_of_le hi (Nat.le_add_right _ _)))

/-- **Selection of members.**  Whenever `choose_server` returns, it has given up
before `connect_server` exactly if no member is eligible; otherwise it has
called `connect_server` for a sound member.  The count of a member that it
raises stays within the limit. -/
theorem chooseServer_selection [LoadArith L] {env : ConnectEnv} {x y : Ctx n L} {status : ℤ}
    (hok : x.sys.chooser.MembersOk) (h : chooseServer env x = some (y, status)) :
    ∃ c code, chooseCandidate x.session.clientReadBuffer.cells x.sys.chooser = some (c, code) ∧
      (code ≠ 0 ↔ ∀ i < x.sys.chooser.balancer.nmembers,
        ¬ Eligible x.sys.chooser.balancer.overloadMode (x.sys.chooser.balancer.members i)) ∧
      (code ≠ 0 → status = -1 ∧
        y = (x.updateSys fun s => { s with chooser := c }).observe (.chose status)) ∧
      (code = 0 → SoundMember x.sys.chooser.balancer c.nextMember ∧
        y = (connectServer env (x.updateSys fun s => { s with chooser := c })).1.observe
          (.chose status) ∧
        status = (connectServer env (x.updateSys fun s => { s with chooser := c })).2) ∧
      ∀ i < maxServers, (y.sys.chooser.balancer.members i).c
          = (x.sys.chooser.balancer.members i).c ∨
        (y.sys.chooser.balancer.members i).c ≤ (y.sys.chooser.balancer.members i).maxc := by
  obtain ⟨c, code, hc, hor⟩ := chooseServer_cases h
  obtain ⟨hsame, hcases⟩ := chooseCandidate_cases hok hc
  have hfield : ∀ i, (c.balancer.members i).c = (x.sys.chooser.balancer.members i).c := by
    intro i
    rw [Balancer.members, hsame.servers]
    rfl
  refine ⟨c, code, hc, ?_⟩
  rcases hcases with ⟨hcode, hnone⟩ | ⟨hcode, hsound⟩
  · rcases hor with ⟨-, hstatus, hy⟩ | ⟨h0, -, -⟩
    · refine ⟨⟨fun _ => hnone, fun _ => hcode⟩, fun _ => ⟨hstatus, hy⟩,
        fun h0 => absurd h0 hcode, fun i _ => Or.inl ?_⟩
      rw [hy]
      exact hfield i
    · exact absurd h0 hcode
  · rcases hor with ⟨hne, -, -⟩ | ⟨-, hy, hstatus⟩
    · exact absurd hcode hne
    · have hsound' := hsound.of_sameButHash hsame
      refine ⟨⟨fun hne => absurd hcode hne, fun hnone => ?_⟩, fun hne => absurd hcode hne,
        fun _ => ⟨hsound', hy, hstatus⟩, fun i hi => ?_⟩
      · exact absurd hsound'.eligible (hnone _ hsound'.lt)
      · rw [hy]
        rcases member_connectServer env (x.updateSys fun s => { s with chooser := c }) hi with
          heq | ⟨rfl, heq⟩
        · refine Or.inl ?_
          rw [Ctx.sys_observe, heq]
          exact hfield i
        · refine Or.inr ?_
          rw [Ctx.sys_observe, heq]
          have hlt := hsound.eligible.2.1
          exact Int.add_one_le_of_lt hlt

/-- Four members, the first full and the third a standby, and two clones. -/
def severalServers (p : ℕ) : Server ℤ :=
  if p = 0 then { sampleServer 0 false with c := 10 }
  else if p = 1 then { sampleServer 1 false with c := 3, load := 1 }
  else if p = 2 then sampleServer 2 true
  else if p = 3 then { sampleServer 3 false with c := 1, load := 5 }
  else if p = maxServers then { sampleServer 0 false with c := 2 }
  else if p = maxServers + 1 then sampleServer 1 false
  else .zero ℤ

/-- The same choice among them. -/
def severalChooser : Chooser ℤ :=
  { pairChooser with
    balancer := { pairChooser.balancer with
      nmembers := 4, nclones := 2, servers := severalServers } }

theorem severalChooser_membersOk : severalChooser.MembersOk where
  table := tableOk_of_zero (by decide) fun i hi hn => by
    have hge : 4 ≤ i := hn
    show severalServers i = _
    unfold severalServers
    rw [if_neg (by omega), if_neg (by omega), if_neg (by omega), if_neg (by omega),
      if_neg (by omega), if_neg (by omega)]
  next_lt := by decide
  hash_lt := nofun

/-- The sample session, with these servers. -/
def severalIdle : Ctx 1 ℤ := sampleIdle.updateSys fun y => { y with chooser := severalChooser }

/-- What it gets from `choose_server`. -/
def sampleChoice : Ctx 1 ℤ × ℤ := (chooseServer sampleEnv.connect severalIdle).get (by decide)

/-- Neither the full member nor the standby is chosen. -/
theorem sampleChoice_selection : sampleChoice.1.sys.chooser.nextMember = 3 ∧
    ∃ c code, chooseCandidate severalIdle.session.clientReadBuffer.cells severalChooser
        = some (c, code) ∧
      (code ≠ 0 ↔ ∀ i < 4, ¬ Eligible .relaxed (severalChooser.balancer.members i)) ∧
      (code ≠ 0 → sampleChoice.2 = -1 ∧ sampleChoice.1
        = (severalIdle.updateSys fun s => { s with chooser := c }).observe
          (.chose sampleChoice.2)) ∧
      (code = 0 → SoundMember severalChooser.balancer c.nextMember ∧
        sampleChoice.1 = (connectServer sampleEnv.connect
          (severalIdle.updateSys fun s => { s with chooser := c })).1.observe
            (.chose sampleChoice.2) ∧
        sampleChoice.2 = (connectServer sampleEnv.connect
          (severalIdle.updateSys fun s => { s with chooser := c })).2) ∧
      ∀ i < maxServers, (sampleChoice.1.sys.chooser.balancer.members i).c
          = (severalChooser.balancer.members i).c ∨
        (sampleChoice.1.sys.chooser.balancer.members i).c
          ≤ (sampleChoice.1.sys.chooser.balancer.members i).maxc := by
  have h : chooseServer sampleEnv.connect severalIdle = some (sampleChoice.1, sampleChoice.2) :=
    (Option.some_get (by decide)).symm
  exact ⟨by decide, chooseServer_selection severalChooser_membersOk h⟩

end OctopusLB
