/-
# Effective load and the limit of a server (`calc_effective_load`)

The SNMP build's monitor turns `load` and `maxl` into a percentage, which the
selection compares with 100 in STRICT mode.  Loads are exact rationals here; the
percentage is converted to an `int`, toward zero.

`strictEnforced_iff`: STRICT mode enforces the limits exactly if every percentage
is an `int` and no server that could be chosen otherwise is over its limit by less
than one percent.
-/
import Mathlib.Algebra.Order.Floor.Ring
import Mathlib.Data.Rat.Floor
import OctopusLB.SelectionFacts
import OctopusLB.ServerTables

namespace OctopusLB

open Balancer

/-! ## `calc_effective_load` -/

/-- The conversion of a `float` to `int`: toward zero, undefined out of range. -/
def floatToInt (x : ℚ) : Option ℤ :=
  let n := if 0 ≤ x then ⌊x⌋ else ⌈x⌉
  if -2 ^ 31 ≤ n ∧ n < 2 ^ 31 then some n else none

/-- The tests for a load or a limit that is not there; a clone may have load
zero. -/
def Server.Unloaded (kind : ServerKind) (s : Server ℚ) : Prop :=
  match kind with
  | .member => s.load ≤ 0 ∨ s.maxl ≤ 0
  | .clone => s.load < 0 ∨ s.maxl ≤ 0

instance (kind : ServerKind) (s : Server ℚ) : Decidable (s.Unloaded kind) := by
  unfold Server.Unloaded
  cases kind <;> infer_instance

/-- The new `e_load`. -/
def effectiveLoad (kind : ServerKind) (s : Server ℚ) : Option ℤ :=
  if s.Unloaded kind then some 0 else floatToInt (s.load / s.maxl * 100)

/-- One assignment of either loop. -/
def setEffectiveLoad (kind : ServerKind) (b : Balancer ℚ) (i : ℕ) : Option (Balancer ℚ) :=
  (effectiveLoad kind (b.table kind i)).map fun e =>
    b.modifyServer (slot kind i) fun s => { s with eLoad := e }

/-- The balancer with `overall_l` and `overall_maxl`. -/
structure LoadTotals where
  balancer : Balancer ℚ
  overallL : ℚ
  overallMaxl : ℚ

/-- One round of the loop over the members. -/
def LoadTotals.addMember (x : LoadTotals) (i : ℕ) : Option LoadTotals :=
  let s := x.balancer.members i
  (setEffectiveLoad .member x.balancer i).map fun b =>
    if s.Unloaded .member then { x with balancer := b }
    else ⟨b, x.overallL + s.load, x.overallMaxl + s.maxl⟩

/-- `calc_effective_load`, with the `overall_load` it is given and returns; `none` if
a percentage is not an `int`. -/
def calcEffectiveLoad (b : Balancer ℚ) (overallLoad : ℤ) : Option (Balancer ℚ × ℤ) :=
  ((List.range b.nmembers).foldlM LoadTotals.addMember ⟨b, 0, 0⟩).bind fun x =>
    ((List.range b.nclones).foldlM (setEffectiveLoad .clone) x.balancer).bind fun b' =>
      if 0 < x.overallL then
        (floatToInt (x.overallL / x.overallMaxl * 100)).map fun overall => (b', overall)
      else some (b', overallLoad)

/-! ## Percentages -/

/-- A server with a load and a limit. -/
def Server.Loaded (s : Server ℚ) : Prop := 0 < s.load ∧ 0 < s.maxl

/-- The percentage of a server. -/
def Server.percent (s : Server ℚ) : ℚ := s.load / s.maxl * 100

/-- It is an `int` once converted. -/
def Server.Fits (s : Server ℚ) : Prop := s.load * 100 < 2 ^ 31 * s.maxl

instance (s : Server ℚ) : Decidable s.Fits := inferInstanceAs (Decidable (_ < _))

theorem floatToInt_of_nonneg {x : ℚ} (h : 0 ≤ x) :
    floatToInt x = if x < 2 ^ 31 then some ⌊x⌋ else none := by
  have hfloor : 0 ≤ ⌊x⌋ := Int.floor_nonneg.mpr h
  have hiff : ⌊x⌋ < 2 ^ 31 ↔ x < 2 ^ 31 := by
    rw [Int.floor_lt]
    norm_num
  have hrange : -2 ^ 31 ≤ ⌊x⌋ ∧ ⌊x⌋ < 2 ^ 31 ↔ x < 2 ^ 31 := by
    rw [hiff]
    exact and_iff_right (by omega)
  unfold floatToInt
  simp only [h, if_true, hrange]

theorem percent_lt_iff {s : Server ℚ} (h : s.Loaded) (n : ℚ) :
    s.percent < n ↔ s.load * 100 < n * s.maxl := by
  unfold Server.percent
  rw [div_mul_eq_mul_div, div_lt_iff₀ h.2]

theorem percent_nonneg {s : Server ℚ} (h : s.Loaded) : 0 ≤ s.percent :=
  mul_nonneg (div_nonneg h.1.le h.2.le) (by norm_num)

theorem not_unloaded {s : Server ℚ} (h : s.Loaded) (kind : ServerKind) : ¬ s.Unloaded kind := by
  cases kind with
  | member => exact not_or.mpr ⟨not_le.mpr h.1, not_le.mpr h.2⟩
  | clone => exact not_or.mpr ⟨not_lt.mpr h.1.le, not_le.mpr h.2⟩

/-- Both loops do the same for a server with a load and a limit. -/
theorem effectiveLoad_of_loaded {s : Server ℚ} (h : s.Loaded) (kind : ServerKind) :
    effectiveLoad kind s = if s.Fits then some ⌊s.percent⌋ else none := by
  have hfits : s.percent < 2 ^ 31 ↔ s.Fits := percent_lt_iff h _
  unfold effectiveLoad
  rw [if_neg (not_unloaded h kind)]
  change floatToInt s.percent = _
  rw [floatToInt_of_nonneg (percent_nonneg h)]
  simp only [hfits]

/-- Without a load or a limit the percentage is zero. -/
theorem effectiveLoad_of_not_loaded {s : Server ℚ} (h : ¬ s.Loaded) (kind : ServerKind) :
    effectiveLoad kind s = some 0 := by
  unfold effectiveLoad
  by_cases hu : s.Unloaded kind
  · rw [if_pos hu]
  rw [if_neg hu]
  cases kind with
  | member =>
      obtain ⟨hl, hm⟩ := not_or.mp hu
      exact absurd ⟨not_le.mp hl, not_le.mp hm⟩ h
  | clone =>
      -- a clone with load zero
      obtain ⟨hl, hm⟩ := not_or.mp hu
      have hzero : s.load = 0 := by
        refine le_antisymm (not_lt.mp fun hpos => ?_) (not_lt.mp hl)
        exact h ⟨hpos, not_le.mp hm⟩
      rw [hzero, zero_div, zero_mul]
      decide +kernel

theorem effectiveLoad_ne_none_iff {s : Server ℚ} (kind : ServerKind) :
    effectiveLoad kind s ≠ none ↔ (s.Loaded → s.Fits) := by
  by_cases hl : s.Loaded
  · rw [effectiveLoad_of_loaded hl, imp_iff_right hl]
    by_cases hf : s.Fits
    · rw [if_pos hf]
      exact iff_of_true nofun hf
    · rw [if_neg hf]
      exact iff_of_false (not_not.mpr rfl) hf
  · rw [effectiveLoad_of_not_loaded hl]
    exact iff_of_true nofun fun h => absurd h hl

/-! ## The loops -/

/-- Nothing of the servers but their effective load has changed. -/
structure SameButLoad (b b' : Balancer ℚ) : Prop where
  servers : ∀ p, b'.servers p = { b.servers p with eLoad := (b'.servers p).eLoad }
  count : b'.count = b.count

theorem SameButLoad.refl (b : Balancer ℚ) : SameButLoad b b := ⟨fun _ => rfl, rfl⟩

theorem SameButLoad.trans {b₁ b₂ b₃ : Balancer ℚ} (h : SameButLoad b₁ b₂)
    (h' : SameButLoad b₂ b₃) : SameButLoad b₁ b₃ where
  servers := fun p => by rw [h'.servers p, h.servers p]
  count := h'.count.trans h.count

theorem SameButLoad.effectiveLoad {b b' : Balancer ℚ} (h : SameButLoad b b') (kind : ServerKind)
    (p : ℕ) : effectiveLoad kind (b'.servers p) = effectiveLoad kind (b.servers p) := by
  rw [h.servers p]
  rfl

/-- After a loop over a list of slots, those in the list have their percentages. -/
structure LoopDone (kind : ServerKind) (l : List ℕ) (b b' : Balancer ℚ) : Prop where
  same : SameButLoad b b'
  kept : ∀ p, (∀ i ∈ l, slot kind i ≠ p) → (b'.servers p).eLoad = (b.servers p).eLoad
  set : ∀ i ∈ l, effectiveLoad kind (b.table kind i) = some (b'.table kind i).eLoad

theorem setEffectiveLoad_done {kind : ServerKind} {b b' : Balancer ℚ} {i : ℕ}
    (h : setEffectiveLoad kind b i = some b') : LoopDone kind [i] b b' := by
  obtain ⟨e, he, rfl⟩ := Option.map_eq_some_iff.mp h
  refine ⟨⟨fun p => ?_, count_modifyServer _ _ _⟩, fun p hp => ?_, fun j hj => ?_⟩
  · rw [servers_modifyServer]
    split_ifs <;> rfl
  · rw [servers_modifyServer, if_neg (Ne.symm (hp i List.mem_cons_self))]
  · rw [List.mem_singleton.mp hj, he, table, servers_modifyServer, if_pos rfl]

/-- **Step.** -/
theorem LoopDone.trans {kind : ServerKind} {l l' : List ℕ} {b b₁ b' : Balancer ℚ}
    (h : LoopDone kind l b b₁) (h' : LoopDone kind l' b₁ b') : LoopDone kind (l ++ l') b b' where
  same := h.same.trans h'.same
  kept := fun p hp => (h'.kept p fun i hi => hp i (List.mem_append_right l hi)).trans
    (h.kept p fun i hi => hp i (List.mem_append_left l' hi))
  set := by
    intro i hi
    by_cases hi' : i ∈ l'
    · have hset := h'.set i hi'
      rw [table, h.same.effectiveLoad] at hset
      exact hset
    · have hkept := h'.kept (slot kind i) fun j hj heq => hi' (slot_injective kind heq ▸ hj)
      rw [h.set i ((List.mem_append.mp hi).resolve_right hi')]
      exact congrArg some hkept.symm

theorem loopDone_nil (kind : ServerKind) (b : Balancer ℚ) : LoopDone kind [] b b :=
  ⟨.refl b, fun _ _ => rfl, nofun⟩

theorem loopDone_of_foldlM {kind : ServerKind} {l : List ℕ} {b b' : Balancer ℚ}
    (h : l.foldlM (setEffectiveLoad kind) b = some b') : LoopDone kind l b b' := by
  induction l generalizing b with
  | nil =>
      obtain rfl := Option.some.inj h
      exact loopDone_nil kind b
  | cons i l ih =>
      rw [List.foldlM_cons, Option.bind_eq_bind, Option.bind_eq_some_iff] at h
      obtain ⟨b₁, hstep, hrest⟩ := h
      exact (setEffectiveLoad_done hstep).trans (ih hrest)

/-- A loop comes to its end exactly if all its percentages fit. -/
theorem foldlM_setEffectiveLoad_iff {kind : ServerKind} {l : List ℕ} {b : Balancer ℚ} :
    (∃ b', l.foldlM (setEffectiveLoad kind) b = some b') ↔
      ∀ i ∈ l, (b.table kind i).Loaded → (b.table kind i).Fits := by
  constructor
  · rintro ⟨b', h⟩ i hi
    rw [← effectiveLoad_ne_none_iff kind, (loopDone_of_foldlM h).set i hi]
    nofun
  · intro h
    induction l generalizing b with
    | nil => exact ⟨b, rfl⟩
    | cons i l ih =>
        obtain ⟨hi, hl⟩ := List.forall_mem_cons.mp h
        obtain ⟨e, he⟩ := Option.ne_none_iff_exists'.mp ((effectiveLoad_ne_none_iff kind).mpr hi)
        have hstep : setEffectiveLoad kind b i
            = some (b.modifyServer (slot kind i) fun s => { s with eLoad := e }) := by
          rw [setEffectiveLoad, he, Option.map_some]
        have hsame := (setEffectiveLoad_done hstep).same
        obtain ⟨b', hb'⟩ := ih fun j hj => by
          rw [← effectiveLoad_ne_none_iff kind, table, hsame.effectiveLoad]
          exact (effectiveLoad_ne_none_iff kind).mpr (hl j hj)
        refine ⟨b', ?_⟩
        rw [List.foldlM_cons, hstep, Option.bind_eq_bind, Option.bind_some, hb']

/-- What holds of the totals: their quotient is an `int` percentage as well. -/
structure LoadTotals.Bounded (x : LoadTotals) : Prop where
  overallL : 0 ≤ x.overallL
  overallMaxl : 0 ≤ x.overallMaxl
  le : x.overallL * 100 ≤ 2 ^ 31 * x.overallMaxl
  lt : 0 < x.overallL → 0 < x.overallMaxl ∧ x.overallL * 100 < 2 ^ 31 * x.overallMaxl

/-- The totals do not matter to the loop over the members. -/
theorem balancer_addMember (x : LoadTotals) (i : ℕ) :
    (x.addMember i).map LoadTotals.balancer = setEffectiveLoad .member x.balancer i := by
  unfold LoadTotals.addMember
  dsimp only
  cases setEffectiveLoad .member x.balancer i with
  | none => rfl
  | some b =>
      rw [Option.map_some, Option.map_some]
      split_ifs <;> rfl

theorem balancer_foldlM_addMember (l : List ℕ) (x : LoadTotals) :
    (l.foldlM LoadTotals.addMember x).map LoadTotals.balancer
      = l.foldlM (setEffectiveLoad .member) x.balancer := by
  induction l generalizing x with
  | nil => rfl
  | cons i l ih =>
      rw [List.foldlM_cons, List.foldlM_cons, ← balancer_addMember]
      cases x.addMember i with
      | none => rfl
      | some y => exact ih y

/-- **Step.**  A server with a percentage that fits keeps the totals bounded. -/
theorem LoadTotals.Bounded.addMember {x y : LoadTotals} (h : x.Bounded) {i : ℕ}
    (hy : x.addMember i = some y) : y.Bounded := by
  obtain ⟨b, hb, rfl⟩ := Option.map_eq_some_iff.mp hy
  split_ifs with hu
  · exact ⟨h.overallL, h.overallMaxl, h.le, h.lt⟩
  · obtain ⟨hload, hmaxl⟩ := not_or.mp hu
    have hloaded : (x.balancer.members i).Loaded := ⟨not_le.mp hload, not_le.mp hmaxl⟩
    have hfits : (x.balancer.members i).Fits := by
      refine (effectiveLoad_ne_none_iff .member).mp (fun hnone => ?_) hloaded
      unfold setEffectiveLoad at hb
      rw [table_member, hnone] at hb
      cases hb
    have hL := h.overallL
    have hM := h.overallMaxl
    have hle := h.le
    unfold Server.Fits at hfits
    obtain ⟨hl, hm⟩ := hloaded
    have hlt : (x.overallL + (x.balancer.members i).load) * 100
        < 2 ^ 31 * (x.overallMaxl + (x.balancer.members i).maxl) := by
      rw [add_mul, mul_add]
      exact add_lt_add_of_le_of_lt hle hfits
    exact ⟨add_nonneg hL hl.le, add_nonneg hM hm.le, hlt.le,
      fun _ => ⟨add_pos_of_nonneg_of_pos hM hm, hlt⟩⟩

theorem LoadTotals.Bounded.foldlM {l : List ℕ} {x y : LoadTotals} (h : x.Bounded)
    (hy : l.foldlM LoadTotals.addMember x = some y) : y.Bounded := by
  induction l generalizing x with
  | nil =>
      obtain rfl := Option.some.inj hy
      exact h
  | cons i l ih =>
      rw [List.foldlM_cons, Option.bind_eq_bind, Option.bind_eq_some_iff] at hy
      obtain ⟨x₁, hstep, hrest⟩ := hy
      exact ih (h.addMember hstep) hrest

/-- The overall load is an `int` where the loads of the members are. -/
theorem LoadTotals.Bounded.floatToInt_ne_none {x : LoadTotals} (h : x.Bounded)
    (hpos : 0 < x.overallL) : floatToInt (x.overallL / x.overallMaxl * 100) ≠ none := by
  obtain ⟨hmaxl, hlt⟩ := h.lt hpos
  have hfits : x.overallL / x.overallMaxl * 100 < 2 ^ 31 := by
    rw [div_mul_eq_mul_div, div_lt_iff₀ hmaxl]
    exact hlt
  rw [floatToInt_of_nonneg (mul_nonneg (div_nonneg hpos.le hmaxl.le) (by norm_num)), if_pos hfits]
  nofun

/-! ## The whole function -/

/-- The servers of both tables. -/
def Balancer.Listed (b : Balancer ℚ) (kind : ServerKind) (i : ℕ) : Prop := i < b.count kind

/-- All percentages are `int`s. -/
def LoadsFit (b : Balancer ℚ) : Prop :=
  ∀ kind i, b.Listed kind i → (b.table kind i).Loaded → (b.table kind i).Fits

theorem calcEffectiveLoad_eq_some {b b' : Balancer ℚ} {overall overall' : ℤ}
    (h : calcEffectiveLoad b overall = some (b', overall')) :
    ∃ b₁, LoopDone .member (List.range b.nmembers) b b₁ ∧
      LoopDone .clone (List.range b.nclones) b₁ b' := by
  unfold calcEffectiveLoad at h
  obtain ⟨x, hx, h⟩ := Option.bind_eq_some_iff.mp h
  obtain ⟨b₂, hb₂, h⟩ := Option.bind_eq_some_iff.mp h
  have hmembers : (List.range b.nmembers).foldlM (setEffectiveLoad .member) b
      = some x.balancer := by
    have hfold := balancer_foldlM_addMember (List.range b.nmembers) ⟨b, 0, 0⟩
    rw [hx, Option.map_some] at hfold
    exact hfold.symm
  have heq : b₂ = b' := by
    split_ifs at h
    · obtain ⟨o, -, hpair⟩ := Option.map_eq_some_iff.mp h
      exact congrArg Prod.fst hpair
    · exact congrArg Prod.fst (Option.some.inj h)
  subst heq
  exact ⟨x.balancer, loopDone_of_foldlM hmembers, loopDone_of_foldlM hb₂⟩

/-- **When the function is defined.** -/
theorem calcEffectiveLoad_isSome_iff (b : Balancer ℚ) (overall : ℤ) :
    (∃ b' overall', calcEffectiveLoad b overall = some (b', overall')) ↔ LoadsFit b := by
  constructor
  · rintro ⟨b', overall', h⟩ kind i hi
    obtain ⟨b₁, hmembers, hclones⟩ := calcEffectiveLoad_eq_some h
    rw [← effectiveLoad_ne_none_iff kind]
    cases kind with
    | member =>
        rw [hmembers.set i (List.mem_range.mpr hi)]
        exact Option.some_ne_none _
    | clone =>
        have hset := hclones.set i (List.mem_range.mpr hi)
        rw [table, hmembers.same.effectiveLoad] at hset
        rw [table, hset]
        exact Option.some_ne_none _
  · intro h
    obtain ⟨b₁, hmembers⟩ : ∃ b₁, (List.range b.nmembers).foldlM (setEffectiveLoad .member) b
        = some b₁ :=
      foldlM_setEffectiveLoad_iff.mpr fun i hi => h .member i (List.mem_range.mp hi)
    have hsame := (loopDone_of_foldlM hmembers).same
    obtain ⟨b', hclones⟩ : ∃ b', (List.range b.nclones).foldlM (setEffectiveLoad .clone) b₁
        = some b' := by
      refine foldlM_setEffectiveLoad_iff.mpr fun i hi => ?_
      rw [← effectiveLoad_ne_none_iff .clone, table, hsame.effectiveLoad]
      exact (effectiveLoad_ne_none_iff .clone).mpr (h .clone i (List.mem_range.mp hi))
    have hfold := balancer_foldlM_addMember (List.range b.nmembers) ⟨b, 0, 0⟩
    rw [hmembers] at hfold
    obtain ⟨x, hx, hb₁⟩ := Option.map_eq_some_iff.mp hfold
    have hbounded : x.Bounded := by
      refine LoadTotals.Bounded.foldlM ⟨le_refl 0, le_refl 0, ?_, fun hpos => ?_⟩ hx
      · rw [zero_mul, mul_zero]
      · exact absurd hpos (lt_irrefl 0)
    unfold calcEffectiveLoad
    rw [hx, Option.bind_some, hb₁, hclones, Option.bind_some]
    by_cases hpos : 0 < x.overallL
    · obtain ⟨o, ho⟩ := Option.ne_none_iff_exists'.mp (hbounded.floatToInt_ne_none hpos)
      rw [if_pos hpos, ho]
      exact ⟨b', o, rfl⟩
    · rw [if_neg hpos]
      exact ⟨b', overall, rfl⟩

theorem floor_of_effectiveLoad {s : Server ℚ} (hl : s.Loaded) {kind : ServerKind} {e : ℤ}
    (h : effectiveLoad kind s = some e) : e = ⌊s.percent⌋ := by
  rw [effectiveLoad_of_loaded hl] at h
  split_ifs at h
  exact (Option.some.inj h).symm

/-- **What it assigns.** -/
theorem eLoad_calcEffectiveLoad {b b' : Balancer ℚ} {overall overall' : ℤ}
    (h : calcEffectiveLoad b overall = some (b', overall')) {kind : ServerKind} {i : ℕ}
    (hi : b.Listed kind i) (hl : (b.table kind i).Loaded) :
    (b'.table kind i).eLoad = ⌊(b.table kind i).percent⌋ := by
  obtain ⟨b₁, hmembers, hclones⟩ := calcEffectiveLoad_eq_some h
  have hclone : ∀ j < b.nclones, slot .clone j = slot kind i →
      (b'.table kind i).eLoad = ⌊(b.table kind i).percent⌋ := by
    intro j hj hslot
    have hset := hclones.set j (List.mem_range.mpr hj)
    rw [table, table, hslot, hmembers.same.effectiveLoad] at hset
    exact floor_of_effectiveLoad hl hset
  by_cases hshared : ∃ j < b.nclones, slot .clone j = slot kind i
  · obtain ⟨j, hj, hslot⟩ := hshared
    exact hclone j hj hslot
  cases kind with
  | clone => exact absurd ⟨i, hi, rfl⟩ hshared
  | member =>
      have hset := hmembers.set i (List.mem_range.mpr hi)
      have hkept := hclones.kept (slot .member i) fun j hj heq =>
        hshared ⟨j, List.mem_range.mp hj, heq⟩
      rw [← floor_of_effectiveLoad hl hset]
      exact hkept

/-- Nothing else of the servers changes. -/
theorem sameButLoad_calcEffectiveLoad {b b' : Balancer ℚ} {overall overall' : ℤ}
    (h : calcEffectiveLoad b overall = some (b', overall')) : SameButLoad b b' := by
  obtain ⟨b₁, hmembers, hclones⟩ := calcEffectiveLoad_eq_some h
  exact hmembers.same.trans hclones.same

/-! ## STRICT mode -/

/-- Up to 100 percent the modes do not differ. -/
theorem strict_eq_relaxed {s : Server ℚ} (h : s.eLoad ≤ 100) :
    skipNormal .strict s = skipNormal .relaxed s ∧ skipAny .strict s = skipAny .relaxed s ∧
      verifyServer .strict s = verifyServer .relaxed s := by
  have hnot : ¬ s.eLoad > 100 := not_lt.mpr h
  refine ⟨?_, ?_, ?_⟩
  · unfold skipNormal
    simp [hnot]
  · unfold skipAny
    simp [hnot]
  · unfold verifyServer
    by_cases hbad : s.status ≠ .enabled ∨ s.c ≥ s.maxc
    · rw [if_pos hbad, ite_self, ite_self]
    · have hstrict : ¬ (s.status ≠ .enabled ∨ s.eLoad > 100 ∨ s.c ≥ s.maxc) := by
        rintro (hstatus | hload | hc)
        · exact hbad (Or.inl hstatus)
        · exact hnot hload
        · exact hbad (Or.inr hc)
      rw [if_neg hbad, if_neg (not_and_of_not_right _ hstrict),
        if_neg (not_and_of_not_right _ hstrict)]

/-- The load of a server decides in STRICT mode, by its limit. -/
structure LimitDecides (b' : Balancer ℚ) (kind : ServerKind) (i : ℕ) : Prop where
  considered : i ∈ availableServers .strict (b'.table kind) (b'.count kind) →
    (b'.table kind i).load ≤ (b'.table kind i).maxl
  accepted : verifyServer .strict (b'.table kind i) ≠ -1 →
    (b'.table kind i).load ≤ (b'.table kind i).maxl
  notExcluded : (b'.table kind i).load ≤ (b'.table kind i).maxl →
    skipNormal .strict (b'.table kind i) = skipNormal .relaxed (b'.table kind i) ∧
      skipAny .strict (b'.table kind i) = skipAny .relaxed (b'.table kind i) ∧
      verifyServer .strict (b'.table kind i) = verifyServer .relaxed (b'.table kind i)

/-- `calc_effective_load` leads to the limits being enforced for all servers with a
load and a limit. -/
def StrictEnforced (b : Balancer ℚ) (overall : ℤ) : Prop :=
  ∃ b' overall', calcEffectiveLoad b overall = some (b', overall') ∧
    ∀ kind i, b.Listed kind i → (b.table kind i).Loaded → LimitDecides b' kind i

/-- A server over its limit, by less than one percent of it. -/
def Server.BarelyOver (s : Server ℚ) : Prop := s.maxl < s.load ∧ s.load * 100 < 101 * s.maxl

/-- The percentage is at most 100. -/
theorem floor_percent_le_iff {s : Server ℚ} (h : s.Loaded) :
    ⌊s.percent⌋ ≤ 100 ↔ s.load ≤ s.maxl ∨ s.BarelyOver := by
  have hfloor : ⌊s.percent⌋ ≤ 100 ↔ s.load * 100 < 101 * s.maxl := by
    rw [← percent_lt_iff h, ← Int.lt_add_one_iff, Int.floor_lt]
    norm_num
  rw [hfloor]
  unfold Server.BarelyOver
  have hm := h.2
  constructor
  · intro hlt
    by_cases hle : s.load ≤ s.maxl
    · exact Or.inl hle
    · exact Or.inr ⟨not_le.mp hle, hlt⟩
  · rintro (hle | ⟨-, hlt⟩)
    · linarith
    · exact hlt

/-- **One server.**  Its limit decides exactly if it is not barely over it, or could
not be chosen anyway. -/
theorem limitDecides_iff {b b' : Balancer ℚ} {overall overall' : ℤ}
    (h : calcEffectiveLoad b overall = some (b', overall')) {kind : ServerKind} {i : ℕ}
    (hi : b.Listed kind i) (hl : (b.table kind i).Loaded) :
    LimitDecides b' kind i ↔
      (Eligible .relaxed (b.table kind i) → ¬ (b.table kind i).BarelyOver) := by
  have hserver : b'.table kind i
      = { b.table kind i with eLoad := ⌊(b.table kind i).percent⌋ } := by
    rw [← eLoad_calcEffectiveLoad h hi hl]
    exact (sameButLoad_calcEffectiveLoad h).servers _
  have hpercent := floor_percent_le_iff hl
  have hstrict : Eligible .strict (b'.table kind i) ↔ Eligible .relaxed (b.table kind i) ∧
      ((b.table kind i).load ≤ (b.table kind i).maxl ∨ (b.table kind i).BarelyOver) := by
    rw [hserver, ← hpercent]
    unfold Eligible
    constructor
    · rintro ⟨hs, hc, hload⟩
      exact ⟨⟨hs, hc, nofun⟩, hload rfl⟩
    · rintro ⟨⟨hs, hc, -⟩, hload⟩
      exact ⟨hs, hc, fun _ => hload⟩
  have hlimit : (b'.table kind i).load ≤ (b'.table kind i).maxl ↔
      (b.table kind i).load ≤ (b.table kind i).maxl := by
    rw [hserver]
  constructor
  · intro hdecides heligible hbarely
    have haccept : verifyServer .strict (b'.table kind i) ≠ -1 := fun hneg =>
      (verifyServer_eq_neg_one_iff _ _).mp hneg (hstrict.mpr ⟨heligible, Or.inr hbarely⟩)
    exact absurd (hlimit.mp (hdecides.accepted haccept)) (not_le.mpr hbarely.1)
  · intro hnot
    have hle : Eligible .strict (b'.table kind i) →
        (b'.table kind i).load ≤ (b'.table kind i).maxl := by
      intro heligible
      obtain ⟨hrelaxed, hor⟩ := hstrict.mp heligible
      exact hlimit.mpr (hor.resolve_right (hnot hrelaxed))
    refine ⟨fun hmem => hle (mem_availableServers.mp hmem).2.1, fun haccept => hle ?_,
      fun hload => ?_⟩
    · by_contra hnone
      exact haccept ((verifyServer_eq_neg_one_iff _ _).mpr hnone)
    · refine strict_eq_relaxed ?_
      rw [eLoad_calcEffectiveLoad h hi hl, hpercent]
      exact Or.inl (hlimit.mp hload)

/-- **STRICT mode** enforces the limits exactly if every percentage is an `int` and
no server that could be chosen otherwise is barely over its limit. -/
theorem strictEnforced_iff (b : Balancer ℚ) (overall : ℤ) :
    StrictEnforced b overall ↔ LoadsFit b ∧ ∀ kind i, b.Listed kind i → (b.table kind i).Loaded →
      Eligible .relaxed (b.table kind i) → ¬ (b.table kind i).BarelyOver := by
  rw [← calcEffectiveLoad_isSome_iff b overall]
  constructor
  · rintro ⟨b', overall', h, hall⟩
    exact ⟨⟨b', overall', h⟩, fun kind i hi hl => (limitDecides_iff h hi hl).mp (hall kind i hi hl)⟩
  · rintro ⟨⟨b', overall', h⟩, hall⟩
    exact ⟨b', overall', h, fun kind i hi hl => (limitDecides_iff h hi hl).mpr (hall kind i hi hl)⟩

/-- One member at 100.5 percent of its limit. -/
def barelyOver : Balancer ℚ :=
  { initializeBalancer 0 0 with
    nmembers := 1
    overloadMode := .strict
    servers := fun p =>
      if p = 0 then
        { Server.zero ℚ with
          status := .enabled, standbyState := false, maxc := 500, load := 201 / 100, maxl := 2 }
      else Server.zero ℚ }

/-- It is rated at 100 percent and accepted. -/
theorem barely_over_accepted : ¬ StrictEnforced barelyOver 0 ∧
    ((calcEffectiveLoad barelyOver 0).map fun r =>
      ((r.1.members 0).eLoad, verifyServer .strict (r.1.members 0))) = some (100, 0) := by
  refine ⟨?_, by decide +kernel⟩
  rintro ⟨b', overall', h, hall⟩
  have hlisted : barelyOver.Listed .member 0 := Nat.zero_lt_one
  have hloaded : (barelyOver.table .member 0).Loaded := by
    unfold Server.Loaded
    decide +kernel
  refine (limitDecides_iff h hlisted hloaded).mp (hall _ _ hlisted hloaded) (by decide) ?_
  unfold Server.BarelyOver
  decide +kernel

end OctopusLB
