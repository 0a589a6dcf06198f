/-
# Counting under point updates

`tally p f l` counts the entries of `l` whose value under `f` satisfies `p`.
`tally_update` says what changing one value does to the count; it is stated as
an equation between sums, so that it serves where an entry begins to be counted
and where it ceases to be.  `sum_update_add` is the same for a sum of weights.
-/
import Mathlib.Algebra.BigOperators.Group.Finset.Basic
import Mathlib.Data.Fintype.Basic
import Mathlib.Data.List.Count
import Mathlib.Logic.Function.Basic
import Mathlib.Tactic.Common

/-- How many entries of a list have a value that satisfies `p`. -/
def tally {α β : Type*} (p : β → Bool) (f : α → β) (l : List α) : ℕ := l.countP fun a => p (f a)

section Tally

variable {α β : Type*} {p : β → Bool} {f g : α → β} {l : List α}

/-- Only the values of the entries matter. -/
theorem tally_congr (h : ∀ a ∈ l, p (f a) = p (g a)) : tally p f l = tally p g l := by
  unfold tally
  refine List.countP_congr fun a ha => ?_
  rw [h a ha]

/-- Nothing is counted exactly if no value satisfies `p`. -/
theorem tally_eq_zero_iff : tally p f l = 0 ↔ ∀ a ∈ l, p (f a) = false := by
  unfold tally
  rw [List.countP_eq_zero]
  exact forall₂_congr fun a _ => Bool.eq_false_iff.symm

theorem tally_pos {a : α} (ha : a ∈ l) (hp : p (f a) = true) : 0 < tally p f l :=
  List.countP_pos_iff.mpr ⟨a, ha, hp⟩

theorem tally_le_length : tally p f l ≤ l.length := List.countP_le_length

variable [DecidableEq α]

/-- **Changing one value** takes the old value out of the count and puts the new
one in. -/
theorem tally_update (hl : l.Nodup) {a : α} (ha : a ∈ l) (v : β) :
    tally p (Function.update f a v) l + (if p (f a) then 1 else 0)
      = tally p f l + (if p v then 1 else 0) := by
  unfold tally
  induction l with
  | nil => cases ha
  | cons b l ih =>
      obtain ⟨hb, hl⟩ := List.nodup_cons.mp hl
      rw [List.countP_cons, List.countP_cons]
      rcases List.mem_cons.mp ha with rfl | ha
      · -- the rest of the list does not contain the entry
        have hrest : l.countP (fun c => p (Function.update f a v c)) = l.countP fun c => p (f c) := by
          refine List.countP_congr fun c hc => ?_
          rw [Function.update_of_ne (ne_of_mem_of_not_mem hc hb)]
        rw [hrest, Function.update_self]
        omega
      · have hne : b ≠ a := fun heq => hb (heq ▸ ha)
        have hih := ih hl ha
        rw [Function.update_of_ne hne]
        omega

end Tally

/-- **Changing one value** takes the old weight out of the sum and puts the new
one in. -/
theorem sum_update_add {α β : Type*} [Fintype α] [DecidableEq α] (weight : β → ℕ) (f : α → β)
    (a : α) (v : β) :
    ∑ b, weight (Function.update f a v b) + weight (f a) = ∑ b, weight (f b) + weight v := by
  rw [← Finset.add_sum_erase _ _ (Finset.mem_univ a), ← Finset.add_sum_erase _ _ (Finset.mem_univ a)]
  have hrest : ∑ b ∈ Finset.univ.erase a, weight (Function.update f a v b)
      = ∑ b ∈ Finset.univ.erase a, weight (f b) := by
    refine Finset.sum_congr rfl fun b hb => ?_
    rw [Function.update_of_ne (Finset.ne_of_mem_erase hb)]
  rw [hrest, Function.update_self]
  omega
