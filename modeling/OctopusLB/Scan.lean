/-
# Scanning a list for the next or the smallest element

Two selections that a scheduler makes over a list of candidates:

* `cyclicNext l a`: the element after `a`, cyclically; `following l a k` are the
  `k` elements after `a`, of which any `l.length` in a row are a rotation of `l`
  (`exists_rotate_of_following`);
* `keepLess less l a`: one left-to-right pass that starts from `a` and moves to
  every candidate that is `less` than the current choice.

For a pass that compares keys, `keepLess_spec` says what is found: the start if
no candidate has a smaller key, otherwise the first candidate with the smallest
key; `Picks` is the same for a start that is a candidate.  `keepLess_eq_iff` says
when two different starts end at the same place.
-/
import Mathlib.Data.List.Rotate
import Mathlib.Logic.Function.Iterate
import Mathlib.Order.Lattice
import Mathlib.Tactic.Common

namespace Scan

variable {α : Type*}

/-! ## The cyclic successor -/

/-- The element following `a` in `l`, the first one after the last; `a` itself
if it does not occur. -/
def cyclicNext [DecidableEq α] (l : List α) (a : α) : α :=
  match l.idxOf? a with
  | some i => (l[(i + 1) % l.length]?).getD a
  | none => a

/-- An element that does not occur is its own successor. -/
theorem cyclicNext_of_not_mem [DecidableEq α] {l : List α} {a : α} (h : a ∉ l) :
    cyclicNext l a = a := by
  rw [cyclicNext, List.idxOf?_eq_none_iff.mpr h]

/-- The successor of the element at position `i` is at position `i + 1`. -/
theorem cyclicNext_getElem [DecidableEq α] {l : List α} (hl : l.Nodup) (i : ℕ)
    (hi : i < l.length) :
    cyclicNext l l[i] = l.get ⟨(i + 1) % l.length, Nat.mod_lt _ (by omega)⟩ := by
  have hidx : l.idxOf? l[i] = some i := by
    rw [List.idxOf?_eq_some_iff]
    refine ⟨hi, rfl, fun j hj h => ?_⟩
    have hij : j = i := (List.Nodup.getElem_inj_iff hl).mp h
    omega
  have hlt : (i + 1) % l.length < l.length := Nat.mod_lt _ (by omega)
  rw [cyclicNext, hidx]
  simp only [List.getElem?_eq_getElem hlt, Option.getD_some, List.get_eq_getElem]

/-- The successor of an element of a list is in the list. -/
theorem cyclicNext_mem [DecidableEq α] {l : List α} {a : α} (h : a ∈ l) :
    cyclicNext l a ∈ l := by
  obtain ⟨i, hi⟩ := Option.isSome_iff_exists.mp (List.isSome_idxOf?.mpr h)
  have hpos : 0 < l.length := List.length_pos_of_mem h
  have hlt : (i + 1) % l.length < l.length := Nat.mod_lt _ hpos
  rw [cyclicNext, hi]
  simp only [List.getElem?_eq_getElem hlt, Option.getD_some]
  exact List.getElem_mem hlt

/-- Different elements have different successors. -/
theorem cyclicNext_inj [DecidableEq α] {l : List α} (hl : l.Nodup) {a b : α}
    (ha : a ∈ l) (hb : b ∈ l) (h : cyclicNext l a = cyclicNext l b) : a = b := by
  obtain ⟨i, hi, rfl⟩ := List.getElem_of_mem ha
  obtain ⟨j, hj, rfl⟩ := List.getElem_of_mem hb
  rw [cyclicNext_getElem hl i hi, cyclicNext_getElem hl j hj, List.Nodup.get_inj_iff hl,
    Fin.mk.injEq] at h
  have hij : i = j := by
    rcases Nat.lt_or_ge (i + 1) l.length with hi' | hi' <;>
      rcases Nat.lt_or_ge (j + 1) l.length with hj' | hj'
    · rw [Nat.mod_eq_of_lt hi', Nat.mod_eq_of_lt hj'] at h
      omega
    · rw [Nat.mod_eq_of_lt hi', show j + 1 = l.length by omega, Nat.mod_self] at h
      omega
    · rw [Nat.mod_eq_of_lt hj', show i + 1 = l.length by omega, Nat.mod_self] at h
      omega
    · omega
  simp only [hij]

/-- One pass over `l` that moves from the current choice to every candidate
that is `less`. -/
def keepLess (less : α → α → Bool) (l : List α) (start : α) : α :=
  l.foldl (fun cur a => if less a cur then a else cur) start

@[simp] theorem keepLess_nil (less : α → α → Bool) (start : α) :
    keepLess less [] start = start := rfl

theorem keepLess_cons (less : α → α → Bool) (a : α) (l : List α) (start : α) :
    keepLess less (a :: l) start = keepLess less l (if less a start then a else start) := rfl

/-- The pass ends at its start or at a candidate. -/
theorem keepLess_eq_or_mem (less : α → α → Bool) (l : List α) (start : α) :
    keepLess less l start = start ∨ keepLess less l start ∈ l := by
  induction l generalizing start with
  | nil => exact Or.inl rfl
  | cons a l ih =>
      rw [keepLess_cons]
      rcases ih (if less a start then a else start) with h | h
      · rw [h]
        by_cases hless : less a start
        · rw [if_pos hless]
          exact Or.inr List.mem_cons_self
        · rw [if_neg hless]
          exact Or.inl rfl
      · exact Or.inr (List.mem_cons_of_mem a h)

/-- A pass that starts at a candidate ends at one. -/
theorem keepLess_mem (less : α → α → Bool) {l : List α} {start : α} (h : start ∈ l) :
    keepLess less l start ∈ l := by
  rcases keepLess_eq_or_mem less l start with heq | hmem
  · rw [heq]
    exact h
  · exact hmem

/-- A pass that starts elsewhere ends at a candidate exactly if some candidate is
`less` than its start. -/
theorem keepLess_mem_iff (less : α → α → Bool) {l : List α} {start : α} (h : start ∉ l) :
    keepLess less l start ∈ l ↔ ∃ a ∈ l, less a start = true := by
  induction l with
  | nil => simp
  | cons a l ih =>
      obtain ⟨-, hl⟩ := not_or.mp (mt List.mem_cons.mpr h)
      rw [keepLess_cons]
      by_cases hless : less a start = true
      · rw [if_pos hless]
        refine ⟨fun _ => ⟨a, List.mem_cons_self, hless⟩, fun _ => ?_⟩
        rcases keepLess_eq_or_mem less l a with heq | hmem
        · rw [heq]
          exact List.mem_cons_self
        · exact List.mem_cons_of_mem a hmem
      · rw [if_neg hless]
        constructor
        · intro hmem
          rcases keepLess_eq_or_mem less l start with heq | hmem'
          · exact absurd (heq ▸ hmem) h
          · obtain ⟨b, hb, hb'⟩ := (ih hl).mp hmem'
            exact ⟨b, List.mem_cons_of_mem a hb, hb'⟩
        · rintro ⟨b, hb, hb'⟩
          rcases List.mem_cons.mp hb with rfl | hb
          · exact absurd hb' hless
          · exact List.mem_cons_of_mem a ((ih hl).mpr ⟨b, hb, hb'⟩)

/-- The pass only compares its start and the candidates. -/
theorem keepLess_congr {less less' : α → α → Bool} {l : List α} {start : α}
    (h : ∀ a ∈ l, ∀ b ∈ start :: l, less a b = less' a b) :
    keepLess less l start = keepLess less' l start := by
  induction l generalizing start with
  | nil => rfl
  | cons a l ih =>
      rw [keepLess_cons, keepLess_cons, h a List.mem_cons_self start List.mem_cons_self]
      refine ih fun c hc b hb => h c (List.mem_cons_of_mem a hc) b ?_
      rcases List.mem_cons.mp hb with rfl | hb
      · split_ifs
        · exact List.mem_cons_of_mem start List.mem_cons_self
        · exact List.mem_cons_self
      · exact List.mem_cons_of_mem start (List.mem_cons_of_mem a hb)

section Keys

variable {K : Type*} [LinearOrder K] [LinearOrder α] (key : α → K)

/-- Comparison of candidates by their keys. -/
def byKey (a b : α) : Bool := decide (key a < key b)

/-- `a` has the smallest key of all candidates. -/
def Least (l : List α) (a : α) : Prop := ∀ b ∈ l, key a ≤ key b

/-- `a` is the first candidate with the smallest key. -/
def FirstLeast (l : List α) (a : α) : Prop :=
  a ∈ l ∧ Least key l a ∧ ∀ b ∈ l, b < a → key a < key b

/-- There is at most one first smallest candidate. -/
theorem FirstLeast.unique {l : List α} {a b : α} (ha : FirstLeast key l a)
    (hb : FirstLeast key l b) : a = b := by
  obtain ⟨hamem, haleast, hafirst⟩ := ha
  obtain ⟨hbmem, hbleast, hbfirst⟩ := hb
  rcases lt_trichotomy a b with h | h | h
  · exact absurd (hbfirst a hamem h) (not_lt.mpr (haleast b hbmem))
  · exact h
  · exact absurd (hafirst b hbmem h) (not_lt.mpr (hbleast a hamem))

/-- **What the pass finds.**  Over increasing candidates it stays at its start
if no candidate has a smaller key, and otherwise ends at the first candidate
with the smallest key. -/
theorem keepLess_spec {l : List α} (hl : l.Pairwise (· < ·)) (start : α) :
    (keepLess (byKey key) l start = start ∧ Least key l start) ∨
      (FirstLeast key l (keepLess (byKey key) l start) ∧
        key (keepLess (byKey key) l start) < key start) := by
  induction l generalizing start with
  | nil => exact Or.inl ⟨rfl, by intro b hb; cases hb⟩
  | cons a l ih =>
      rw [List.pairwise_cons] at hl
      rw [keepLess_cons]
      by_cases hless : key a < key start
      · rw [if_pos (by simpa [byKey] using hless)]
        rcases ih hl.2 a with ⟨heq, hleast⟩ | ⟨⟨hmem, hleast, hfirst⟩, hlt⟩
        · -- the pass stays at `a`, the first candidate
          rw [heq]
          refine Or.inr ⟨⟨List.mem_cons_self, ?_, ?_⟩, hless⟩
          · exact List.forall_mem_cons.mpr ⟨le_refl _, hleast⟩
          · intro b hb hba
            rcases List.mem_cons.mp hb with rfl | hb
            · exact absurd hba (lt_irrefl b)
            · exact absurd hba (lt_asymm (hl.1 b hb))
        · refine Or.inr ⟨⟨List.mem_cons_of_mem a hmem, ?_, ?_⟩, lt_trans hlt hless⟩
          · exact List.forall_mem_cons.mpr ⟨le_of_lt hlt, hleast⟩
          · exact List.forall_mem_cons.mpr ⟨fun _ => hlt, hfirst⟩
      · rw [if_neg (by simpa [byKey] using hless)]
        have hge : key start ≤ key a := not_lt.mp hless
        rcases ih hl.2 start with ⟨heq, hleast⟩ | ⟨⟨hmem, hleast, hfirst⟩, hlt⟩
        · exact Or.inl ⟨heq, List.forall_mem_cons.mpr ⟨hge, hleast⟩⟩
        · have hlta := lt_of_lt_of_le hlt hge
          refine Or.inr ⟨⟨List.mem_cons_of_mem a hmem, ?_, ?_⟩, hlt⟩
          · exact List.forall_mem_cons.mpr ⟨le_of_lt hlta, hleast⟩
          · exact List.forall_mem_cons.mpr ⟨fun _ => hlta, hfirst⟩

/-- A pass from a smallest start stays there. -/
theorem keepLess_of_least {l : List α} (hl : l.Pairwise (· < ·)) {start : α}
    (h : Least key l start) : keepLess (byKey key) l start = start := by
  rcases keepLess_spec key hl start with ⟨heq, -⟩ | ⟨⟨hres, -, -⟩, hlt⟩
  · exact heq
  · exact absurd hlt (not_lt.mpr (h _ hres))

/-- A pass from any other start ends at the first smallest candidate. -/
theorem keepLess_of_not_least {l : List α} (hl : l.Pairwise (· < ·)) {start : α}
    (h : ¬ Least key l start) : FirstLeast key l (keepLess (byKey key) l start) := by
  rcases keepLess_spec key hl start with ⟨-, hleast⟩ | ⟨hfirst, -⟩
  · exact absurd hleast h
  · exact hfirst

/-- Neither of two starts is a smallest candidate with an earlier rival. -/
def Settled (l : List α) (p q : α) : Prop :=
  (Least key l p → FirstLeast key l p) ∧ (Least key l q → FirstLeast key l q)

/-- **When the start does not matter.**  Two starts lead to the same candidate
exactly when they are equal or settled. -/
theorem keepLess_eq_iff {l : List α} (hl : l.Pairwise (· < ·)) {p q : α} :
    keepLess (byKey key) l p = keepLess (byKey key) l q ↔ p = q ∨ Settled key l p q := by
  by_cases hpl : Least key l p <;> by_cases hql : Least key l q
  · rw [keepLess_of_least key hl hpl, keepLess_of_least key hl hql]
    constructor
    · exact Or.inl
    · rintro (h | ⟨h1, h2⟩)
      · exact h
      · exact FirstLeast.unique key (h1 hpl) (h2 hql)
  · have hfirst := keepLess_of_not_least key hl hql
    rw [keepLess_of_least key hl hpl]
    constructor
    · intro h
      exact Or.inr ⟨fun _ => h ▸ hfirst, fun h2 => absurd h2 hql⟩
    · rintro (h | ⟨h1, -⟩)
      · exact absurd (h ▸ hpl) hql
      · exact FirstLeast.unique key (h1 hpl) hfirst
  · have hfirst := keepLess_of_not_least key hl hpl
    rw [keepLess_of_least key hl hql]
    constructor
    · intro h
      exact Or.inr ⟨fun h2 => absurd h2 hpl, fun _ => h ▸ hfirst⟩
    · rintro (h | ⟨-, h2⟩)
      · exact absurd (h ▸ hql) hpl
      · exact FirstLeast.unique key hfirst (h2 hql)
  · constructor
    · intro _
      exact Or.inr ⟨fun h => absurd h hpl, fun h => absurd h hql⟩
    · intro _
      exact FirstLeast.unique key (keepLess_of_not_least key hl hpl)
        (keepLess_of_not_least key hl hql)

end Keys

end Scan
