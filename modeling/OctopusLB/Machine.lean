/-
# Input-driven machines and properties of their runs

A machine consumes one input at a time and may get stuck (`step s i = none`:
the program has crashed).  This file collects what the later modules use about
whole runs:

* `run` is the state after a list of inputs, `states` all states passed
  through, `visits` the pairs (state, input) in which an input was consumed;
* `states_invariant`: an inductive invariant holds along every run, or along
  every run whose inputs meet a condition (`states_invariant_of_visits`);
* `run_relation`: a reflexive transitive relation that every step respects
  relates the two ends of a run;
* `ofFold` is the machine of a fold that may end with an error;
  `foldlM_append_eq_ok` cuts such a fold in two, `foldlM_cons_eq_ok` and
  `foldlM_concat_eq_ok` take a step off it, and `foldlM_error_iff` says at which
  input it fails;
* `always_iff`: a property holds in every state of a run exactly when no input
  is consumed in a bad state, provided good steps keep the property and bad
  ones break it.
-/
import Mathlib.Data.List.Basic
import Mathlib.Tactic.Common

/-- A deterministic machine over states `σ` driven by inputs `ι`; a step may
be undefined. -/
structure Machine (σ ι : Type*) where
  step : σ → ι → Option σ

namespace Machine

variable {σ ι : Type*} (M : Machine σ ι)

/-- The state after consuming all inputs, `none` if the machine got stuck. -/
def run : σ → List ι → Option σ
  | s, [] => some s
  | s, i :: is => (M.step s i).bind fun t => run t is

/-- All states of a run, the start included. -/
def states : σ → List ι → List σ
  | s, [] => [s]
  | s, i :: is => s :: (M.step s i).elim [] fun t => states t is

/-- The inputs consumed by a run, each with the state that consumed it. -/
def visits : σ → List ι → List (σ × ι)
  | _, [] => []
  | s, i :: is => (s, i) :: (M.step s i).elim [] fun t => visits t is

@[simp] theorem run_nil (s : σ) : M.run s [] = some s := rfl

@[simp] theorem states_nil (s : σ) : M.states s [] = [s] := rfl

@[simp] theorem visits_nil (s : σ) : M.visits s [] = [] := rfl

theorem run_cons_of_step {s t : σ} {i : ι} (h : M.step s i = some t) (is : List ι) :
    M.run s (i :: is) = M.run t is := by
  rw [run, h, Option.bind_some]

theorem states_cons_of_step {s t : σ} {i : ι} (h : M.step s i = some t) (is : List ι) :
    M.states s (i :: is) = s :: M.states t is := by
  rw [states, h, Option.elim_some]

theorem states_cons_of_stuck {s : σ} {i : ι} (h : M.step s i = none) (is : List ι) :
    M.states s (i :: is) = [s] := by
  rw [states, h, Option.elim_none]

theorem visits_cons_of_step {s t : σ} {i : ι} (h : M.step s i = some t) (is : List ι) :
    M.visits s (i :: is) = (s, i) :: M.visits t is := by
  rw [visits, h, Option.elim_some]

theorem visits_cons_of_stuck {s : σ} {i : ι} (h : M.step s i = none) (is : List ι) :
    M.visits s (i :: is) = [(s, i)] := by
  rw [visits, h, Option.elim_none]

/-- A run over `i :: is` that does not get stuck starts with a step. -/
theorem exists_step_of_run_cons {s u : σ} {i : ι} {is : List ι}
    (h : M.run s (i :: is) = some u) :
    ∃ t, M.step s i = some t ∧ M.run t is = some u := by
  rw [run, Option.bind_eq_some_iff] at h
  exact h

/-- Running an append is running the two parts in turn. -/
theorem run_append (s : σ) (is js : List ι) :
    M.run s (is ++ js) = (M.run s is).bind fun t => M.run t js := by
  induction is generalizing s with
  | nil => rfl
  | cons i is ih =>
      rw [List.cons_append, run, run, Option.bind_assoc]
      congr 1
      funext t
      exact ih t

/-- A run that does not get stuck visits all inputs of its first part first. -/
theorem visits_append {s t : σ} {is : List ι} (h : M.run s is = some t) (js : List ι) :
    M.visits s (is ++ js) = M.visits s is ++ M.visits t js := by
  induction is generalizing s with
  | nil =>
      rw [run_nil, Option.some.injEq] at h
      rw [h, visits_nil]
      rfl
  | cons i is ih =>
      obtain ⟨u, hstep, hrun⟩ := M.exists_step_of_run_cons h
      rw [List.cons_append, M.visits_cons_of_step hstep, M.visits_cons_of_step hstep,
        ih hrun, List.cons_append]

/-- What a run consumes first does not depend on what comes later. -/
theorem visits_prefix_append (s : σ) (is js : List ι) : M.visits s is <+: M.visits s (is ++ js) := by
  induction is generalizing s with
  | nil => exact List.nil_prefix
  | cons i is ih =>
      cases hs : M.step s i with
      | none =>
          refine ⟨[], ?_⟩
          rw [List.append_nil, List.cons_append, M.visits_cons_of_stuck hs,
            M.visits_cons_of_stuck hs]
      | some t =>
          rw [List.cons_append, M.visits_cons_of_step hs, M.visits_cons_of_step hs,
            List.prefix_cons_inj]
          exact ih t

theorem mem_states_self (s : σ) (is : List ι) : s ∈ M.states s is := by
  cases is with
  | nil => exact List.mem_singleton_self s
  | cons i is => rw [states]; exact List.mem_cons_self

/-- The end of a run is one of its states. -/
theorem mem_states_of_run {s t : σ} {is : List ι} (h : M.run s is = some t) :
    t ∈ M.states s is := by
  induction is generalizing s with
  | nil =>
      rw [run_nil, Option.some.injEq] at h
      rw [h]
      exact M.mem_states_self t []
  | cons i is ih =>
      obtain ⟨u, hstep, hrun⟩ := M.exists_step_of_run_cons h
      rw [M.states_cons_of_step hstep]
      exact List.mem_cons_of_mem s (ih hrun)

/-- The state that consumes an input is one of the states of the run. -/
theorem mem_states_of_mem_visits {s : σ} {is : List ι} {v : σ × ι} (h : v ∈ M.visits s is) :
    v.1 ∈ M.states s is := by
  induction is generalizing s with
  | nil => cases h
  | cons i is ih =>
      cases hs : M.step s i with
      | none =>
          rw [M.visits_cons_of_stuck hs, List.mem_singleton] at h
          rw [h]
          exact M.mem_states_self s _
      | some t =>
          rw [M.visits_cons_of_step hs, List.mem_cons] at h
          rw [M.states_cons_of_step hs, List.mem_cons]
          rcases h with rfl | h
          · exact Or.inl rfl
          · exact Or.inr (ih h)

/-- The state after an input that a run consumes is one of its states. -/
theorem mem_states_of_step {s t : σ} {is : List ι} {v : σ × ι} (h : v ∈ M.visits s is)
    (hstep : M.step v.1 v.2 = some t) : t ∈ M.states s is := by
  induction is generalizing s with
  | nil => cases h
  | cons i is ih =>
      cases hs : M.step s i with
      | none =>
          rw [M.visits_cons_of_stuck hs, List.mem_singleton] at h
          rw [h, hs] at hstep
          cases hstep
      | some u =>
          rw [M.visits_cons_of_step hs, List.mem_cons] at h
          rw [M.states_cons_of_step hs]
          refine List.mem_cons_of_mem s ?_
          rcases h with rfl | h
          · rw [hs, Option.some.injEq] at hstep
            exact hstep ▸ M.mem_states_self u is
          · exact ih h

/-- A run consumes its first input, and then those of the rest. -/
theorem mem_visits_cons {s : σ} {i : ι} {is : List ι} {v : σ × ι}
    (h : v ∈ M.visits s (i :: is)) : v = (s, i) ∨ ∃ t, v ∈ M.visits t is := by
  cases hs : M.step s i with
  | none =>
      rw [M.visits_cons_of_stuck hs, List.mem_singleton] at h
      exact Or.inl h
  | some t =>
      rw [M.visits_cons_of_step hs, List.mem_cons] at h
      exact h.imp_right fun h => ⟨t, h⟩

/-- A run consumes none but its own inputs. -/
theorem mem_of_mem_visits {s : σ} {is : List ι} {v : σ × ι} (h : v ∈ M.visits s is) :
    v.2 ∈ is := by
  induction is generalizing s with
  | nil => cases h
  | cons i is ih =>
      rcases M.mem_visits_cons h with rfl | ⟨t, h⟩
      · exact List.mem_cons_self
      · exact List.mem_cons_of_mem i (ih h)

/-- An input that a run consumes is its first one or comes later. -/
theorem eq_or_mem_of_mem_visits {s : σ} {i : ι} {is : List ι} {v : σ × ι}
    (h : v ∈ M.visits s (i :: is)) : v = (s, i) ∨ v.2 ∈ is :=
  (M.mem_visits_cons h).imp_right fun ⟨_, h⟩ => M.mem_of_mem_visits h

/-! ## Invariants -/

/-- **Invariant rule.**  What the start satisfies and every step preserves
holds in all states of a run. -/
theorem states_invariant {I : σ → Prop}
    (hstep : ∀ s i t, I s → M.step s i = some t → I t)
    {s : σ} (h0 : I s) (is : List ι) : ∀ t ∈ M.states s is, I t := by
  induction is generalizing s with
  | nil =>
      intro t ht
      rw [states_nil, List.mem_singleton] at ht
      exact ht ▸ h0
  | cons i is ih =>
      intro t ht
      cases hs : M.step s i with
      | none =>
          rw [M.states_cons_of_stuck hs, List.mem_singleton] at ht
          exact ht ▸ h0
      | some u =>
          rw [M.states_cons_of_step hs, List.mem_cons] at ht
          rcases ht with rfl | ht
          · exact h0
          · exact ih (hstep s i u h0 hs) t ht

/-- The invariant rule for steps whose inputs meet a condition: it is enough
that the condition holds wherever an input of the run is consumed. -/
theorem states_invariant_of_visits {Inv : σ → Prop} {Good : σ → ι → Prop}
    (hstep : ∀ s i t, Inv s → Good s i → M.step s i = some t → Inv t)
    {s : σ} {is : List ι} (h0 : Inv s) (hgood : ∀ v ∈ M.visits s is, Good v.1 v.2) :
    ∀ t ∈ M.states s is, Inv t := by
  induction is generalizing s with
  | nil =>
      intro t ht
      rw [states_nil, List.mem_singleton] at ht
      exact ht ▸ h0
  | cons i is ih =>
      intro t ht
      cases hs : M.step s i with
      | none =>
          rw [M.states_cons_of_stuck hs, List.mem_singleton] at ht
          exact ht ▸ h0
      | some u =>
          rw [M.states_cons_of_step hs, List.mem_cons] at ht
          rw [M.visits_cons_of_step hs, List.forall_mem_cons] at hgood
          rcases ht with rfl | ht
          · exact h0
          · exact ih (hstep s i u h0 hgood.1 hs) hgood.2 t ht

/-- **Growth rule.**  What a step raises by one at most, a run raises by its length
at most. -/
theorem states_growth {f : σ → ℕ} (hstep : ∀ s i t, M.step s i = some t → f t ≤ f s + 1) (s : σ)
    (is : List ι) : ∀ t ∈ M.states s is, f t ≤ f s + is.length := by
  induction is generalizing s with
  | nil =>
      intro t ht
      rw [states_nil, List.mem_singleton] at ht
      exact Nat.le_of_eq (congrArg f ht)
  | cons i is ih =>
      intro t ht
      cases hs : M.step s i with
      | none =>
          rw [M.states_cons_of_stuck hs, List.mem_singleton] at ht
          rw [ht]
          exact Nat.le_add_right _ _
      | some u =>
          rw [M.states_cons_of_step hs, List.mem_cons] at ht
          rw [List.length_cons]
          rcases ht with rfl | ht
          · exact Nat.le_add_right _ _
          · have hfirst := hstep s i u hs
            have hrest := ih u t ht
            omega

/-- **Relation rule.**  A reflexive and transitive relation that every step
respects (under an invariant, on inputs that meet a condition) relates the two
ends of a run. -/
theorem run_relation {Inv : σ → Prop} {Good : σ → ι → Prop} {R : σ → σ → Prop}
    (hrefl : ∀ s, R s s) (htrans : ∀ s t u, R s t → R t u → R s u)
    (hstep : ∀ s i t, Inv s → Good s i → M.step s i = some t → Inv t ∧ R s t)
    {s t : σ} {is : List ι} (h0 : Inv s)
    (hgood : ∀ v ∈ M.visits s is, Good v.1 v.2) (h : M.run s is = some t) : R s t := by
  induction is generalizing s with
  | nil =>
      rw [run_nil, Option.some.injEq] at h
      exact h ▸ hrefl s
  | cons i is ih =>
      obtain ⟨u, hs, hrun⟩ := M.exists_step_of_run_cons h
      rw [M.visits_cons_of_step hs, List.forall_mem_cons] at hgood
      obtain ⟨hu, hsu⟩ := hstep s i u h0 hgood.1 hs
      exact htrans s u t hsu (ih hu hgood.2 hrun)

/-! ## Folds that may end with an error -/

/-- The machine of a fold: it is stuck where the fold ends with an error. -/
def ofFold {ε : Type*} (f : σ → ι → Except ε σ) : Machine σ ι where
  step s i := (f s i).toOption

theorem step_ofFold_eq_some {ε : Type*} {f : σ → ι → Except ε σ} {s t : σ} {i : ι} :
    (ofFold f).step s i = some t ↔ f s i = .ok t := by
  show (f s i).toOption = some t ↔ _
  cases f s i with
  | error e => exact ⟨nofun, nofun⟩
  | ok u => simp [Except.toOption]

/-- A run of the machine is a fold without an error. -/
theorem run_ofFold_eq_some {ε : Type*} {f : σ → ι → Except ε σ} {s t : σ} {is : List ι} :
    (ofFold f).run s is = some t ↔ is.foldlM f s = .ok t := by
  induction is generalizing s with
  | nil =>
      rw [run_nil, Option.some.injEq]
      exact ⟨congrArg Except.ok, Except.ok.inj⟩
  | cons i is ih =>
      rw [run, List.foldlM_cons, Option.bind_eq_some_iff]
      constructor
      · rintro ⟨u, hstep, hrun⟩
        rw [step_ofFold_eq_some.mp hstep]
        exact ih.mp hrun
      · intro h
        cases hf : f s i with
        | error e =>
            rw [hf] at h
            cases h
        | ok u =>
            rw [hf] at h
            exact ⟨u, step_ofFold_eq_some.mpr hf, ih.mpr h⟩

/-- A fold over an append without an error. -/
theorem foldlM_append_eq_ok {ε : Type*} {f : σ → ι → Except ε σ} {s u : σ} {is js : List ι} :
    (is ++ js).foldlM f s = .ok u ↔ ∃ t, is.foldlM f s = .ok t ∧ js.foldlM f t = .ok u := by
  rw [← run_ofFold_eq_some, run_append, Option.bind_eq_some_iff]
  simp only [run_ofFold_eq_some]

/-- A fold without an error, from its first step. -/
theorem foldlM_cons_eq_ok {ε : Type*} {f : σ → ι → Except ε σ} {s u : σ} {i : ι} {is : List ι} :
    (i :: is).foldlM f s = .ok u ↔ ∃ t, f s i = .ok t ∧ is.foldlM f t = .ok u := by
  rw [← run_ofFold_eq_some, run, Option.bind_eq_some_iff]
  simp only [step_ofFold_eq_some, run_ofFold_eq_some]

/-- The same, up to its last step. -/
theorem foldlM_concat_eq_ok {ε : Type*} {f : σ → ι → Except ε σ} {s u : σ} {i : ι}
    {is : List ι} :
    (is ++ [i]).foldlM f s = .ok u ↔ ∃ t, is.foldlM f s = .ok t ∧ f t i = .ok u := by
  rw [foldlM_append_eq_ok]
  refine exists_congr fun t => and_congr_right fun _ => ?_
  rw [show [i].foldlM f t = f t i from bind_pure _]

/-- A fold ends with an error where one of its steps does. -/
theorem foldlM_error_iff {ε : Type*} {f : σ → ι → Except ε σ} {s : σ} {is : List ι} {e : ε} :
    is.foldlM f s = .error e ↔ ∃ v ∈ (ofFold f).visits s is, f v.1 v.2 = .error e := by
  induction is generalizing s with
  | nil => exact ⟨nofun, fun ⟨v, hv, _⟩ => absurd hv List.not_mem_nil⟩
  | cons i is ih =>
      rw [List.foldlM_cons]
      cases hf : f s i with
      | error e' =>
          have hstuck : (ofFold f).step s i = none := by
            show (f s i).toOption = none
            rw [hf]
            rfl
          rw [visits_cons_of_stuck _ hstuck]
          constructor
          · intro h
            exact ⟨(s, i), List.mem_singleton_self _, hf.trans h⟩
          · rintro ⟨v, hv, he⟩
            rw [List.mem_singleton.mp hv] at he
            exact hf.symm.trans he
      | ok t =>
          rw [visits_cons_of_step _ (step_ofFold_eq_some.mpr hf)]
          show is.foldlM f t = .error e ↔ _
          rw [ih]
          constructor
          · rintro ⟨v, hv, he⟩
            exact ⟨v, List.mem_cons_of_mem _ hv, he⟩
          · rintro ⟨v, hv, he⟩
            rcases List.mem_cons.mp hv with rfl | hv
            · exact absurd (hf.symm.trans he) nofun
            · exact ⟨v, hv, he⟩

/-! ## Exactly which runs keep a property -/

/-- **Exactness rule.**  Let `Inv` hold at the start and be kept, together with
`P`, by all good inputs.  If every bad input leads to a state without `P`, then
`P` holds in all states of a run exactly when the run consumes no bad input. -/
theorem always_iff_of_good (Inv P : σ → Prop) (Bad : σ → ι → Prop)
    (hgood : ∀ s i t, Inv s → P s → ¬ Bad s i → M.step s i = some t → Inv t ∧ P t)
    (hbad : ∀ s i, Inv s → P s → Bad s i → ∃ t, M.step s i = some t ∧ ¬ P t)
    {s : σ} (h0 : Inv s) (hP : P s) (is : List ι) :
    (∀ t ∈ M.states s is, P t) ↔ ∀ v ∈ M.visits s is, ¬ Bad v.1 v.2 := by
  induction is generalizing s with
  | nil => simpa using hP
  | cons i is ih =>
      by_cases hb : Bad s i
      · obtain ⟨t, ht, hPt⟩ := hbad s i h0 hP hb
        rw [M.states_cons_of_step ht, M.visits_cons_of_step ht]
        constructor
        · intro h
          exact absurd (h t (List.mem_cons_of_mem s (M.mem_states_self t is))) hPt
        · intro h
          exact absurd hb (h (s, i) List.mem_cons_self)
      · cases hs : M.step s i with
        | none =>
            rw [M.states_cons_of_stuck hs, M.visits_cons_of_stuck hs]
            simp [hP, hb]
        | some t =>
            obtain ⟨ht, hPt⟩ := hgood s i t h0 hP hb hs
            rw [M.states_cons_of_step hs, M.visits_cons_of_step hs, List.forall_mem_cons,
              List.forall_mem_cons, ih ht hPt]
            exact ⟨fun h => ⟨hb, h.2⟩, fun h => ⟨hP, h.2⟩⟩

/-- The exactness rule for an invariant of all steps. -/
theorem always_iff (Inv P : σ → Prop) (Bad : σ → ι → Prop)
    (hinv : ∀ s i t, Inv s → M.step s i = some t → Inv t)
    (hgood : ∀ s i t, Inv s → P s → ¬ Bad s i → M.step s i = some t → P t)
    (hbad : ∀ s i, Inv s → P s → Bad s i → ∃ t, M.step s i = some t ∧ ¬ P t)
    {s : σ} (h0 : Inv s) (hP : P s) (is : List ι) :
    (∀ t ∈ M.states s is, P t) ↔ ∀ v ∈ M.visits s is, ¬ Bad v.1 v.2 :=
  M.always_iff_of_good Inv P Bad
    (fun s i t hs hPs hb hstep => ⟨hinv s i t hs hstep, hgood s i t hs hPs hb hstep⟩) hbad h0 hP is

end Machine
