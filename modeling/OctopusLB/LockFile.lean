/-
# Locks made of a file that must not exist

A process that wants to be the only one of its name looks whether a file of that
name exists, gives up if it does, and creates it otherwise.  When it is done it
removes the file.  Looking and creating are two steps, and a process may end at any
time without removing anything.

* `Step.exclusive`: as long as no two processes of one name are between looking and
  creating, at most one process of each name holds the file, and its file exists;
* `Step.noStale`, `Step.not_noStale`: a file without a holder is left behind by
  exactly the steps in which a holder ends without removing it;
* `Step.stale`: such a file is never held again.
-/
import Mathlib.Data.Set.Insert
import Mathlib.Logic.Function.Basic

namespace LockFile

/-- How far a process has come. -/
inductive Phase
  /-- it has not looked yet -/
  | starting
  /-- it has found no file -/
  | checked
  /-- it has created the file -/
  | holding
  deriving DecidableEq

/-- The files that exist, and the processes with their phase and name. -/
structure State (P N : Type*) where
  files : Set N
  procs : P → Option (Phase × N)

/-- What a process does to the lock. -/
inductive Action (P N : Type*)
  | start (p : P) (f : N)
  | check (p : P)
  | create (p : P)
  /-- a holder goes on as another process -/
  | pass (p c : P)
  /-- a holder removes its file -/
  | free (p : P)
  | quit (p : P)

variable {P N : Type*}

namespace State

/-- Process `p` is in a phase, for name `f`. -/
def At (s : State P N) (p : P) (phase : Phase) (f : N) : Prop := s.procs p = some (phase, f)

/-- Some process holds the file. -/
def Held (s : State P N) (f : N) : Prop := ∃ p, s.At p .holding f

/-- No two processes of one name are between looking and creating. -/
def NoOverlap (s : State P N) : Prop := ∀ p q f, s.At p .checked f → s.At q .checked f → p = q

/-- At most one process of a name holds its file, the file exists, and nobody is about
to create it once more. -/
structure Exclusive (s : State P N) : Prop where
  unique : ∀ p q f, s.At p .holding f → s.At q .holding f → p = q
  exists_file : ∀ p f, s.At p .holding f → f ∈ s.files
  unclaimed : ∀ p f, s.At p .checked f → ¬ s.Held f

/-- Every file has a holder. -/
def NoStale (s : State P N) : Prop := ∀ f ∈ s.files, s.Held f

/-- A file that no process holds, or is about to create. -/
structure Stale (s : State P N) (f : N) : Prop where
  exists_file : f ∈ s.files
  unheld : ¬ s.Held f
  unclaimed : ∀ p, ¬ s.At p .checked f

/-- A process that is in one phase is in no other. -/
theorem At.unique {s : State P N} {p : P} {phase phase' : Phase} {f f' : N}
    (h : s.At p phase f) (h' : s.At p phase' f') : phase = phase' ∧ f = f' :=
  Prod.mk.inj (Option.some.inj (h.symm.trans h'))

variable [DecidableEq P]

/-- Process `p` becomes as given. -/
def put (s : State P N) (p : P) (x : Option (Phase × N)) : State P N :=
  { s with procs := Function.update s.procs p x }

theorem at_put {s : State P N} {p q : P} {x : Option (Phase × N)} {phase : Phase} {f : N} :
    (s.put p x).At q phase f ↔ q = p ∧ x = some (phase, f) ∨ q ≠ p ∧ s.At q phase f := by
  show Function.update s.procs p x q = some (phase, f) ↔ _ ∨ _ ∧ s.procs q = some (phase, f)
  by_cases h : q = p
  · rw [h, Function.update_self]
    simp
  · rw [Function.update_of_ne h]
    simp [h]

end State

variable [DecidableEq P]

open State

/-- One step of one process. -/
inductive Step (s : State P N) : Action P N → State P N → Prop
  | start (p : P) (f : N) (h : s.procs p = none) :
      Step s (.start p f) (s.put p (some (.starting, f)))
  /-- the file exists -/
  | refused (p : P) (f : N) (h : s.At p .starting f) (hf : f ∈ s.files) :
      Step s (.check p) (s.put p none)
  | check (p : P) (f : N) (h : s.At p .starting f) (hf : f ∉ s.files) :
      Step s (.check p) (s.put p (some (.checked, f)))
  | create (p : P) (f : N) (h : s.At p .checked f) :
      Step s (.create p) { s.put p (some (.holding, f)) with files := insert f s.files }
  | pass (p c : P) (f : N) (h : s.At p .holding f) (hc : s.procs c = none) :
      Step s (.pass p c) ((s.put p none).put c (some (.holding, f)))
  | free (p : P) (f : N) (h : s.At p .holding f) :
      Step s (.free p) { s.put p none with files := s.files \ {f} }
  | quit (p : P) (x : Phase × N) (h : s.procs p = some x) : Step s (.quit p) (s.put p none)

/-- A holder ends without removing its file. -/
def Strands (s : State P N) : Action P N → Prop
  | .quit p => ∃ f, s.At p .holding f
  | _ => False

variable {s t : State P N} {a : Action P N}

/-- Where the holders after a step come from. -/
theorem Step.held (h : Step s a t) {p : P} {f : N} (hp : t.At p .holding f) :
    s.At p .holding f ∧ (∀ c, a ≠ .pass p c) ∨ a = .create p ∧ s.At p .checked f ∨
      ∃ q, a = .pass q p ∧ s.At q .holding f := by
  cases h with
  | create q g hq =>
      rcases at_put.mp hp with ⟨rfl, hx⟩ | ⟨-, hp⟩
      · obtain ⟨-, rfl⟩ := Prod.mk.inj (Option.some.inj hx)
        exact Or.inr (Or.inl ⟨rfl, hq⟩)
      · exact Or.inl ⟨hp, nofun⟩
  | pass q c g hq hc =>
      rcases at_put.mp hp with ⟨rfl, hx⟩ | ⟨-, hp⟩
      · obtain ⟨-, rfl⟩ := Prod.mk.inj (Option.some.inj hx)
        exact Or.inr (Or.inr ⟨q, rfl, hq⟩)
      · rcases at_put.mp hp with ⟨-, hx⟩ | ⟨hne, hp⟩
        · cases hx
        · refine Or.inl ⟨hp, fun c' heq => hne ?_⟩
          cases heq
          rfl
  | _ =>
      rcases at_put.mp hp with ⟨-, hx⟩ | ⟨-, hp⟩
      · cases hx
      · exact Or.inl ⟨hp, nofun⟩

/-- Where a file that is about to be created was looked for. -/
theorem Step.checked (h : Step s a t) {p : P} {f : N} (hp : t.At p .checked f) :
    s.At p .checked f ∨ a = .check p ∧ s.At p .starting f ∧ f ∉ s.files := by
  cases h with
  | check q g hq hg =>
      rcases at_put.mp hp with ⟨rfl, hx⟩ | ⟨-, hp⟩
      · obtain ⟨-, rfl⟩ := Prod.mk.inj (Option.some.inj hx)
        exact Or.inr ⟨rfl, hq, hg⟩
      · exact Or.inl hp
  | pass q c g hq hc =>
      rcases at_put.mp hp with ⟨-, hx⟩ | ⟨-, hp⟩
      · cases hx
      · rcases at_put.mp hp with ⟨-, hx⟩ | ⟨-, hp⟩
        · cases hx
        · exact Or.inl hp
  | _ =>
      rcases at_put.mp hp with ⟨-, hx⟩ | ⟨-, hp⟩
      · cases hx
      · exact Or.inl hp

/-- What becomes of a holder. -/
theorem Step.holder (h : Step s a t) {p : P} {f : N} (hp : s.At p .holding f) :
    t.At p .holding f ∨ (∃ c, a = .pass p c ∧ t.At c .holding f) ∨
      a = .free p ∧ t.files = s.files \ {f} ∨ a = .quit p ∧ t = s.put p none := by
  cases h with
  | start q g hq =>
      refine Or.inl (at_put.mpr (Or.inr ⟨?_, hp⟩))
      rintro rfl
      cases hp.symm.trans hq
  | refused q g hq hg =>
      refine Or.inl (at_put.mpr (Or.inr ⟨?_, hp⟩))
      rintro rfl
      cases (hp.unique hq).1
  | check q g hq hg =>
      refine Or.inl (at_put.mpr (Or.inr ⟨?_, hp⟩))
      rintro rfl
      cases (hp.unique hq).1
  | create q g hq =>
      refine Or.inl (at_put.mpr (Or.inr ⟨?_, hp⟩))
      rintro rfl
      cases (hp.unique hq).1
  | pass q c g hq hc =>
      by_cases hpq : p = q
      · subst hpq
        obtain ⟨-, rfl⟩ := hp.unique hq
        exact Or.inr (Or.inl ⟨c, rfl, at_put.mpr (Or.inl ⟨rfl, rfl⟩)⟩)
      · refine Or.inl (at_put.mpr (Or.inr ⟨?_, at_put.mpr (Or.inr ⟨hpq, hp⟩)⟩))
        rintro rfl
        cases hp.symm.trans hc
  | free q g hq =>
      by_cases hpq : p = q
      · subst hpq
        obtain ⟨-, rfl⟩ := hp.unique hq
        exact Or.inr (Or.inr (Or.inl ⟨rfl, rfl⟩))
      · exact Or.inl (at_put.mpr (Or.inr ⟨hpq, hp⟩))
  | quit q x hq =>
      by_cases hpq : p = q
      · subst hpq
        exact Or.inr (Or.inr (Or.inr ⟨rfl, rfl⟩))
      · exact Or.inl (at_put.mpr (Or.inr ⟨hpq, hp⟩))

/-- Files are created and removed by name. -/
theorem Step.files (h : Step s a t) :
    t.files = s.files ∨ (∃ p f, a = .create p ∧ s.At p .checked f ∧ t.files = insert f s.files) ∨
      ∃ p f, a = .free p ∧ s.At p .holding f ∧ t.files = s.files \ {f} := by
  cases h with
  | create p f hp => exact Or.inr (Or.inl ⟨p, f, rfl, hp, rfl⟩)
  | free p f hp => exact Or.inr (Or.inr ⟨p, f, rfl, hp, rfl⟩)
  | _ => exact Or.inl rfl

/-! ## Exclusion -/

/-- **Exclusion.**  Where no two processes of one name are between looking and creating,
a step keeps the holders exclusive. -/
theorem Step.exclusive (h : Step s a t) (hs : s.Exclusive) (hno : s.NoOverlap) :
    t.Exclusive where
  unique := by
    intro p q f hp hq
    rcases h.held hp with ⟨hp, hpp⟩ | ⟨rfl, hp⟩ | ⟨p', rfl, hp⟩
    · rcases h.held hq with ⟨hq, -⟩ | ⟨rfl, hq⟩ | ⟨q', rfl, hq⟩
      · exact hs.unique p q f hp hq
      · exact absurd ⟨p, hp⟩ (hs.unclaimed q f hq)
      · exact absurd rfl (hs.unique q' p f hq hp ▸ hpp q)
    · rcases h.held hq with ⟨hq, -⟩ | ⟨heq, hq⟩ | ⟨q', heq, hq⟩
      · exact absurd ⟨q, hq⟩ (hs.unclaimed p f hp)
      · exact (Action.create.inj heq)
      · cases heq
    · rcases h.held hq with ⟨hq, hqq⟩ | ⟨heq, hq⟩ | ⟨q', heq, hq⟩
      · exact absurd rfl (hs.unique p' q f hp hq ▸ hqq p)
      · cases heq
      · exact (Action.pass.inj heq).2
  exists_file := by
    intro p f hp
    have hfile : (∃ q, s.At q .holding f ∧ a ≠ .free q) ∨ f ∈ t.files := by
      rcases h.held hp with ⟨hp', -⟩ | ⟨rfl, hp'⟩ | ⟨q, rfl, hq⟩
      · refine Or.inl ⟨p, hp', ?_⟩
        rintro rfl
        cases h with
        | free _ g hq =>
            rcases at_put.mp hp with ⟨-, hx⟩ | ⟨hne, -⟩
            · cases hx
            · exact hne rfl
      · cases h with
        | create _ g hq =>
            right
            rw [(hp'.unique hq).2]
            exact Set.mem_insert g s.files
      · exact Or.inl ⟨q, hq, nofun⟩
    rcases hfile with ⟨q, hq, hne⟩ | hfile
    · have hmem := hs.exists_file q f hq
      rcases h.files with heq | ⟨r, g, -, -, heq⟩ | ⟨r, g, rfl, hr, heq⟩
      · exact heq ▸ hmem
      · exact heq ▸ Set.mem_insert_of_mem g hmem
      · -- another process removes the file of another name
        refine heq ▸ ⟨hmem, ?_⟩
        rintro rfl
        exact hne (hs.unique q r f hq hr ▸ rfl)
    · exact hfile
  unclaimed := by
    rintro p f hp ⟨q, hq⟩
    have hheld : s.Held f ∨ ∃ q, a = .create q ∧ s.At q .checked f := by
      rcases h.held hq with ⟨hq, -⟩ | ⟨rfl, hq⟩ | ⟨r, rfl, hr⟩
      · exact Or.inl ⟨q, hq⟩
      · exact Or.inr ⟨q, rfl, hq⟩
      · exact Or.inl ⟨r, hr⟩
    rcases h.checked hp with hp' | ⟨rfl, -, hf⟩
    · rcases hheld with hheld | ⟨r, rfl, hr⟩
      · exact hs.unclaimed p f hp' hheld
      · -- the one that creates the file was the only one about to
        obtain rfl := hno p r f hp' hr
        cases h with
        | create _ g hg =>
            rcases at_put.mp hp with ⟨-, hx⟩ | ⟨hne, -⟩
            · cases hx
            · exact hne rfl
    · rcases hheld with ⟨r, hr⟩ | ⟨r, heq, -⟩
      · exact hf (hs.exists_file r f hr)
      · cases heq

/-! ## Files that are left behind -/

/-- A step in which no holder ends leaves no file without a holder. -/
theorem Step.noStale (h : Step s a t) (hs : s.NoStale) (ha : ¬ Strands s a) : t.NoStale := by
  intro f hf
  -- the file is there because it was, with a holder, or has just been created
  have hheld : s.Held f ∨ ∃ p, a = .create p ∧ t.At p .holding f := by
    rcases h.files with heq | ⟨p, g, rfl, hp, heq⟩ | ⟨p, g, -, -, heq⟩
    · exact Or.inl (hs f (heq ▸ hf))
    · rcases Set.mem_insert_iff.mp (heq ▸ hf) with rfl | hf
      · cases h with
        | create _ g hg =>
            obtain ⟨-, rfl⟩ := hp.unique hg
            exact Or.inr ⟨p, rfl, at_put.mpr (Or.inl ⟨rfl, rfl⟩)⟩
      · exact Or.inl (hs f hf)
    · exact Or.inl (hs f (heq ▸ hf).1)
  rcases hheld with ⟨p, hp⟩ | ⟨p, -, hp⟩
  · rcases h.holder hp with hp | ⟨c, -, hc⟩ | ⟨-, heq⟩ | ⟨rfl, -⟩
    · exact ⟨p, hp⟩
    · exact ⟨c, hc⟩
    · exact absurd rfl (heq ▸ hf).2
    · exact absurd ⟨f, hp⟩ ha
  · exact ⟨p, hp⟩

/-- The file of a holder that ends is left behind. -/
theorem Step.not_noStale (h : Step s a t) (hex : s.Exclusive) (ha : Strands s a) :
    ¬ t.NoStale := by
  cases h with
  | quit p x hx =>
      obtain ⟨f, hp⟩ := ha
      intro hs
      obtain ⟨q, hq⟩ := hs f (hex.exists_file p f hp)
      rcases at_put.mp hq with ⟨-, hx⟩ | ⟨hne, hq⟩
      · cases hx
      · exact hne (hex.unique q p f hq hp)
  | _ => exact ha.elim

/-- **A file left behind stays**, and nobody holds it again. -/
theorem Step.stale (h : Step s a t) {f : N} (hs : s.Stale f) : t.Stale f where
  exists_file := by
    rcases h.files with heq | ⟨p, g, -, -, heq⟩ | ⟨p, g, rfl, hp, heq⟩
    · exact heq ▸ hs.exists_file
    · exact heq ▸ Set.mem_insert_of_mem g hs.exists_file
    · refine heq ▸ ⟨hs.exists_file, ?_⟩
      rintro rfl
      exact hs.unheld ⟨p, hp⟩
  unheld := by
    rintro ⟨p, hp⟩
    rcases h.held hp with ⟨hp, -⟩ | ⟨-, hp⟩ | ⟨q, -, hq⟩
    · exact hs.unheld ⟨p, hp⟩
    · exact hs.unclaimed p hp
    · exact hs.unheld ⟨q, hq⟩
  unclaimed := by
    intro p hp
    rcases h.checked hp with hp | ⟨-, -, hf⟩
    · exact hs.unclaimed p hp
    · exact hf hs.exists_file

end LockFile
