/-
# The slots that `set_subject` looks at

`searchSubject` is `set_subject` statement by statement, with a record of every
slot whose status it reads; `setSubject_eq_searchSubject` says that the commands get
the same from it.  A number is used as an index before it is compared with the size
of its table: the bounds are the last of the four conditions.

`subjectBounds_iff`: a command looks outside the tables or goes on with an empty
selection exactly if the number is not an index, or if no table is searched and the
command uses `subject[0]`.
-/
import OctopusLB.AdminTargets

namespace OctopusLB

open Balancer

variable {L : Type}

/-! ## The search -/

/-- What `set_subject` has done so far: the slots whose status it has read, and the
servers in `subject[]`, of which `subject_count` is the number. -/
structure Search where
  inspected : List (ServerKind × ℤ)
  subject : List ℕ

namespace Search

/-- One round of the loops over a table. -/
def inspect (kind : ServerKind) (b : Balancer L) (x : Search) (i : ℕ) : Search :=
  { inspected := x.inspected ++ [(kind, (i : ℤ))]
    subject := if (b.table kind i).Live then x.subject ++ [slot kind i] else x.subject }

/-- The loop over a table. -/
def all (kind : ServerKind) (b : Balancer L) (x : Search) : Search :=
  (List.range (b.count kind)).foldl (inspect kind b) x

/-- A single slot, with the four conditions in their order; false if -1 is returned. -/
def named (kind : ServerKind) (v1 : ℤ) (b : Balancer L) (x : Search) : Search × Bool :=
  let x := { x with inspected := x.inspected ++ [(kind, v1)] }
  if (b.table kind v1.toNat).Live ∧ v1 < b.count kind ∧ 0 ≤ v1 then
    ({ x with subject := x.subject ++ [slot kind v1.toNat] }, true)
  else (x, false)

end Search

/-- `set_subject`; false if it returns -1. -/
def searchSubject (type id : List UInt8) (multi : Bool) (b : Balancer L) (t : AdminTool) :
    Search × Bool :=
  let x : Search := ⟨[], []⟩
  if t.readonly then (x, false)
  else if startsWith 97 id then
    if multi then
      ((x.all .member b).all .clone b,
        startsWith 99 type || startsWith 109 type || startsWith 97 type)
    else (x, false)
  else
    match strtol id with
    | none => (x, false)
    | some v1 =>
        if startsWith 109 type then x.named .member v1 b
        else if startsWith 99 type then x.named .clone v1 b
        else (x, startsWith 97 type)

section Search

variable {b : Balancer L}

/-- The loop over a table reads the slots in use and those of deleted servers, and
collects the live ones. -/
theorem Search.all_eq (kind : ServerKind) (b : Balancer L) (x : Search) : x.all kind b =
    { inspected := x.inspected ++ (List.range (b.count kind)).map fun i : ℕ => (kind, (i : ℤ))
      subject := x.subject ++ liveSlots kind b } := by
  unfold Search.all liveSlots
  induction b.count kind with
  | zero =>
      rw [List.range_zero, List.foldl_nil, List.filter_nil, List.map_nil, List.map_nil,
        List.append_nil, List.append_nil]
  | succ n ih =>
      have hlast : ([n].filter fun i => (b.table kind i).Live).map (slot kind) =
          if (b.table kind n).Live then [slot kind n] else [] := by
        rw [List.filter_singleton]
        split_ifs
        all_goals simp_all
      rw [List.range_succ, List.foldl_append, ih, List.map_append, List.filter_append,
        List.map_append, hlast, ← List.append_assoc, ← List.append_assoc]
      show Search.inspect kind b _ n = _
      unfold Search.inspect
      split_ifs
      · rfl
      · rw [List.append_nil]
        rfl

/-- A search for all servers. -/
theorem Search.all_all (b : Balancer L) : ((⟨[], []⟩ : Search).all .member b).all .clone b =
    { inspected := ((List.range b.nmembers).map fun i : ℕ => (ServerKind.member, (i : ℤ))) ++
        (List.range b.nclones).map fun i : ℕ => (ServerKind.clone, (i : ℤ))
      subject := liveSlots .member b ++ liveSlots .clone b } := by
  rw [Search.all_eq, Search.all_eq, List.nil_append, List.nil_append]
  rfl

/-- A search for a single server. -/
theorem Search.named_eq (kind : ServerKind) (v1 : ℤ) (b : Balancer L) :
    (⟨[], []⟩ : Search).named kind v1 b =
      (⟨[(kind, v1)], (namedSlot kind v1 b).toList⟩, (namedSlot kind v1 b).isSome) := by
  unfold Search.named namedSlot
  split_ifs
  · rfl
  · rfl

variable {type id : List UInt8} {multi : Bool} {t : AdminTool}

/-! The cases of a call. -/

theorem searchSubject_readonly (h : t.readonly = true) :
    searchSubject type id multi b t = (⟨[], []⟩, false) := if_pos h

theorem searchSubject_all (hro : ¬ t.readonly = true) (hid : startsWith 97 id = true) :
    searchSubject type id multi b t =
      if multi then
        (((⟨[], []⟩ : Search).all .member b).all .clone b,
          startsWith 99 type || startsWith 109 type || startsWith 97 type)
      else (⟨[], []⟩, false) := by
  unfold searchSubject
  rw [if_neg hro, if_pos hid]

theorem searchSubject_outOfRange (hid : ¬ startsWith 97 id = true) (hv : strtol id = none) :
    searchSubject type id multi b t = (⟨[], []⟩, false) := by
  unfold searchSubject
  by_cases hro : t.readonly = true
  · rw [if_pos hro]
  · rw [if_neg hro, if_neg hid, hv]

theorem searchSubject_number {v1 : ℤ} (hro : ¬ t.readonly = true)
    (hid : ¬ startsWith 97 id = true) (hv : strtol id = some v1) :
    searchSubject type id multi b t =
      match typeKind type with
      | some kind => (⟨[(kind, v1)], (namedSlot kind v1 b).toList⟩, (namedSlot kind v1 b).isSome)
      | none => (⟨[], []⟩, startsWith 97 type) := by
  unfold searchSubject typeKind
  rw [if_neg hro, if_neg hid, hv]
  dsimp only
  rw [Search.named_eq, Search.named_eq]
  split
  · rfl
  · split
    · rfl
    · rfl

/-- What a search leaves to the command that it is made for. -/
def AdminTool.select (t : AdminTool) (r : Search × Bool) : AdminTool × Option (List ℕ) :=
  (t.setSubjects r.1.subject, if r.2 then some r.1.subject else none)

/-- The search finds what the commands go on with. -/
theorem setSubject_eq_searchSubject (type id : List UInt8) (multi : Bool) (b : Balancer L)
    (t : AdminTool) :
    setSubject type id multi b t = t.select (searchSubject type id multi b t) := by
  by_cases hro : t.readonly = true
  · rw [setSubject_readonly hro, searchSubject_readonly hro]
    rfl
  by_cases hid : startsWith 97 id = true
  · rw [searchSubject_all hro hid, Search.all_all]
    unfold setSubject
    rw [if_neg hro, if_pos hid]
    cases multi with
    | false => rfl
    | true =>
        dsimp only [AdminTool.select]
        rw [if_pos rfl, if_pos rfl]
        split_ifs
        · rfl
        · rfl
  cases hv : strtol id with
  | none =>
      rw [searchSubject_outOfRange hid hv]
      unfold setSubject
      rw [if_neg hro, if_neg hid, hv]
      rfl
  | some v1 =>
      rw [setSubject_number hro hid hv, searchSubject_number hro hid hv]
      cases typeKind type with
      | none =>
          dsimp only [AdminTool.select]
          split_ifs
          · rfl
          · rfl
      | some kind =>
          dsimp only
          cases namedSlot kind v1 b with
          | none => rfl
          | some p => rfl

end Search

/-! ## What is expected -/

namespace ServerOp

/-- The commands that use `subject[0]` when `set_subject` has returned 0; `reset` does
for its message, unless there are several subjects. -/
def UsesFirst : ServerOp L → ℕ → Prop
  | enable, _ => False
  | disable, _ => False
  | reset, subjectCount => subjectCount ≤ 1
  | _, _ => True

end ServerOp

/-- A command looks at slots of its tables only, fills `subject[]` up to its end at
most, and uses `subject[0]` only if there is one. -/
structure SubjectBounds (op : ServerOp L) (type id : List UInt8) (b : Balancer L)
    (t : AdminTool) : Prop where
  inspected : ∀ kind i, (kind, i) ∈ (searchSubject type id op.multi b t).1.inspected →
    0 ≤ i ∧ i < b.count kind
  size : (searchSubject type id op.multi b t).1.subject.length ≤ 2 * maxServers
  first : (searchSubject type id op.multi b t).2 = true →
    op.UsesFirst (searchSubject type id op.multi b t).1.subject.length →
    1 ≤ (searchSubject type id op.multi b t).1.subject.length

/-- Nothing goes wrong in read-only mode.  With all servers named, `subject[]` has
room for them, and there is one if the message of `reset` needs it.  A number, if
`strtol` returns one, is an index of the table that the type names; if the type is
neither that of a member nor of a clone, it is invalid or `subject[0]` is not used. -/
def NamesWithin (op : ServerOp L) (type id : List UInt8) (b : Balancer L) (t : AdminTool) :
    Prop :=
  t.readonly = true ∨
    (startsWith 97 id = true ∧ (op.multi = true →
      (liveSlots .member b ++ liveSlots .clone b).length ≤ 2 * maxServers ∧
        (ValidType type → op.UsesFirst 0 → ∃ p, b.InUse p))) ∨
    (startsWith 97 id = false ∧ ∀ v1, strtol id = some v1 →
      match typeKind type with
      | some kind => 0 ≤ v1 ∧ v1 < b.count kind
      | none => startsWith 97 type = true → ¬ op.UsesFirst 0)

/-! ## The bounds -/

section Bounds

variable {op : ServerOp L} {type id : List UInt8} {multi : Bool} {b : Balancer L}
  {t : AdminTool}

/-- A search that has found nothing and read nothing, if the command gives up. -/
theorem subjectBounds_of_nothing (h : searchSubject type id op.multi b t = (⟨[], []⟩, false)) :
    SubjectBounds op type id b t := by
  refine ⟨?_, ?_, ?_⟩
  · rw [h]
    exact fun _ _ hmem => absurd hmem List.not_mem_nil
  · rw [h]
    exact Nat.zero_le _
  · rw [h]
    exact nofun

/-- A command with several targets uses `subject[0]` at most if there is none or one. -/
theorem usesFirst_of_multi (hmulti : op.multi = true) {k : ℕ} (h : op.UsesFirst k) :
    op.UsesFirst 0 := by
  cases op with
  | reset => exact Nat.zero_le 1
  | enable => exact h
  | disable => exact h
  | standby => trivial
  | delete => trivial
  | maxl value => trivial
  | maxc value => trivial

/-- A call for all servers. -/
theorem subjectBounds_all_iff (hro : ¬ t.readonly = true) (hid : startsWith 97 id = true)
    (hmulti : op.multi = true) : SubjectBounds op type id b t ↔
      (liveSlots .member b ++ liveSlots .clone b).length ≤ 2 * maxServers ∧
        (ValidType type → op.UsesFirst 0 → ∃ p, b.InUse p) := by
  have hsearch : searchSubject type id op.multi b t = _ := searchSubject_all hro hid
  rw [hmulti, if_pos rfl, Search.all_all] at hsearch
  have hlive : (∃ p, b.InUse p) ↔ 1 ≤ (liveSlots .member b ++ liveSlots .clone b).length := by
    rw [Nat.one_le_iff_ne_zero, ← Nat.pos_iff_ne_zero, List.length_pos_iff_exists_mem]
    exact exists_congr fun p => mem_allSlots.symm
  rw [validType_iff, hlive]
  constructor
  · rintro ⟨-, hsize, hfirst⟩
    rw [hmulti, hsearch] at hsize hfirst
    refine ⟨hsize, fun htype huses => ?_⟩
    by_contra hnot
    have hzero : (liveSlots .member b ++ liveSlots .clone b).length = 0 := by omega
    refine hnot (hfirst htype ?_)
    dsimp only
    rw [hzero]
    exact huses
  · rintro ⟨hsize, hfirst⟩
    refine ⟨?_, ?_, ?_⟩
    · rw [hmulti, hsearch]
      intro kind i hmem
      rcases List.mem_append.mp hmem with hmem | hmem
      · obtain ⟨k, hk, heq⟩ := List.mem_map.mp hmem
        obtain ⟨rfl, rfl⟩ := Prod.mk.inj heq
        exact ⟨Int.natCast_nonneg k, Int.ofNat_lt.mpr (List.mem_range.mp hk)⟩
      · obtain ⟨k, hk, heq⟩ := List.mem_map.mp hmem
        obtain ⟨rfl, rfl⟩ := Prod.mk.inj heq
        exact ⟨Int.natCast_nonneg k, Int.ofNat_lt.mpr (List.mem_range.mp hk)⟩
    · rw [hmulti, hsearch]
      exact hsize
    · rw [hmulti, hsearch]
      exact fun htype huses => hfirst htype (usesFirst_of_multi hmulti huses)

/-- A call with a number. -/
theorem subjectBounds_number_iff {v1 : ℤ} (hro : ¬ t.readonly = true)
    (hid : ¬ startsWith 97 id = true) (hv : strtol id = some v1) :
    SubjectBounds op type id b t ↔
      match typeKind type with
      | some kind => 0 ≤ v1 ∧ v1 < b.count kind
      | none => startsWith 97 type = true → ¬ op.UsesFirst 0 := by
  have hsearch : searchSubject type id op.multi b t = _ := searchSubject_number hro hid hv
  cases hkind : typeKind type with
  | none =>
      rw [hkind] at hsearch
      dsimp only at hsearch
      constructor
      · intro h htype huses
        have hfirst := h.first
        rw [hsearch] at hfirst
        exact absurd (hfirst htype huses) (Nat.not_succ_le_zero 0)
      · intro h
        refine ⟨?_, ?_, ?_⟩
        · rw [hsearch]
          exact fun _ _ hmem => absurd hmem List.not_mem_nil
        · rw [hsearch]
          exact Nat.zero_le _
        · rw [hsearch]
          exact fun htype huses => absurd huses (h htype)
  | some kind =>
      rw [hkind] at hsearch
      dsimp only at hsearch
      constructor
      · intro h
        have hinside := h.inspected kind v1
        rw [hsearch] at hinside
        exact hinside List.mem_cons_self
      · intro hv1
        refine ⟨?_, ?_, ?_⟩
        · rw [hsearch]
          intro kind' i hmem
          obtain ⟨rfl, rfl⟩ := Prod.mk.inj (List.mem_singleton.mp hmem)
          exact hv1
        · rw [hsearch]
          cases namedSlot kind v1 b with
          | none => exact Nat.zero_le _
          | some p => exact Nat.one_le_of_lt (by decide : 0 < 2 * maxServers)
        · rw [hsearch]
          cases namedSlot kind v1 b with
          | none => exact fun hok => absurd hok nofun
          | some p => exact fun _ _ => Nat.le_refl 1

/-- **The bounds.**  A command stays inside the tables and within its subjects exactly
if what it names is within them. -/
theorem subjectBounds_iff (op : ServerOp L) (type id : List UInt8) (b : Balancer L)
    (t : AdminTool) : SubjectBounds op type id b t ↔ NamesWithin op type id b t := by
  unfold NamesWithin
  by_cases hro : t.readonly = true
  · exact iff_of_true (subjectBounds_of_nothing (searchSubject_readonly hro)) (Or.inl hro)
  cases hid : startsWith 97 id with
  | true =>
      cases hmulti : op.multi with
      | true =>
          rw [subjectBounds_all_iff hro hid hmulti]
          simp [hro]
      | false =>
          refine iff_of_true (subjectBounds_of_nothing ?_) ?_
          · rw [searchSubject_all hro hid, hmulti]
            rfl
          · exact Or.inr (Or.inl ⟨rfl, nofun⟩)
  | false =>
      have hid' : ¬ startsWith 97 id = true := by rw [hid]; exact nofun
      cases hv : strtol id with
      | none =>
          refine iff_of_true (subjectBounds_of_nothing (searchSubject_outOfRange hid' hv)) ?_
          exact Or.inr (Or.inr ⟨rfl, nofun⟩)
      | some v1 =>
          rw [subjectBounds_number_iff hro hid' hv]
          simp [hro]

/-- A selection that is not empty begins with `subject[0]`. -/
theorem setSubject_of_nonempty
    (h : ∀ l, (setSubject type id multi b t).2 = some l → l ≠ []) :
    (∃ t', setSubject type id multi b t = (t', none)) ∨
      ∃ p l, setSubject type id multi b t = (t.setSubjects (p :: l), some (p :: l)) := by
  obtain ⟨l, -, hset, hnone | hsome⟩ := setSubject_cases type id multi b t
  · exact Or.inl ⟨_, Prod.ext rfl hnone⟩
  · cases l with
    | nil => exact absurd rfl (h [] hsome)
    | cons p l => exact Or.inr ⟨p, l, Prod.ext hset hsome⟩

/-- A command with a single target that finds one does not crash. -/
theorem cmdSingle_ne_none (edit : Server L → Server L)
    (h : ∀ l, (setSubject type id false b t).2 = some l → l ≠ []) :
    cmdSingle edit type id b t ≠ none := by
  unfold cmdSingle
  rcases setSubject_of_nonempty h with ⟨t', hset⟩ | ⟨p, l, hset⟩
  · rw [hset]
    exact Option.some_ne_none _
  · rw [hset]
    exact Option.some_ne_none _

/-- Nor does `reset`. -/
theorem cmdReset_ne_none (h : ∀ l, (setSubject type id true b t).2 = some l → l ≠ []) :
    cmdReset type id b t ≠ none := by
  unfold cmdReset
  rcases setSubject_of_nonempty h with ⟨t', hset⟩ | ⟨p, l, hset⟩
  · rw [hset]
    exact Option.some_ne_none _
  · have hfirst : (t.setSubjects (p :: l)).subject ≠ none := Option.some_ne_none p
    rw [hset]
    dsimp only
    rw [if_pos (Or.inr hfirst)]
    exact Option.some_ne_none _

/-- A command that keeps to the bounds does not crash. -/
theorem runCommand_ne_none [IntCast L] (h : SubjectBounds op type id b t) :
    runCommand (op.command type id) b t ≠ none := by
  have hset := setSubject_eq_searchSubject type id op.multi b t
  have hfirst (huses : ∀ k, k ≤ 1 → op.UsesFirst k) :
      ∀ l, (setSubject type id op.multi b t).2 = some l → l ≠ [] := by
    rintro l hl rfl
    rw [hset] at hl
    have hok : (searchSubject type id op.multi b t).2 = true := by
      by_contra hnot
      rw [AdminTool.select, if_neg hnot] at hl
      cases hl
    rw [AdminTool.select, if_pos hok] at hl
    have hlength := h.first hok
    rw [Option.some.inj hl] at hlength
    exact absurd (hlength (huses _ (Nat.zero_le 1))) (Nat.not_succ_le_zero 0)
  cases op with
  | standby => exact cmdSingle_ne_none _ (hfirst fun _ _ => trivial)
  | delete => exact cmdSingle_ne_none _ (hfirst fun _ _ => trivial)
  | maxl value => exact cmdSingle_ne_none _ (hfirst fun _ _ => trivial)
  | maxc value => exact cmdSingle_ne_none _ (hfirst fun _ _ => trivial)
  | enable => exact Option.some_ne_none _
  | disable => exact Option.some_ne_none _
  | reset => exact cmdReset_ne_none (hfirst fun _ hk => hk)

end Bounds

/-- The command `standby m 100000` of an admin process that has just started. -/
theorem index_not_tested :
    ¬ SubjectBounds ServerOp.standby [109] [49, 48, 48, 48, 48, 48]
      (initializeBalancer (4 : ℤ) 0) .initial := by
  intro h
  have hinside := h.inspected .member 100000 (by decide)
  exact absurd hinside.2 (by decide)

end OctopusLB
