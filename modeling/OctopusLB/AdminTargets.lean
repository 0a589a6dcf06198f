/-
# The servers that an admin command names

`set_subject` takes the first letter of the type, and of the id whatever
`strtol` makes of its front; nothing checks what is left over.
`actsOnNamed_iff`: the seven commands that name servers act on the named ones
and on no others, unless the id starts with `a` without being `a` or `all`
(or there is no server to name), or a live server is found through an id that
is no number, or a number is given with the type `a`, for which no table is
looked at.
-/
import OctopusLB.AdminCommands

namespace OctopusLB

open Balancer

variable {L : Type}

/-! ## What is named -/

/-- The commands that name the servers they change. -/
inductive ServerOp (L : Type)
  | standby
  | delete
  | maxl (value : L)
  | maxc (value : ℤ)
  | enable
  | disable
  | reset

namespace ServerOp

/-- The command with a type and an id. -/
def command (type id : List UInt8) : ServerOp L → Command L
  | standby => .standby type id
  | delete => .delete type id
  | maxl value => .maxl type id value
  | maxc value => .maxc type id value
  | enable => .enable type id
  | disable => .disable type id
  | reset => .reset type id

/-- `MULTI_TARGET_CMD`. -/
def multi : ServerOp L → Bool
  | enable => true
  | disable => true
  | reset => true
  | _ => false

/-- What the command makes of a server that it is meant for. -/
def edit : ServerOp L → Server L → Server L
  | standby => fun s => { s with standbyState := !s.standbyState }
  | delete => fun s => { s with status := .deleted }
  | maxl value => fun s => { s with maxl := value }
  | maxc value => fun s => { s with maxc := value }
  | enable => enableServer
  | disable => disableServer
  | reset => resetServer

end ServerOp

/-- `a` or `all`, without or with the newline that ends a line of input. -/
def AllServers (id : List UInt8) : Prop :=
  id = [97] ∨ id = [97, 10] ∨ id = [97, 108, 108] ∨ id = [97, 108, 108, 10]

/-- The type is that of a member, of a clone, or of all servers. -/
def ValidType (type : List UInt8) : Prop := (typeKind type).isSome ∨ startsWith 97 type = true

/-- Type and id name the server in slot `p`. -/
def Names (multi : Bool) (type id : List UInt8) (b : Balancer L) (p : ℕ) : Prop :=
  (multi = true ∧ AllServers id ∧ ValidType type ∧ b.InUse p) ∨
    ∃ kind, ∃ i : ℕ, typeKind type = some kind ∧ spelled id = some (i : ℤ) ∧ i < b.count kind ∧
      p = slot kind i ∧ (b.servers p).Live

/-- A command acts on the servers it names: those are the subjects if
`set_subject` returns 0, which it does not if none is named; they are edited,
and no server is if -1 is returned. -/
structure ActsOnNamed [IntCast L] (op : ServerOp L) (type id : List UInt8) (b : Balancer L)
    (t : AdminTool) : Prop where
  subjects : ∀ l, (setSubject type id op.multi b t).2 = some l →
    ∀ p, p ∈ l ↔ Names op.multi type id b p
  fails : (∀ p, ¬ Names op.multi type id b p) → (setSubject type id op.multi b t).2 = none
  changes : ∃ t' b', runCommand (op.command type id) b t = some (t', b') ∧
    ∀ p, b'.servers p =
      if p ∈ (setSubject type id op.multi b t).2.getD [] then op.edit (b.servers p)
      else b.servers p

/-- Type and id are taken for what they are not. -/
def Mistaken (multi : Bool) (type id : List UInt8) (b : Balancer L) : Prop :=
  (multi = true ∧ startsWith 97 id = true ∧ ValidType type ∧
      (¬ AllServers id ∨ ∀ p, ¬ b.InUse p)) ∨
    (startsWith 97 id = false ∧ ∃ v, strtol id = some v ∧
      ((∃ kind, ∃ i : ℕ, typeKind type = some kind ∧ v = i ∧ i < b.count kind ∧
          (b.table kind i).Live ∧ ¬ Whole id) ∨
        startsWith 97 type = true))

/-! ## Strings -/

theorem startsWith_of_allServers {id : List UInt8} (h : AllServers id) :
    startsWith 97 id = true := by
  rcases h with rfl | rfl | rfl | rfl
  all_goals rfl

/-- A string that starts with the letter `a` is no number. -/
theorem spelled_of_startsWith {id : List UInt8} (h : startsWith 97 id = true) :
    spelled id = none := by
  obtain ⟨rest, rfl⟩ : ∃ rest, id = 97 :: rest := by
    cases id with
    | nil => cases h
    | cons c rest =>
        have hc : some c = some 97 := of_decide_eq_true h
        exact ⟨rest, by rw [Option.some.inj hc]⟩
  exact if_neg fun hw => hw.1 rfl

/-- Only the front of a number counts for `strtol`. -/
theorem spelled_of_strtol {id : List UInt8} {v : ℤ} (h : strtol id = some v) :
    spelled id = if Whole id then some v else none := by
  rw [strtol_eq] at h
  split_ifs at h
  rw [spelled, Option.some.inj h]

theorem typeKind_eq_none_of_all {type : List UInt8} (h : startsWith 97 type = true) :
    typeKind type = none := by
  have hhead : type.head? = some 97 := of_decide_eq_true h
  have hno : ∀ c : UInt8, c ≠ 97 → startsWith c type = false := by
    intro c hc
    refine decide_eq_false fun heq => hc ?_
    exact (Option.some.inj (hhead.symm.trans heq)).symm
  unfold typeKind
  rw [hno 109 (by decide), hno 99 (by decide)]
  rfl

/-- A type is valid by its first letter. -/
theorem validType_iff {type : List UInt8} : ValidType type ↔
    (startsWith 99 type || startsWith 109 type || startsWith 97 type) = true := by
  unfold ValidType typeKind
  cases startsWith 109 type with
  | true => simp
  | false =>
      cases startsWith 99 type with
      | true => simp
      | false => simp

/-! ## The subjects -/

theorem mem_liveSlots {kind : ServerKind} {b : Balancer L} {p : ℕ} :
    p ∈ liveSlots kind b ↔ ∃ i < b.count kind, p = slot kind i ∧ (b.servers p).Live := by
  unfold liveSlots
  rw [List.mem_map]
  constructor
  · rintro ⟨i, hi, rfl⟩
    obtain ⟨hlt, hlive⟩ := List.mem_filter.mp hi
    exact ⟨i, List.mem_range.mp hlt, rfl, of_decide_eq_true hlive⟩
  · rintro ⟨i, hi, rfl, hlive⟩
    exact ⟨i, List.mem_filter.mpr ⟨List.mem_range.mpr hi, decide_eq_true hlive⟩, rfl⟩

theorem mem_allSlots {b : Balancer L} {p : ℕ} :
    p ∈ liveSlots .member b ++ liveSlots .clone b ↔ b.InUse p := by
  rw [List.mem_append, mem_liveSlots, mem_liveSlots]
  constructor
  · rintro (h | h)
    · exact ⟨.member, h⟩
    · exact ⟨.clone, h⟩
  · rintro ⟨kind, h⟩
    cases kind with
    | member => exact Or.inl h
    | clone => exact Or.inr h

theorem namedSlot_eq_some {kind : ServerKind} {v : ℤ} {b : Balancer L} {p : ℕ} :
    namedSlot kind v b = some p ↔
      ∃ i : ℕ, v = i ∧ i < b.count kind ∧ p = slot kind i ∧ (b.table kind i).Live := by
  unfold namedSlot
  constructor
  · intro h
    split_ifs at h with hc
    exact ⟨v.toNat, by omega, by omega, (Option.some.inj h).symm, hc.1⟩
  · rintro ⟨i, rfl, hi, rfl, hlive⟩
    exact if_pos ⟨hlive, by omega, by omega⟩

section Subjects

variable {type id : List UInt8} {multi : Bool} {b : Balancer L} {t : AdminTool}

/-- An id that starts with `a`, for a command with several targets. -/
theorem setSubject_all (hro : ¬ t.readonly = true) (hid : startsWith 97 id = true)
    (htype : ValidType type) : setSubject type id true b t =
      (t.setSubjects (liveSlots .member b ++ liveSlots .clone b),
        some (liveSlots .member b ++ liveSlots .clone b)) := by
  unfold setSubject
  rw [if_neg hro, if_pos hid, if_pos rfl]
  exact if_pos (validType_iff.mp htype)

/-- An id that starts with `a`, and nothing is found. -/
theorem setSubject_all_fails (hid : startsWith 97 id = true)
    (h : multi = false ∨ ¬ ValidType type) : (setSubject type id multi b t).2 = none := by
  unfold setSubject
  by_cases hro : t.readonly = true
  · rw [if_pos hro]
  rw [if_neg hro, if_pos hid]
  split
  · next hmulti =>
      have htype : ¬ ValidType type := h.resolve_left (by simp [hmulti])
      dsimp only
      rw [if_neg fun hletter => htype (validType_iff.mpr hletter)]
  · rfl

/-- An id that is read as a number. -/
theorem setSubject_number {v : ℤ} (hro : ¬ t.readonly = true) (hid : ¬ startsWith 97 id = true)
    (hv : strtol id = some v) : setSubject type id multi b t =
      match typeKind type with
      | some kind => t.setNamed (namedSlot kind v b)
      | none => if startsWith 97 type then (t, some []) else (t, none) := by
  unfold setSubject typeKind
  rw [if_neg hro, if_neg hid, hv]
  dsimp only
  split
  · rfl
  · split
    · rfl
    · rfl

theorem setSubject_outOfRange (hid : ¬ startsWith 97 id = true) (hv : strtol id = none) :
    (setSubject type id multi b t).2 = none := by
  unfold setSubject
  by_cases hro : t.readonly = true
  · rw [if_pos hro]
  · rw [if_neg hro, if_neg hid, hv]

/-- With an id that starts with `a`, all servers are named or none is. -/
theorem names_iff_of_all (hid : startsWith 97 id = true) (p : ℕ) :
    Names multi type id b p ↔ multi = true ∧ AllServers id ∧ ValidType type ∧ b.InUse p := by
  unfold Names
  constructor
  · rintro (h | ⟨kind, i, -, hs, -⟩)
    · exact h
    · rw [spelled_of_startsWith hid] at hs
      cases hs
  · exact Or.inl

/-- With any other id, at most the server of that number. -/
theorem names_iff_of_number {v : ℤ} (hid : ¬ startsWith 97 id = true)
    (hv : strtol id = some v) (p : ℕ) : Names multi type id b p ↔
      ∃ kind, typeKind type = some kind ∧ Whole id ∧ namedSlot kind v b = some p := by
  unfold Names
  rw [spelled_of_strtol hv]
  constructor
  · rintro (⟨-, hall, -⟩ | ⟨kind, i, hkind, hs, hi, rfl, hlive⟩)
    · exact absurd (startsWith_of_allServers hall) hid
    · split_ifs at hs with hw
      exact ⟨kind, hkind, hw, namedSlot_eq_some.mpr ⟨i, Option.some.inj hs, hi, rfl, hlive⟩⟩
  · rintro ⟨kind, hkind, hw, hn⟩
    obtain ⟨i, rfl, hi, rfl, hlive⟩ := namedSlot_eq_some.mp hn
    exact Or.inr ⟨kind, i, hkind, if_pos hw, hi, rfl, hlive⟩

end Subjects

/-! ## The commands -/

theorem servers_setClonedState (b : Balancer L) : (setClonedState b).servers = b.servers := by
  obtain ⟨mode, heq⟩ := setClonedState_eq b
  rw [heq]

section Commands

variable {type id : List UInt8} {b : Balancer L} {t : AdminTool}

/-- `set_subject` has failed, or found at least one server, and only one for a
command with a single target. -/
def Targeted (multi : Bool) (type id : List UInt8) (b : Balancer L) (t : AdminTool) : Prop :=
  (setSubject type id multi b t).2 = none ∨
    ∃ p l, setSubject type id multi b t = (t.setSubjects (p :: l), some (p :: l)) ∧
      (multi = false → l = [])

/-- A command with a single target edits it. -/
theorem cmdSingle_changes (edit : Server L → Server L) (h : Targeted false type id b t) :
    ∃ t' b', cmdSingle edit type id b t = some (t', b') ∧ ∀ p, b'.servers p =
      if p ∈ (setSubject type id false b t).2.getD [] then edit (b.servers p)
      else b.servers p := by
  unfold cmdSingle
  rcases h with hnone | ⟨q, l, hsub, hl⟩
  · rcases hs : setSubject type id false b t with ⟨t₁, o⟩
    rw [hs] at hnone
    subst hnone
    exact ⟨t₁, b, rfl, fun p => (if_neg List.not_mem_nil).symm⟩
  · rw [hsub, hl rfl]
    refine ⟨t.setSubjects [q], b.modifyServer q edit, rfl, fun p => ?_⟩
    rw [servers_modifyServer]
    simp only [Option.getD_some, List.mem_singleton]

/-- Whatever `set_subject` has found is edited, and nothing else. -/
theorem runCommand_changes [IntCast L] {op : ServerOp L} (h : Targeted op.multi type id b t) :
    ∃ t' b', runCommand (op.command type id) b t = some (t', b') ∧ ∀ p, b'.servers p =
      if p ∈ (setSubject type id op.multi b t).2.getD [] then op.edit (b.servers p)
      else b.servers p := by
  cases op with
  | standby => exact cmdSingle_changes _ h
  | delete => exact cmdSingle_changes _ h
  | maxl value => exact cmdSingle_changes _ h
  | maxc value => exact cmdSingle_changes _ h
  | enable =>
      show ∃ t' b', some (cmdEnable type id b t) = some (t', b') ∧ ∀ p, b'.servers p =
        if p ∈ (setSubject type id true b t).2.getD [] then enableServer (b.servers p)
        else b.servers p
      unfold cmdEnable
      rcases setSubject type id true b t with ⟨t₁, _ | l⟩
      · exact ⟨t₁, b, rfl, fun p => (if_neg List.not_mem_nil).symm⟩
      · refine ⟨t₁, _, rfl, fun p => ?_⟩
        rw [servers_setClonedState]
        exact servers_editAll enableServer_idem l b p
  | disable =>
      show ∃ t' b', some (cmdDisable type id b t) = some (t', b') ∧ ∀ p, b'.servers p =
        if p ∈ (setSubject type id true b t).2.getD [] then disableServer (b.servers p)
        else b.servers p
      unfold cmdDisable
      rcases setSubject type id true b t with ⟨t₁, _ | l⟩
      · exact ⟨t₁, b, rfl, fun p => (if_neg List.not_mem_nil).symm⟩
      · refine ⟨t₁, _, rfl, fun p => ?_⟩
        rw [servers_setClonedState]
        exact servers_editAll disableServer_idem l b p
  | reset =>
      show ∃ t' b', cmdReset type id b t = some (t', b') ∧ ∀ p, b'.servers p =
        if p ∈ (setSubject type id true b t).2.getD [] then resetServer (b.servers p)
        else b.servers p
      unfold cmdReset
      rcases h with hnone | ⟨q, l, hsub, -⟩
      · change (setSubject type id true b t).2 = none at hnone
        rcases hs : setSubject type id true b t with ⟨t₁, o⟩
        rw [hs] at hnone
        subst hnone
        exact ⟨t₁, b, rfl, fun p => (if_neg List.not_mem_nil).symm⟩
      · change setSubject type id true b t = _ at hsub
        rw [hsub]
        -- the message at the end finds a name in `subject[0]`
        refine ⟨_, _, if_pos (Or.inr nofun), fun p => ?_⟩
        exact servers_editAll (fun s => (rfl : resetServer (resetServer s) = resetServer s))
          (q :: l) b p

/-- `set_subject` finds the servers that are named. -/
structure FindsNamed (multi : Bool) (type id : List UInt8) (b : Balancer L) (t : AdminTool) :
    Prop where
  targeted : Targeted multi type id b t
  subjects : ∀ l, (setSubject type id multi b t).2 = some l →
    ∀ p, p ∈ l ↔ Names multi type id b p
  fails : (∀ p, ¬ Names multi type id b p) → (setSubject type id multi b t).2 = none

/-- There is nothing to show where it fails. -/
theorem FindsNamed.of_none {multi : Bool} (h : (setSubject type id multi b t).2 = none) :
    FindsNamed multi type id b t :=
  ⟨Or.inl h, fun _ hl => absurd (h.symm.trans hl) nofun, fun _ => h⟩

/-- Unless type and id are mistaken, `set_subject` finds what they name. -/
theorem findsNamed_of_not_mistaken {multi : Bool} (h : ¬ Mistaken multi type id b) :
    FindsNamed multi type id b t := by
  by_cases hro : t.readonly = true
  · exact .of_none (by rw [setSubject_readonly hro])
  by_cases hid : startsWith 97 id = true
  · by_cases hok : multi = true ∧ ValidType type
    · obtain ⟨rfl, htype⟩ := hok
      have hsub := setSubject_all (b := b) hro hid htype
      have hall : AllServers id ∧ ∃ p, b.InUse p := by
        by_contra hno
        refine h (Or.inl ⟨rfl, hid, htype, ?_⟩)
        rcases not_and_or.mp hno with hno | hno
        · exact Or.inl hno
        · exact Or.inr fun p hp => hno ⟨p, hp⟩
      have hmem : ∀ p, p ∈ liveSlots .member b ++ liveSlots .clone b ↔
          Names true type id b p := by
        intro p
        rw [mem_allSlots, names_iff_of_all hid]
        exact ⟨fun hp => ⟨rfl, hall.1, htype, hp⟩, fun hp => hp.2.2.2⟩
      obtain ⟨q, hq⟩ := hall.2
      refine ⟨?_, fun l hl p => ?_, fun hno => ?_⟩
      · cases hlist : liveSlots .member b ++ liveSlots .clone b with
        | nil =>
            rw [← mem_allSlots, hlist] at hq
            exact absurd hq List.not_mem_nil
        | cons p l => exact Or.inr ⟨p, l, hlist ▸ hsub, nofun⟩
      · rw [hsub] at hl
        rw [← Option.some.inj hl]
        exact hmem p
      · exact absurd ((hmem q).mp (mem_allSlots.mpr hq)) (hno q)
    · refine .of_none (setSubject_all_fails hid ?_)
      rcases not_and_or.mp hok with hmulti | htype
      · exact Or.inl (by simpa using hmulti)
      · exact Or.inr htype
  cases hv : strtol id with
  | none => exact .of_none (setSubject_outOfRange hid hv)
  | some v =>
      have hsub := @setSubject_number L type id multi b t v hro hid hv
      cases hkind : typeKind type with
      | none =>
          refine .of_none ?_
          rw [hsub, hkind]
          have htype : ¬ startsWith 97 type = true := fun htype =>
            h (Or.inr ⟨by simpa using hid, v, hv, Or.inr htype⟩)
          dsimp only
          rw [if_neg htype]
      | some kind =>
          rw [hkind] at hsub
          dsimp only at hsub
          cases hn : namedSlot kind v b with
          | none =>
              refine .of_none ?_
              rw [hsub, hn]
              rfl
          | some q =>
              rw [hn] at hsub
              have hw : Whole id := by
                by_contra hw
                obtain ⟨i, hi, hlt, -, hlive⟩ := namedSlot_eq_some.mp hn
                exact h (Or.inr ⟨by simpa using hid, v, hv,
                  Or.inl ⟨kind, i, hkind, hi, hlt, hlive, hw⟩⟩)
              have hnames : ∀ p, Names multi type id b p ↔ p = q := by
                intro p
                rw [names_iff_of_number hid hv]
                constructor
                · rintro ⟨kind', hkind', -, hp⟩
                  obtain rfl := Option.some.inj (hkind.symm.trans hkind')
                  exact (Option.some.inj (hn.symm.trans hp)).symm
                · rintro rfl
                  exact ⟨kind, hkind, hw, hn⟩
              refine ⟨Or.inr ⟨q, [], hsub, fun _ => rfl⟩, fun l hl p => ?_, fun hno => ?_⟩
              · rw [hsub] at hl
                rw [← Option.some.inj hl, hnames]
                exact List.mem_singleton
              · exact absurd ((hnames q).mpr rfl) (hno q)

/-- If they are, it finds servers where none is named. -/
theorem stray_of_mistaken {multi : Bool} (hro : ¬ t.readonly = true)
    (h : Mistaken multi type id b) : (∀ p, ¬ Names multi type id b p) ∧
      (setSubject type id multi b t).2 ≠ none := by
  rcases h with ⟨rfl, hid, htype, hno⟩ | ⟨hid, v, hv, hno⟩
  · refine ⟨fun p hp => ?_, ?_⟩
    · obtain ⟨-, hall, -, huse⟩ := (names_iff_of_all hid p).mp hp
      rcases hno with hno | hno
      · exact hno hall
      · exact hno p huse
    · rw [setSubject_all hro hid htype]
      nofun
  · have hid' : ¬ startsWith 97 id = true := by simp [hid]
    rw [setSubject_number hro hid' hv]
    rcases hno with ⟨kind, i, hkind, hi, hlt, hlive, hw⟩ | htype
    · refine ⟨fun p hp => ?_, ?_⟩
      · obtain ⟨-, -, hwhole, -⟩ := (names_iff_of_number hid' hv p).mp hp
        exact hw hwhole
      · rw [hkind]
        dsimp only
        rw [namedSlot_eq_some.mpr ⟨i, hi, hlt, rfl, hlive⟩]
        nofun
    · have hkind := typeKind_eq_none_of_all htype
      refine ⟨fun p hp => ?_, ?_⟩
      · obtain ⟨kind, hkind', -⟩ := (names_iff_of_number hid' hv p).mp hp
        exact absurd (hkind.symm.trans hkind') nofun
      · rw [hkind]
        dsimp only
        rw [if_pos htype]
        nofun

end Commands

/-- **Admin targets.**  A command acts on exactly the servers that it names
unless type and id are taken for what they are not. -/
theorem actsOnNamed_iff [IntCast L] (op : ServerOp L) (type id : List UInt8) (b : Balancer L)
    (t : AdminTool) :
    ActsOnNamed op type id b t ↔ t.readonly = true ∨ ¬ Mistaken op.multi type id b := by
  constructor
  · intro h
    by_contra hno
    obtain ⟨hro, hmistaken⟩ := not_or.mp hno
    obtain ⟨hnone, hsome⟩ := stray_of_mistaken hro (not_not.mp hmistaken)
    exact hsome (h.fails hnone)
  · intro h
    rcases h with hro | h
    · have hnone : (setSubject type id op.multi b t).2 = none := by rw [setSubject_readonly hro]
      exact ⟨fun l hl => absurd (hnone.symm.trans hl) nofun, fun _ => hnone,
        runCommand_changes (Or.inl hnone)⟩
    · have hfinds : FindsNamed op.multi type id b t := findsNamed_of_not_mistaken h
      exact ⟨hfinds.subjects, hfinds.fails, runCommand_changes hfinds.targeted⟩

/-- One member, which is enabled. -/
def oneMember : Balancer ℤ :=
  { initializeBalancer 0 0 with nmembers := 1 }.modifyServer 0 fun s => { s with status := .enabled }

/-- `delete m web` deletes member 0. -/
theorem member_deleted_by_name :
    ¬ ActsOnNamed .delete [109] [119, 101, 98] oneMember AdminTool.initial := by
  intro h
  have hnone : setSubject [109] [119, 101, 98] false oneMember AdminTool.initial
      = (AdminTool.initial.setSubjects [0], some [0]) := rfl
  have hnames := (h.subjects [0] (congrArg Prod.snd hnone) 0).mp List.mem_cons_self
  rcases hnames with ⟨hmulti, -⟩ | ⟨kind, i, -, hs, -⟩
  · cases hmulti
  · rw [spelled, if_neg (by decide)] at hs
    cases hs

end OctopusLB
