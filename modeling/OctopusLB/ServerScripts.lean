/-
# Servers typed at the prompt

The same servers again, as the lines that create them at the prompt of the admin tool
(`serverScript`): `create`, which leaves the server disabled and with the default limits,
then `maxc` and `maxl`, and `enable` and `standby` where the server has it so.

`serverScript_run`: after these lines the tables hold exactly these servers, as after the
file with their sections.
-/
import OctopusLB.AdminPrompt
import OctopusLB.AdminTargets
import OctopusLB.ServerFiles

namespace OctopusLB

open Balancer CString TextLines

variable {L : Type} {build : Build L}

/-! ## Words -/

/-- A word of a line. -/
def IsWord (w : List UInt8) : Prop := w ≠ [] ∧ ∀ b ∈ w, b ≠ 0 ∧ b ≠ 32

instance (w : List UInt8) : Decidable (IsWord w) :=
  @instDecidableAnd _ _ inferInstance (List.decidableBAll (fun b => b ≠ 0 ∧ b ≠ 32) w)

theorem isWord_of_plain {w : List UInt8} (hne : w ≠ []) (h : PlainText w) : IsWord w := by
  refine ⟨hne, fun b hb => ⟨(h b hb).1, ?_⟩⟩
  rintro rfl
  exact absurd (h 32 hb).2.2 (by decide)

/-- Words with a blank behind each, and the last with a newline. -/
def spell (front : List (List UInt8)) (last : List UInt8) : List UInt8 :=
  front.flatMap (fun w => w ++ [32]) ++ (last ++ [10])

theorem spell_cons (w : List UInt8) (front : List (List UInt8)) (last : List UInt8) :
    spell (w :: front) last = w ++ 32 :: spell front last := by
  simp [spell]

/-- The next word of a line, with a blank behind it. -/
theorem nextToken_word {w : List UInt8} (hw : IsWord w) (rest : List UInt8) :
    nextToken (· = 32) (w ++ 32 :: rest) = some (w, rest) := by
  obtain ⟨c, cs, rfl⟩ := List.exists_cons_of_ne_nil hw.1
  have hc : ¬ decide (c = 32) = true := by
    simpa using (hw.2 c List.mem_cons_self).2
  have hall : ∀ b ∈ c :: cs, (!decide (b = 32)) = true := by
    intro b hb
    simpa using (hw.2 b hb).2
  have hskip : (c :: cs ++ 32 :: rest).dropWhile (· = 32) = c :: cs ++ 32 :: rest :=
    List.dropWhile_cons_of_neg hc
  rw [nextToken_of_not, hskip, List.takeWhile_append_of_pos hall,
    List.dropWhile_append_of_pos hall]
  · simp
  · exact fun hblank => hc (hblank c List.mem_cons_self)

/-- The last word has the newline. -/
theorem nextToken_last {w : List UInt8} (hw : IsWord w) :
    nextToken (· = 32) (w ++ [10]) = some (w ++ [10], []) := by
  have hall : ∀ b ∈ w ++ [10], (!decide (b = 32)) = true := by
    intro b hb
    rcases List.mem_append.mp hb with hb | hb
    · simpa using (hw.2 b hb).2
    · rw [List.mem_singleton.mp hb]
      decide
  obtain ⟨c, cs, hcs⟩ := List.exists_cons_of_ne_nil hw.1
  have hc : ¬ decide (c = 32) = true := by
    simpa using (hw.2 c (hcs ▸ List.mem_cons_self)).2
  have hskip : (w ++ [10]).dropWhile (· = 32) = w ++ [10] := by
    rw [hcs]
    exact List.dropWhile_cons_of_neg hc
  rw [nextToken_of_not, hskip, List.takeWhile_eq_self_iff.mpr hall,
    List.dropWhile_eq_nil_iff.mpr hall]
  · rfl
  · intro hblank
    exact hc (hblank c (by rw [hcs]; simp))

theorem words_nil (k : ℕ) : words k [] = [] := by
  cases k <;> rfl

theorem words_spell {front : List (List UInt8)} {last : List UInt8}
    (hfront : ∀ w ∈ front, IsWord w) (hlast : IsWord last) {k : ℕ} (hk : front.length < k) :
    words k (spell front last) = front ++ [last ++ [10]] := by
  induction front generalizing k with
  | nil =>
      obtain ⟨k, rfl⟩ : ∃ j, k = j + 1 := ⟨k - 1, by omega⟩
      show words (k + 1) (last ++ [10]) = _
      rw [words, nextToken_last hlast]
      show (last ++ [10]) :: words k [] = _
      rw [words_nil]
      rfl
  | cons w front ih =>
      obtain ⟨k, rfl⟩ : ∃ j, k = j + 1 := ⟨k - 1, by omega⟩
      rw [List.forall_mem_cons] at hfront
      rw [spell_cons, words, nextToken_word hfront.1]
      exact congrArg (w :: ·) (ih hfront.2 (by simpa using hk))

/-- The line is a string. -/
theorem cstr_spell {front : List (List UInt8)} {last : List UInt8}
    (hfront : ∀ w ∈ front, IsWord w) (hlast : IsWord last) :
    cstr (spell front last) = spell front last := by
  unfold cstr
  rw [List.takeWhile_eq_self_iff]
  intro b hb
  have hne : b ≠ 0 := by
    simp only [spell, List.mem_append, List.mem_flatMap, List.mem_singleton] at hb
    rcases hb with ⟨w, hw, hb | rfl⟩ | hb | rfl
    · exact ((hfront w hw).2 b hb).1
    · decide
    · exact (hlast.2 b hb).1
    · decide
  exact decide_eq_true hne

/-! ## One command -/

/-- The admin tool is not in read-only mode, and the server runs. -/
structure Prompt.Open (p : Prompt L) : Prop where
  alive : p.shared.alive = 1
  writable : p.tool.readonly = false

section Lines

variable [IntCast L] {env : Surroundings L} {p : Prompt L}

omit [IntCast L] in
/-- Only a verb of the last kind has such a command. -/
theorem serverCommand_eq_none {malloc : Bool} {verb : Verb} {args : List (List UInt8)}
    (h : verb ∈ [Verb.scanForInstances, .overview, .help, .examples, .info, .leave,
      .extendedOutput, .kill, .snmp]) : serverCommand build malloc verb args = none := by
  simp only [List.mem_cons, List.not_mem_nil, or_false] at h
  rcases h with rfl | rfl | rfl | rfl | rfl | rfl | rfl | rfl | rfl <;> rfl

theorem runVerb_server {verb : Verb} {args : List (List UInt8)} {cmd : Command L}
    (hsetting : settingCommand (L := L) verb = none)
    (hcmd : serverCommand build env.malloc verb args = some cmd) :
    runVerb build env verb args p = runOnBalancer cmd p := by
  have hno : ∀ v ∈ [Verb.scanForInstances, .overview, .help, .examples, .info, .leave,
      .extendedOutput, .kill, .snmp], verb ≠ v := by
    rintro v hv rfl
    rw [serverCommand_eq_none hv] at hcmd
    cases hcmd
  unfold runVerb
  split
  · exact absurd rfl (hno _ (by decide))
  · exact absurd rfl (hno _ (by decide))
  · exact absurd rfl (hno _ (by decide))
  · exact absurd rfl (hno _ (by decide))
  · exact absurd rfl (hno _ (by decide))
  · exact absurd rfl (hno _ (by decide))
  · exact absurd rfl (hno _ (by decide))
  · exact absurd rfl (hno _ (by decide))
  · exact absurd rfl (hno _ (by decide))
  · rw [hsetting, hcmd]

omit [IntCast L] in
/-- An operation on servers creates none. -/
theorem ServerOp.creation_command (op : ServerOp L) (type id : List UInt8) (b : Balancer L)
    (t : AdminTool) : (op.command type id).creation b t = none := by
  cases op <;> rfl

/-- **A line with a command on the servers** runs it. -/
theorem step_spell (hp : p.Open) {verb : Verb} {word : List UInt8} {args : List (List UInt8)}
    {last : List UInt8} (hword : IsWord word) (hargs : ∀ w ∈ args, IsWord w)
    (hlast : IsWord last) (hfew : args.length ≤ 3)
    (hlength : (spell (word :: args) last).length < 127) (hverb : verbOf word = some verb)
    {cmd : Command L} (hsetting : settingCommand (L := L) verb = none)
    (hcmd : serverCommand build env.malloc verb (args ++ [last ++ [10]]) = some cmd)
    (hroom : ¬ Overruns p.shared.balancer (cmd.creation p.shared.balancer p.tool))
    {t : AdminTool} {b : Balancer L}
    (hrun : runCommand cmd p.shared.balancer p.tool = some (t, b)) :
    (promptMachine build).step p (env, spell (word :: args) last) =
      some { p with tool := t, shared := { p.shared with balancer := b } } := by
  have hfront : ∀ w ∈ word :: args, IsWord w := List.forall_mem_cons.mpr ⟨hword, hargs⟩
  have hwords : lineWords (spell (word :: args) last) = word :: (args ++ [last ++ [10]]) := by
    unfold lineWords
    rw [cstr_spell hfront hlast]
    exact words_spell hfront hlast (by rw [List.length_cons]; omega)
  have hne : word ≠ [10] := by
    rintro rfl
    have hnone : verbOf [10] = none := by decide
    rw [hnone] at hverb
    cases hverb
  have hprompt : commandPrompt build env (spell (word :: args) last) p =
      .next { p with tool := t, shared := { p.shared with balancer := b } } := by
    unfold commandPrompt
    rw [if_neg (not_not_intro hp.alive), cstr_spell hfront hlast,
      if_neg (by unfold adminMaxInput; omega), hwords]
    dsimp only
    rw [if_neg hne, hverb]
    dsimp only
    rw [runVerb_server hsetting hcmd]
    unfold runOnBalancer
    rw [if_neg hroom, hrun]
  show (if (commandPrompt build env _ p).ending = none then
    some (commandPrompt build env _ p).prompt else none) = _
  rw [hprompt]
  rfl

end Lines

/-! ## One server of the table -/

/-- What an operation makes of the settings. -/
def ServerOp.editSettings : ServerOp L → ServerSettings L → ServerSettings L
  | standby => fun x => { x with standbyState := !x.standbyState }
  | delete => fun x => { x with status := .deleted }
  | maxl value => fun x => { x with maxl := value }
  | maxc value => fun x => { x with maxc := value }
  | enable => fun x => if x.status = .disabled then { x with status := .enabled } else x
  | disable => fun x =>
      if x.status = .enabled ∨ x.status = .failed then { x with status := .disabled } else x
  | reset => id

theorem ServerOp.settings_edit (op : ServerOp L) (s : Server L) :
    (op.edit s).settings = op.editSettings s.settings := by
  cases op with
  | enable =>
      show (enableServer s).settings = if s.status = .disabled then _ else _
      unfold enableServer
      split_ifs
      · rfl
      · rfl
  | disable =>
      show (disableServer s).settings = if s.status = .enabled ∨ s.status = .failed then _ else _
      unfold disableServer
      split_ifs
      · rfl
      · rfl
  | _ => rfl

/-- **The command for the server of a number** edits it and no other one. -/
theorem runCommand_numbered [IntCast L] (op : ServerOp L) {type id : List UInt8}
    {kind : ServerKind} {i : ℕ} {b : Balancer L} {t : AdminTool} (hro : t.readonly = false)
    (htype : typeKind type = some kind) (hid : startsWith 97 id = false)
    (hnumber : strtol id = some (i : ℤ)) (hi : i < b.count kind)
    (hlive : (b.table kind i).Live) :
    ∃ t' b', runCommand (op.command type id) b t = some (t', b') ∧ t'.readonly = false ∧
      b'.count = b.count ∧
      ∀ p, b'.servers p = if p = slot kind i then op.edit (b.servers p) else b.servers p := by
  have hnamed : namedSlot kind i b = some (slot kind i) :=
    namedSlot_eq_some.mpr ⟨i, rfl, hi, rfl, hlive⟩
  have hsubject : ∀ multi, setSubject type id multi b t =
      (t.setSubjects [slot kind i], some [slot kind i]) := by
    intro multi
    rw [setSubject_number (by rw [hro]; decide) (by rw [hid]; decide) hnumber, htype]
    show t.setNamed (namedSlot kind i b) = _
    rw [hnamed]
    rfl
  have hone : ∀ edit : Server L → Server L, ∀ p, (b.modifyServer (slot kind i) edit).servers p =
      if p = slot kind i then edit (b.servers p) else b.servers p :=
    fun edit p => servers_modifyServer b _ _ _
  have hsingle : ∀ edit : Server L → Server L, cmdSingle edit type id b t =
      some (t.setSubjects [slot kind i], b.modifyServer (slot kind i) edit) := by
    intro edit
    unfold cmdSingle
    rw [hsubject]
    rfl
  have hcloned : ∀ edit : Server L → Server L,
      (setClonedState (b.modifyServer (slot kind i) edit)).count = b.count ∧
        ∀ p, (setClonedState (b.modifyServer (slot kind i) edit)).servers p =
          if p = slot kind i then edit (b.servers p) else b.servers p := by
    intro edit
    obtain ⟨mode, heq⟩ := setClonedState_eq (b.modifyServer (slot kind i) edit)
    rw [heq]
    refine ⟨?_, hone edit⟩
    funext kind'
    cases kind' <;> rfl
  have hmodified : ∀ edit : Server L → Server L,
      (b.modifyServer (slot kind i) edit).count = b.count :=
    fun edit => count_modifyServer b _ edit
  cases op with
  | standby => exact ⟨_, _, hsingle _, hro, hmodified _, hone _⟩
  | delete => exact ⟨_, _, hsingle _, hro, hmodified _, hone _⟩
  | maxl value => exact ⟨_, _, hsingle _, hro, hmodified _, hone _⟩
  | maxc value => exact ⟨_, _, hsingle _, hro, hmodified _, hone _⟩
  | enable =>
      refine ⟨t.setSubjects [slot kind i],
        setClonedState (b.modifyServer (slot kind i) enableServer), ?_, hro, hcloned enableServer⟩
      show some (cmdEnable type id b t) = _
      unfold cmdEnable
      rw [hsubject]
      rfl
  | disable =>
      refine ⟨t.setSubjects [slot kind i],
        setClonedState (b.modifyServer (slot kind i) disableServer), ?_, hro,
        hcloned disableServer⟩
      show some (cmdDisable type id b t) = _
      unfold cmdDisable
      rw [hsubject]
      rfl
  | reset =>
      refine ⟨t.setSubjects [slot kind i], b.modifyServer (slot kind i) resetServer, ?_, hro,
        hmodified _, hone _⟩
      show cmdReset type id b t = _
      unfold cmdReset
      rw [hsubject]
      exact if_pos (Or.inr (Option.some_ne_none _))

/-- The listing after it. -/
theorem listing_edit {op : ServerOp L} {kind : ServerKind} {i : ℕ} {b b' : Balancer L}
    (hlt : i < maxServers) (hle : ∀ kind, b.count kind ≤ maxServers)
    (hcount : b'.count = b.count)
    (hservers : ∀ p, b'.servers p = if p = slot kind i then op.edit (b.servers p)
      else b.servers p) (kind' : ServerKind) :
    b'.listing kind' =
      if kind = kind' then (b.listing kind).modify i op.editSettings else b.listing kind' := by
  have hsettings : ∀ j < b.count kind', (b'.table kind' j).settings =
      if kind = kind' ∧ i = j then op.editSettings (b.table kind' j).settings
      else (b.table kind' j).settings := by
    intro j hj
    have hj' : j < maxServers := Nat.lt_of_lt_of_le hj (hle kind')
    unfold Balancer.table
    rw [hservers, ← op.settings_edit]
    by_cases hslot : slot kind' j = slot kind i
    · obtain ⟨rfl, rfl⟩ := slot_inj hj' hlt hslot
      rw [if_pos rfl, if_pos ⟨rfl, rfl⟩]
    · rw [if_neg hslot, if_neg]
      rintro ⟨rfl, rfl⟩
      exact hslot rfl
  unfold Balancer.listing
  rw [hcount]
  by_cases hkind : kind = kind'
  · subst hkind
    rw [if_pos rfl]
    refine List.ext_getElem (by simp) fun j hj _ => ?_
    have hj' : j < b.count kind := by simpa using hj
    rw [List.getElem_modify]
    simp only [List.getElem_map, List.getElem_range]
    rw [hsettings j hj']
    simp
  · rw [if_neg hkind]
    refine List.map_congr_left fun j hj => ?_
    rw [hsettings j (List.mem_range.mp hj), if_neg fun h => hkind h.1]

/-! ## The lines of a server -/

namespace ServerEntry

variable (e : ServerEntry build)

/-- The first letter of its kind. -/
def typeWord : List UInt8 := ascii (if e.kind = .clone then "c" else "m")

/-- The lines that create it, if it gets the number `i`. -/
def script (i : ℕ) : List (List UInt8) :=
  [spell [ascii "create", e.typeWord, e.name, dotted e.ip] (decimal e.port),
    spell [ascii "maxc", e.typeWord, decimal i] (decimal e.maxc),
    spell [ascii "maxl", e.typeWord, decimal i] e.maxl] ++
    (if e.enabled then [spell [ascii "enable", e.typeWord] (decimal i)] else []) ++
    (if e.standby then [spell [ascii "standby", e.typeWord] (decimal i)] else [])

/-- Its load limit fits in a line. -/
def Typable : Prop := e.maxl ≠ [] ∧ e.maxl.length ≤ 100

instance : Decidable e.Typable := inferInstanceAs (Decidable (_ ∧ _))

theorem isWord_typeWord : IsWord e.typeWord := by
  show IsWord (ascii (if e.kind = .clone then "c" else "m"))
  cases e.kind <;> decide

theorem typeKind_typeWord : typeKind e.typeWord = some e.kind := by
  show typeKind (ascii (if e.kind = .clone then "c" else "m")) = _
  cases e.kind <;> decide

theorem length_typeWord : e.typeWord.length = 1 := by
  show (ascii (if e.kind = .clone then "c" else "m")).length = 1
  cases e.kind <;> decide

theorem isWord_name : IsWord e.name := isWord_of_plain e.isName.1 e.isName.2

theorem isWord_ip : IsWord (dotted e.ip) :=
  isWord_of_plain (by simp [dotted]) (e.plain_value .ip)

end ServerEntry

theorem isWord_decimal (n : ℕ) : IsWord (decimal n) :=
  isWord_of_plain (decimal_ne_nil n) fun b hb => plain_of_isDigit (isDigit_of_mem_decimal b hb)

theorem startsWith_decimal (n : ℕ) (rest : List UInt8) :
    startsWith 97 (decimal n ++ rest) = false := by
  obtain ⟨b, bs, hb, hdigit⟩ := exists_decimal n
  rw [hb]
  refine decide_eq_false fun heq => ?_
  obtain rfl : b = 97 := Option.some.inj heq
  exact absurd hdigit (by decide)

theorem length_decimal_le_three {n : ℕ} (h : n < maxServers) : (decimal n).length ≤ 3 :=
  length_decimal_le (by decide) (Nat.lt_trans h (by decide))

/-! ## The tables after a line -/

theorem modify_concat {α : Type*} (xs : List α) (x : α) (f : α → α) :
    (xs ++ [x]).modify xs.length f = xs ++ [f x] := by
  induction xs with
  | nil => rfl
  | cons y xs ih =>
      rw [List.cons_append, List.length_cons, List.modify_succ_cons, ih, List.cons_append]

/-- The tables hold these servers, and one more. -/
def withLast (entries : List (ServerEntry build)) (kind : ServerKind) (x : ServerSettings L)
    (kind' : ServerKind) : List (ServerSettings L) :=
  (ofKind kind' entries).map ServerEntry.settings ++ if kind = kind' then [x] else []

/-- What the tool is attached to has these tables. -/
structure Prompt.Shows (p : Prompt L) (tables : ServerKind → List (ServerSettings L)) : Prop
    extends p.Open where
  listing : ∀ kind, p.shared.balancer.listing kind = tables kind

/-- A server that has just been created at the prompt. -/
def ServerEntry.created (e : ServerEntry build) (b : Balancer L) : ServerSettings L :=
  { e.settings with
    status := .disabled
    standbyState := false
    maxc := b.defaultMaxc
    maxl := b.defaultMaxl }

section Script

variable [IntCast L] {env : Surroundings L} {p : Prompt L} {entries : List (ServerEntry build)}
  {e : ServerEntry build}

/-- **The first line** creates the server. -/
theorem step_create (hmalloc : env.malloc = true) (hp : p.Open)
    (h : p.shared.balancer.Lists entries)
    (hroom : ∀ kind, (ofKind kind (entries ++ [e])).length ≤ maxServers) :
    ∃ q, (promptMachine build).step p
        (env, spell [ascii "create", e.typeWord, e.name, dotted e.ip] (decimal e.port)) = some q ∧
      q.Shows (withLast entries e.kind (e.created p.shared.balancer)) := by
  have hname := e.nameFits
  have hip := length_dotted_le e.ip
  have hport := e.isPort
  have hdigits : (decimal e.port).length ≤ 5 := length_decimal_le (by decide) (by omega)
  have htype := e.length_typeWord
  have hmax : serverNameMaxLength = 16 := rfl
  have haddress : addressArg (dotted e.ip) = some e.ip := by
    unfold addressArg
    rw [if_neg (by omega), inetAton_dotted]
  have hnumber : atoi (decimal e.port ++ [10]) = e.port :=
    toInt_decimal (by omega) (show EndsNumber [10] from rfl)
  have hcmd : serverCommand build env.malloc .create
      ([e.typeWord, e.name, dotted e.ip] ++ [decimal e.port ++ [10]]) =
        some (.create e.typeWord e.name (some e.ip) e.port true) := by
    show some (Command.create e.typeWord e.name (addressArg (dotted e.ip))
      (atoi (decimal e.port ++ [10])) env.malloc) = _
    rw [haddress, hnumber, hmalloc]
  have hrun : runCommand (.create e.typeWord e.name (some e.ip) e.port true) p.shared.balancer
      p.tool = some (p.tool, (createBalancerServer true e.kind
        (createRequest e.name e.ip e.port p.shared.balancer) p.shared.balancer).1) := by
    show some (cmdCreate _ _ _ _ _ _ _) = _
    unfold cmdCreate parseCreate
    rw [if_neg (by rw [hp.writable]; decide), e.typeKind_typeWord]
    dsimp only
    rw [if_pos (by omega)]
  obtain ⟨hlt, hle⟩ := h.room hroom
  obtain ⟨-, hlisting⟩ := listing_create
    (r := createRequest e.name e.ip e.port p.shared.balancer) e.isPort_port
    (h.not_free e.kind) hlt hle
  have hwithin : ¬ Overruns p.shared.balancer
      ((Command.create e.typeWord e.name (some e.ip) e.port true).creation p.shared.balancer
        p.tool) := by
    show ¬ Overruns p.shared.balancer (if p.tool.readonly then none else Option.map _
      (parseCreate _ _ _ _ _))
    unfold parseCreate
    rw [if_neg (by rw [hp.writable]; decide), e.typeKind_typeWord]
    dsimp only
    rw [if_pos (by omega)]
    exact not_overruns_of_count_lt hlt _ _
  have hargs : ∀ w ∈ [e.typeWord, e.name, dotted e.ip], IsWord w := by
    simpa using ⟨e.isWord_typeWord, e.isWord_name, e.isWord_ip⟩
  have hlength : (spell [ascii "create", e.typeWord, e.name, dotted e.ip]
      (decimal e.port)).length < 127 := by
    have hcreate : (ascii "create").length = 6 := rfl
    simp only [spell, List.flatMap_cons, List.flatMap_nil, List.length_append, List.length_cons,
      List.length_nil]
    omega
  have hverb : verbOf (ascii "create") = some .create := by decide
  refine ⟨_, step_spell hp (by decide) hargs (isWord_decimal _) (Nat.le_refl 3)
    hlength hverb rfl hcmd hwithin hrun, ⟨hp.alive, hp.writable⟩, fun kind => ?_⟩
  have hsettings : ({ (createRequest e.name e.ip e.port p.shared.balancer).record with
      id := p.shared.balancer.count e.kind } : Server L).settings =
        e.created p.shared.balancer := by
    have hfield := e.fieldString_name
    have htcp := e.tcpPort_port
    unfold Server.settings ServerEntry.created ServerEntry.settings
    congr 1
  show (createBalancerServer true e.kind _ p.shared.balancer).1.listing kind = _
  rw [hlisting kind, h kind, hsettings]
  rfl

/-- **Any other line** edits it. -/
theorem step_edit {kind : ServerKind} {x : ServerSettings L} {op : ServerOp L} {verb : Verb}
    {word type id last : List UInt8} {args : List (List UInt8)}
    (hp : p.Shows (withLast entries kind x)) (hlive : x.status ≠ .free ∧ x.status ≠ .deleted)
    (hroom : ∀ kind', (withLast entries kind x kind').length ≤ maxServers)
    (hword : IsWord word) (hargs : ∀ w ∈ args, IsWord w) (hlast : IsWord last)
    (hfew : args.length ≤ 3) (hlength : (spell (word :: args) last).length < 127)
    (hverb : verbOf word = some verb) (hsetting : settingCommand (L := L) verb = none)
    (hcmd : serverCommand build env.malloc verb (args ++ [last ++ [10]]) =
      some (op.command type id))
    (htype : typeKind type = some kind) (hid : startsWith 97 id = false)
    (hnumber : strtol id = some ((ofKind kind entries).length : ℤ)) :
    ∃ q, (promptMachine build).step p (env, spell (word :: args) last) = some q ∧
      q.Shows (withLast entries kind (op.editSettings x)) := by
  have hcount : ∀ kind', p.shared.balancer.count kind' =
      (withLast entries kind x kind').length := by
    intro kind'
    have hlength := congrArg List.length (hp.listing kind')
    simpa [Balancer.listing] using hlength
  have hle : ∀ kind', p.shared.balancer.count kind' ≤ maxServers :=
    fun kind' => hcount kind' ▸ hroom kind'
  have hlast' : withLast entries kind x kind =
      (ofKind kind entries).map ServerEntry.settings ++ [x] := by
    unfold withLast
    rw [if_pos rfl]
  have hlt : (ofKind kind entries).length < p.shared.balancer.count kind := by
    rw [hcount, hlast']
    simp
  have hx : (p.shared.balancer.table kind (ofKind kind entries).length).settings = x := by
    have hget : (p.shared.balancer.listing kind)[(ofKind kind entries).length]? = some x := by
      rw [hp.listing, hlast']
      simp
    simpa [Balancer.listing, hlt] using hget
  obtain ⟨t, b, hrun, hro, hsame, hservers⟩ := runCommand_numbered op hp.writable htype hid hnumber
    hlt (by
      have hstatus : (p.shared.balancer.table kind (ofKind kind entries).length).status =
        x.status := congrArg ServerSettings.status hx
      unfold Server.Live
      rw [hstatus]
      exact hlive)
  refine ⟨_, step_spell hp.toOpen hword hargs hlast hfew hlength hverb hsetting hcmd
    (op.creation_command type id p.shared.balancer p.tool ▸ not_overruns_none _) hrun,
    ⟨hp.alive, hro⟩, fun kind' => ?_⟩
  show b.listing kind' = _
  rw [listing_edit (Nat.lt_of_lt_of_le hlt (hle kind)) hle hsame hservers kind', hp.listing,
    hp.listing, hlast']
  unfold withLast
  split_ifs with hkind
  · subst hkind
    have hmodify := modify_concat ((ofKind kind entries).map ServerEntry.settings) x
      op.editSettings
    rw [List.length_map] at hmodify
    exact hmodify
  · rfl

omit [IntCast L] in
/-- The number of the server fits. -/
theorem number_lt (hroom : ∀ kind, (ofKind kind (entries ++ [e])).length ≤ maxServers) :
    (ofKind e.kind entries).length < maxServers := by
  have hle := hroom e.kind
  rw [ofKind_concat, if_pos rfl, List.length_append] at hle
  exact hle

omit [IntCast L] in
theorem length_withLast (hroom : ∀ kind, (ofKind kind (entries ++ [e])).length ≤ maxServers)
    (x : ServerSettings L) (kind : ServerKind) :
    (withLast entries e.kind x kind).length ≤ maxServers := by
  have hle := hroom kind
  rw [ofKind_concat, List.length_append] at hle
  unfold withLast
  rw [List.length_append, List.length_map]
  split_ifs at hle ⊢
  · exact hle
  · exact hle

/-- A command for the server that has been created, with a value behind its number. -/
theorem step_value (env : Surroundings L) (op : ServerOp L) (verb : Verb) (word : List UInt8)
    {last : List UInt8} {x : ServerSettings L}
    (hp : p.Shows (withLast entries e.kind x)) (hlive : x.status ≠ .free ∧ x.status ≠ .deleted)
    (hroom : ∀ kind, (ofKind kind (entries ++ [e])).length ≤ maxServers)
    (hword : IsWord word) (hshort : word.length ≤ 7) (hlast : IsWord last)
    (hlength : last.length ≤ 100) (hverb : verbOf word = some verb)
    (hsetting : settingCommand (L := L) verb = none)
    (hcmd : serverCommand build env.malloc verb
      [e.typeWord, decimal (ofKind e.kind entries).length, last ++ [10]] =
        some (op.command e.typeWord (decimal (ofKind e.kind entries).length))) :
    ∃ q, (promptMachine build).step p
        (env, spell [word, e.typeWord, decimal (ofKind e.kind entries).length] last) = some q ∧
      q.Shows (withLast entries e.kind (op.editSettings x)) := by
  have hlt := number_lt hroom
  have hdigits := length_decimal_le_three hlt
  have hletter := e.length_typeWord
  have hid := startsWith_decimal (ofKind e.kind entries).length []
  have hnumber := strtol_decimal (n := (ofKind e.kind entries).length)
    (Nat.lt_trans hlt (by decide)) (show EndsNumber [] from rfl)
  rw [List.append_nil] at hid hnumber
  refine step_edit hp hlive (length_withLast hroom x) hword ?_ hlast (Nat.le_succ 2) ?_ hverb
    hsetting hcmd e.typeKind_typeWord hid hnumber
  · simpa using ⟨e.isWord_typeWord, isWord_decimal _⟩
  · simp only [spell, List.flatMap_cons, List.flatMap_nil, List.length_append, List.length_cons,
      List.length_nil]
    omega

/-- A command for it without a value. -/
theorem step_last (env : Surroundings L) (op : ServerOp L) (verb : Verb) (word : List UInt8)
    {x : ServerSettings L}
    (hp : p.Shows (withLast entries e.kind x)) (hlive : x.status ≠ .free ∧ x.status ≠ .deleted)
    (hroom : ∀ kind, (ofKind kind (entries ++ [e])).length ≤ maxServers)
    (hword : IsWord word) (hshort : word.length ≤ 7) (hverb : verbOf word = some verb)
    (hsetting : settingCommand (L := L) verb = none)
    (hcmd : serverCommand build env.malloc verb
      [e.typeWord, decimal (ofKind e.kind entries).length ++ [10]] =
        some (op.command e.typeWord (decimal (ofKind e.kind entries).length ++ [10]))) :
    ∃ q, (promptMachine build).step p
        (env, spell [word, e.typeWord] (decimal (ofKind e.kind entries).length)) = some q ∧
      q.Shows (withLast entries e.kind (op.editSettings x)) := by
  have hlt := number_lt hroom
  have hdigits := length_decimal_le_three hlt
  have hletter := e.length_typeWord
  have hnumber := strtol_decimal (n := (ofKind e.kind entries).length)
    (Nat.lt_trans hlt (by decide)) (show EndsNumber [10] from rfl)
  refine step_edit hp hlive (length_withLast hroom x) hword ?_ (isWord_decimal _)
    (Nat.le_add_left 1 2) ?_ hverb hsetting hcmd e.typeKind_typeWord (startsWith_decimal _ _)
    hnumber
  · simpa using e.isWord_typeWord
  · simp only [spell, List.flatMap_cons, List.flatMap_nil, List.length_append, List.length_cons,
      List.length_nil]
    omega

/-- A line that is there only if it is needed. -/
theorem run_if {c : Bool} {line : List UInt8}
    {tables tables' : ServerKind → List (ServerSettings L)}
    (hp : p.Shows tables)
    (htrue : c = true → ∃ q, (promptMachine build).step p (env, line) = some q ∧ q.Shows tables')
    (hfalse : c = false → tables' = tables) :
    ∃ q, (promptMachine build).run p
        ((if c then [line] else []).map fun line => (env, line)) = some q ∧ q.Shows tables' := by
  cases c with
  | true =>
      obtain ⟨q, hq, hshows⟩ := htrue rfl
      exact ⟨q, Machine.run_cons_of_step _ hq [], hshows⟩
  | false =>
      rw [hfalse rfl]
      exact ⟨p, rfl, hp⟩

/-- **The lines of a server.** -/
theorem run_script (hmalloc : env.malloc = true)
    (hatof : ∀ v, build.atof (v ++ [10]) = build.atof v) (htyped : e.Typable) (hp : p.Open)
    (h : p.shared.balancer.Lists entries)
    (hroom : ∀ kind, (ofKind kind (entries ++ [e])).length ≤ maxServers) :
    ∃ q, (promptMachine build).run p
        ((e.script (ofKind e.kind entries).length).map fun line => (env, line)) = some q ∧
      q.Open ∧ q.shared.balancer.Lists (entries ++ [e]) := by
  have hmaxc : atoi (decimal e.maxc ++ [10]) = e.maxc :=
    toInt_decimal e.maxcFits (show EndsNumber [10] from rfl)
  have hdigits : (decimal e.maxc).length ≤ 10 :=
    length_decimal_le (by decide) (Nat.lt_trans e.maxcFits (by decide))
  have hdisabled : ServerStatus.disabled ≠ .free ∧ ServerStatus.disabled ≠ .deleted := by decide
  obtain ⟨p1, hstep1, hshows1⟩ := step_create hmalloc hp h hroom
  obtain ⟨p2, hstep2, hshows2⟩ := step_value env (.maxc e.maxc) .maxc (ascii "maxc") hshows1
    hdisabled hroom (by decide) (by decide) (isWord_decimal e.maxc) (by omega)
    (by decide) rfl
    (congrArg (fun v => some (Command.maxc e.typeWord _ v)) hmaxc)
  obtain ⟨p3, hstep3, hshows3⟩ := step_value env (.maxl (build.atof e.maxl)) .maxl
    (ascii "maxl") hshows2 hdisabled hroom (by decide) (by decide)
    (isWord_of_plain htyped.1 e.maxlPlain) htyped.2 (by decide) rfl
    (congrArg (fun v => some (Command.maxl e.typeWord _ v)) (hatof e.maxl))
  -- the limits are those of the server, and it is disabled
  have hlimits : (ServerOp.maxl (build.atof e.maxl)).editSettings
      ((ServerOp.maxc e.maxc).editSettings (e.created p.shared.balancer)) =
        { e.settings with status := .disabled, standbyState := false } := rfl
  rw [hlimits] at hshows3
  have henabled : ∃ q, (promptMachine build).run p3 ((if e.enabled then
      [spell [ascii "enable", e.typeWord] (decimal (ofKind e.kind entries).length)]
        else []).map fun line => (env, line)) = some q ∧
      q.Shows (withLast entries e.kind { e.settings with standbyState := false }) := by
    refine run_if hshows3 (fun hon => ?_) fun hoff => ?_
    · obtain ⟨q, hq, hshows⟩ := step_last env .enable .enable (ascii "enable") hshows3 hdisabled
        hroom (by decide) (by decide) (by decide) rfl rfl
      refine ⟨q, hq, ?_⟩
      have hedit : ServerOp.enable.editSettings
          { e.settings with status := .disabled, standbyState := false } =
            { e.settings with standbyState := false } := by
        simp [ServerOp.editSettings, ServerEntry.settings, hon]
      rwa [hedit] at hshows
    · simp [ServerEntry.settings, hoff]
  obtain ⟨p4, hrun4, hshows4⟩ := henabled
  have hlive : e.settings.status ≠ .free ∧ e.settings.status ≠ .deleted := by
    show (if e.enabled then ServerStatus.enabled else .disabled) ≠ .free ∧
      (if e.enabled then ServerStatus.enabled else .disabled) ≠ .deleted
    cases e.enabled <;> decide
  have hstandby : ∃ q, (promptMachine build).run p4 ((if e.standby then
      [spell [ascii "standby", e.typeWord] (decimal (ofKind e.kind entries).length)]
        else []).map fun line => (env, line)) = some q ∧
      q.Shows (withLast entries e.kind e.settings) := by
    refine run_if hshows4 (fun hon => ?_) fun hoff => ?_
    · obtain ⟨q, hq, hshows⟩ := step_last env .standby .standby (ascii "standby") hshows4 hlive
        hroom (by decide) (by decide) (by decide) rfl rfl
      refine ⟨q, hq, ?_⟩
      have hedit : (ServerOp.standby : ServerOp L).editSettings
          { e.settings with standbyState := false } = e.settings := by
        simp [ServerOp.editSettings, ServerEntry.settings, hon]
      rwa [hedit] at hshows
    · simp [ServerEntry.settings, hoff]
  obtain ⟨q, hrun5, hshows5⟩ := hstandby
  refine ⟨q, ?_, hshows5.toOpen, fun kind => ?_⟩
  · unfold ServerEntry.script
    rw [List.map_append, List.map_append, Machine.run_append, Machine.run_append]
    show ((((promptMachine build).run p [_, _, _]).bind _).bind _) = some q
    rw [Machine.run_cons_of_step _ hstep1, Machine.run_cons_of_step _ hstep2,
      Machine.run_cons_of_step _ hstep3, Machine.run_nil, Option.bind_some, hrun4,
      Option.bind_some, hrun5]
  · rw [hshows5.listing, ofKind_concat, List.map_append]
    unfold withLast
    split_ifs
    · rfl
    · rfl

end Script

/-! ## The lines of all servers -/

/-- The lines for the servers after the first ones. -/
def scriptAfter (entries : List (ServerEntry build)) :
    List (ServerEntry build) → List (List UInt8)
  | [] => []
  | e :: rest => e.script (ofKind e.kind entries).length ++ scriptAfter (entries ++ [e]) rest

/-- The lines that create a list of servers. -/
def serverScript (entries : List (ServerEntry build)) : List (List UInt8) :=
  scriptAfter [] entries

theorem run_scriptAfter [IntCast L] {env : Surroundings L} (hmalloc : env.malloc = true)
    (hatof : ∀ v, build.atof (v ++ [10]) = build.atof v) {rest entries : List (ServerEntry build)}
    (htyped : ∀ e ∈ rest, e.Typable) {p : Prompt L} (hp : p.Open)
    (h : p.shared.balancer.Lists entries)
    (hroom : ∀ kind, (ofKind kind (entries ++ rest)).length ≤ maxServers) :
    ∃ q, (promptMachine build).run p ((scriptAfter entries rest).map fun line => (env, line)) =
        some q ∧ q.shared.balancer.Lists (entries ++ rest) := by
  induction rest generalizing entries p with
  | nil =>
      rw [List.append_nil]
      exact ⟨p, rfl, h⟩
  | cons e rest ih =>
      rw [List.append_cons] at hroom ⊢
      rw [List.forall_mem_cons] at htyped
      have hfirst : ∀ kind, (ofKind kind (entries ++ [e])).length ≤ maxServers := by
        intro kind
        refine Nat.le_trans (List.Sublist.length_le ?_) (hroom kind)
        exact (List.sublist_append_left _ _).filter _
      obtain ⟨r, hr, hopen, hlists⟩ := run_script hmalloc hatof htyped.1 hp h hfirst
      obtain ⟨q, hq, hall⟩ := ih htyped.2 hopen hlists hroom
      refine ⟨q, ?_, hall⟩
      rw [scriptAfter, List.map_append, Machine.run_append, hr]
      exact hq

/-- **At the prompt.**  Whatever servers are typed in at a prompt that is not in read-only
mode, at most as many of each kind as the tables have room for: the tables hold exactly
these servers, in their order. -/
theorem serverScript_run [IntCast L] {env : Surroundings L} (hmalloc : env.malloc = true)
    (hatof : ∀ v, build.atof (v ++ [10]) = build.atof v) {p : Prompt L} (hp : p.Open)
    (hmembers : p.shared.balancer.nmembers = 0) (hclones : p.shared.balancer.nclones = 0)
    {entries : List (ServerEntry build)} (htyped : ∀ e ∈ entries, e.Typable)
    (hroom : ∀ kind, (ofKind kind entries).length ≤ maxServers) :
    ∃ q, (promptMachine build).run p ((serverScript entries).map fun line => (env, line)) =
        some q ∧ q.shared.balancer.Lists entries :=
  run_scriptAfter hmalloc hatof htyped hp (lists_nil hmembers hclones) hroom

/-- The two servers of a file, typed in. -/
theorem serverScript_run_pair : ∃ q,
    (promptMachine sampleBuild).run ⟨sampleShared, .initial, false⟩
        ((serverScript [webMember, spareClone]).map fun line => (⟨.none, true, none⟩, line)) =
        some q ∧
      q.shared.balancer.Lists [webMember, spareClone] := by
  have hatof : ∀ v, sampleBuild.atof (v ++ [10]) = sampleBuild.atof v := by
    intro v
    show max _ (min _ (numberValue (v ++ [10]))) = max _ (min _ (numberValue v))
    rw [numberValue_newline]
  refine serverScript_run rfl hatof ⟨rfl, rfl⟩ rfl rfl ?_ fun kind => ?_
  · exact List.forall_mem_cons.mpr ⟨by decide, List.forall_mem_singleton.mpr (by decide)⟩
  · cases kind <;> decide

end OctopusLB
