/-
# Which server sections are independent of the rest of the file

The parser collects a section in variables that it resets at the end of each,
all but the address: a section without an `ip` line gets the address of the
section before it, and the first one whatever the memory held.
`sectionsIndependent_iff`: every server of a file that is accepted depends on
the lines of its own section and the defaults alone, and is found in its table in
the end, exactly if every section has an `ip` line and the members do not reach
into the table of the clones.  The parser is followed from section to section
with `Between`, which all global directives keep (`kept_globalDirectives`), and the
tables from creation to creation (`table_createAll`).
-/
import OctopusLB.ServerSections

namespace OctopusLB

open Balancer CString TextLines

variable {L : Type}

/-! ## Files -/

/-- A line outside of the sections: a directive, a comment, or an empty line. -/
structure GlobalLine where
  text : List UInt8
  directive : List UInt8
  splits : (splitLine text).directive = some directive := by decide
  noBracket : hasPrefix "[" directive = false := by decide

/-- What a file is made of. -/
inductive Item (build : Build L)
  | line (l : GlobalLine)
  | server (sec : SectionText build)

/-- The lines of a part of the file. -/
def Item.lines {build : Build L} : Item build → List (List UInt8)
  | line l => [l.text]
  | server sec => sec.lines

/-- The section, if it is one. -/
def Item.section? {build : Build L} : Item build → Option (SectionText build)
  | line _ => none
  | server sec => some sec

/-- The lines of a file. -/
def linesOf {build : Build L} (items : List (Item build)) : List (List UInt8) :=
  items.flatMap Item.lines

/-- Its sections. -/
def sectionsOf {build : Build L} (items : List (Item build)) : List (SectionText build) :=
  items.filterMap Item.section?

/-- The section has a line with an address. -/
def SectionText.HasIp {build : Build L} (sec : SectionText build) : Prop :=
  ∃ v, (Setting.ip, v) ∈ assignments sec.body

/-- A line says that the server is a clone. -/
def SaysClone (a : Setting × List UInt8) : Bool := a.1 = .clone && hasPrefix "true" a.2

/-- The table that the server of a section belongs to. -/
def SectionText.kind {build : Build L} (sec : SectionText build) : ServerKind :=
  if (assignments sec.body).any SaysClone then .clone else .member

/-- The number of sections of a kind. -/
def countKind {build : Build L} (kind : ServerKind) (items : List (Item build)) : ℕ :=
  (sectionsOf items).countP fun sec => sec.kind = kind

/-! ## Between two sections -/

/-- The variables are those of the start but for the address and the name. -/
def Fresh (p : Parser L) : Prop :=
  p.vars = Parser.freshVars p.shared p.vars.serverIP p.vars.serverName

/-- The parser is not in a section. -/
def Between (p : Parser L) : Prop := p.inServerSection = false ∧ Fresh p

/-- The tables of two balancers are the same. -/
def SameTables (b b' : Balancer L) : Prop :=
  b'.servers = b.servers ∧ b'.nmembers = b.nmembers ∧ b'.nclones = b.nclones

/-- What global directives leave as it is. -/
def Kept (p q : Parser L) : Prop :=
  q.inServerSection = p.inServerSection ∧ SameTables p.shared.balancer q.shared.balancer ∧
    (Fresh p → Fresh q)

theorem SameTables.refl (b : Balancer L) : SameTables b b := ⟨rfl, rfl, rfl⟩

theorem SameTables.trans {b b' b'' : Balancer L} (h : SameTables b b') (h' : SameTables b' b'') :
    SameTables b b'' :=
  ⟨h'.1.trans h.1, h'.2.1.trans h.2.1, h'.2.2.trans h.2.2⟩

theorem Kept.refl (p : Parser L) : Kept p p := ⟨rfl, .refl _, id⟩

theorem Kept.trans {p q r : Parser L} (h : Kept p q) (h' : Kept q r) : Kept p r :=
  ⟨h'.1.trans h.1, h.2.1.trans h'.2.1, h'.2.2 ∘ h.2.2⟩

theorem Kept.between {p q : Parser L} (h : Kept p q) (hp : Between p) : Between q :=
  ⟨h.1.trans hp.1, h.2.2 hp.2⟩

/-- A change of the modes and the weight of sessions. -/
theorem kept_of_tables {p q : Parser L} (hin : q.inServerSection = p.inServerSection)
    (htables : SameTables p.shared.balancer q.shared.balancer) (hvars : q.vars = p.vars)
    (hmaxc : q.shared.balancer.defaultMaxc = p.shared.balancer.defaultMaxc)
    (hmaxl : q.shared.balancer.defaultMaxl = p.shared.balancer.defaultMaxl) : Kept p q := by
  refine ⟨hin, htables, fun hfresh => ?_⟩
  unfold Fresh Parser.freshVars at hfresh ⊢
  rw [hvars, hmaxc, hmaxl]
  exact hfresh

/-- A change of other settings. -/
theorem kept_of_balancer {p q : Parser L} (hin : q.inServerSection = p.inServerSection)
    (hvars : q.vars = p.vars) (hbalancer : q.shared.balancer = p.shared.balancer) : Kept p q :=
  kept_of_tables hin (by rw [hbalancer]; exact .refl _) hvars (by rw [hbalancer])
    (by rw [hbalancer])

theorem kept_logged (p : Parser L) : Kept p p.logged := kept_of_balancer rfl rfl rfl

/-! ## The global directives -/

/-- A directive keeps all that. -/
def Directive.Keeps (d : Directive (Parser L)) : Prop :=
  ∀ v p q, d.apply v p = .ok q → Kept p q

/-- What a global directive leaves. -/
theorem globalDirective_ok {name : String}
    {apply : List UInt8 → Parser L → Except String (Parser L)} {v : List UInt8} {p q : Parser L}
    (h : (globalDirective name apply).apply v p = .ok q) :
    ∃ r, apply v p = .ok r ∧ q = r.logged := by
  have hmap : (apply v p).map Parser.logged = .ok q := h
  cases hr : apply v p with
  | error message =>
      rw [hr] at hmap
      cases hmap
  | ok r =>
      rw [hr] at hmap
      exact ⟨r, rfl, (Except.ok.inj hmap).symm⟩

/-- The same, or nothing in builds without SNMP. -/
theorem snmpDirective_ok {name : String} {build : Build L}
    {apply : List UInt8 → Parser L → Except String (Parser L)} {v : List UInt8} {p q : Parser L}
    (h : (snmpDirective name build apply).apply v p = .ok q) :
    (∃ r, apply v p = .ok r ∧ q = r.logged) ∨ q = { p with errno := false } := by
  have hif : (if build.useSnmp then (apply v p).map Parser.logged
      else .ok { p with errno := false }) = .ok q := h
  split_ifs at hif
  · exact Or.inl (@globalDirective_ok L name apply v p q hif)
  · exact Or.inr (Except.ok.inj hif).symm

/-- An address is stored. -/
theorem addressDirective_ok {name message : String} {set : UInt32 → Shared L → Shared L}
    {v : List UInt8} {p q : Parser L}
    (h : (addressDirective name message set).apply v p = .ok q) :
    ∃ a, q = ({ p with shared := set a p.shared } : Parser L).logged := by
  obtain ⟨r, hr, rfl⟩ := globalDirective_ok h
  cases ha : inetAton v with
  | none =>
      rw [ha] at hr
      cases hr
  | some a =>
      rw [ha] at hr
      exact ⟨a, congrArg Parser.logged (Except.ok.inj hr).symm⟩

theorem keeps_globalDirective {name : String}
    {apply : List UInt8 → Parser L → Except String (Parser L)}
    (h : ∀ v p q, apply v p = .ok q → Kept p q) : (globalDirective name apply).Keeps := by
  intro v p q hq
  obtain ⟨r, hr, rfl⟩ := globalDirective_ok hq
  exact (h v p r hr).trans (kept_logged r)

theorem keeps_snmpDirective {name : String} {build : Build L}
    {apply : List UInt8 → Parser L → Except String (Parser L)}
    (h : ∀ v p q, apply v p = .ok q → Kept p q) : (snmpDirective name build apply).Keeps := by
  intro v p q hq
  rcases snmpDirective_ok hq with ⟨r, hr, rfl⟩ | rfl
  · exact (h v p r hr).trans (kept_logged r)
  · exact kept_of_balancer rfl rfl rfl

theorem keeps_numberDirective {name : String} {read : List UInt8 → LongRead} {accepts : ℤ → Bool}
    {message : String} {set : ℤ → Shared L → Shared L}
    (hset : ∀ v s, (set v s).balancer = s.balancer) :
    (numberDirective name read accepts message set).Keeps := by
  refine keeps_globalDirective fun v p q hq => ?_
  dsimp only at hq
  split_ifs at hq
  obtain rfl := Except.ok.inj hq
  exact kept_of_balancer rfl rfl (hset _ _)

theorem keeps_addressDirective {name message : String} {set : UInt32 → Shared L → Shared L}
    (hset : ∀ a s, (set a s).balancer = s.balancer) :
    (addressDirective name message set).Keeps := by
  intro v p q hq
  obtain ⟨a, rfl⟩ := addressDirective_ok hq
  exact kept_of_balancer rfl rfl (hset _ _)

theorem keeps_snmpCommunityPw (build : Build L) :
    (GlobalSection.snmpCommunityPw build).Keeps := by
  refine keeps_snmpDirective fun v p q hq => ?_
  split_ifs at hq
  obtain rfl := Except.ok.inj hq
  exact kept_of_balancer rfl rfl rfl

theorem keeps_snmpEnable (build : Build L) : (GlobalSection.snmpEnable build).Keeps := by
  refine keeps_snmpDirective fun v p q hq => ?_
  obtain rfl := Except.ok.inj hq
  exact kept_of_balancer rfl rfl rfl

theorem keeps_shmRunDir (build : Build L) : (GlobalSection.shmRunDir build).Keeps := by
  refine keeps_globalDirective fun v p q hq => ?_
  split_ifs at hq
  obtain rfl := Except.ok.inj hq
  exact kept_of_balancer rfl rfl rfl

theorem keeps_sessionWeight (build : Build L) : (GlobalSection.sessionWeight build).Keeps := by
  refine keeps_globalDirective fun v p q hq => ?_
  split_ifs at hq
  obtain rfl := Except.ok.inj hq
  exact kept_of_tables rfl (.refl _) rfl rfl rfl

theorem keeps_algorithm (build : Build L) : (GlobalSection.algorithm build).Keeps := by
  refine keeps_globalDirective fun v p q hq => ?_
  cases halgorithm : GlobalSection.algorithmOf build v with
  | error message =>
      rw [halgorithm] at hq
      cases hq
  | ok value =>
      rw [halgorithm] at hq
      obtain rfl := Except.ok.inj hq
      exact kept_of_tables rfl (.refl _) rfl rfl rfl

theorem keeps_cloneMode : (GlobalSection.cloneMode (L := L)).Keeps := by
  refine keeps_globalDirective fun v p q hq => ?_
  split_ifs at hq
  · obtain rfl := Except.ok.inj hq
    exact kept_of_tables rfl (.refl _) rfl rfl rfl
  · obtain rfl := Except.ok.inj hq
    exact kept_of_tables rfl (.refl _) rfl rfl rfl

theorem keeps_overloadMode : (GlobalSection.overloadMode (L := L)).Keeps := by
  refine keeps_globalDirective fun v p q hq => ?_
  split_ifs at hq
  · obtain rfl := Except.ok.inj hq
    exact kept_of_tables rfl (.refl _) rfl rfl rfl
  · obtain rfl := Except.ok.inj hq
    exact kept_of_tables rfl (.refl _) rfl rfl rfl

/-- A new default is that of the next section as well. -/
theorem keeps_defaultMaxc : (GlobalSection.defaultMaxc (L := L)).Keeps := by
  refine keeps_globalDirective fun v p q hq => ?_
  dsimp only at hq
  split_ifs at hq
  obtain rfl := Except.ok.inj hq
  refine ⟨rfl, .refl _, fun hfresh => ?_⟩
  show { p.vars with serverMaxc := toInt (readDecimal v).value } = _
  rw [hfresh]
  rfl

theorem keeps_defaultMaxl (build : Build L) : (GlobalSection.defaultMaxl build).Keeps := by
  refine keeps_globalDirective fun v p q hq => ?_
  split_ifs at hq
  obtain rfl := Except.ok.inj hq
  refine ⟨rfl, .refl _, fun hfresh => ?_⟩
  show { p.vars with serverMaxl := build.atof v } = _
  rw [hfresh]
  rfl

/-- **The global directives** keep what the sections rely on. -/
theorem keeps_globalDirectives (build : Build L) :
    ∀ d ∈ GlobalSection.directives build, d.Keeps := by
  unfold GlobalSection.directives
  simp only [List.forall_mem_cons]
  refine ⟨keeps_snmpCommunityPw build, keeps_snmpEnable build, keeps_shmRunDir build,
    keeps_sessionWeight build, keeps_algorithm build, keeps_cloneMode, keeps_overloadMode,
    keeps_defaultMaxc, keeps_defaultMaxl build, ?_⟩
  refine ⟨?_, ?_, ?_, ?_, ?_, ?_, ?_, ?_, ?_, ?_, ?_, ?_, ?_, fun d hd => nomatch hd⟩
  case' refine_11 => exact keeps_addressDirective fun _ _ => rfl
  case' refine_12 => exact keeps_addressDirective fun _ _ => rfl
  case' refine_13 => exact keeps_addressDirective fun _ _ => rfl
  all_goals exact keeps_numberDirective fun _ _ => rfl

/-! ## From section to section -/

section Chain

variable {σ : Type} {d : Directive σ} {chain : List (Directive σ)} {n : ℕ}
  {directive : List UInt8} {value : Option (List UInt8)} {s t : σ} {P : σ → Prop}

/-- What the directives that a line is for keep, the chain keeps. -/
theorem Directive.runAll_keeps
    (hchain : ∀ d ∈ chain, hasPrefix d.name directive = true →
      ∀ v s t, (d.usesValue = true → value = some v) → d.apply v s = .ok t → P s → P t)
    (h : Directive.runAll chain n directive value s = .ok t) (hs : P s) : P t := by
  unfold Directive.runAll at h
  induction chain generalizing s with
  | nil =>
      obtain rfl := Except.ok.inj h
      exact hs
  | cons d chain ih =>
      rw [List.forall_mem_cons] at hchain
      obtain ⟨r, hrun, hrest⟩ := Machine.foldlM_cons_eq_ok.mp h
      refine ih hchain.2 hrest ?_
      rcases Directive.run_cases hrun with ⟨-, rfl⟩ | ⟨hname, v, hvalue, happly⟩
      · exact hs
      · exact hchain.1 hname v s r hvalue happly hs

/-- What one of them establishes holds in the end. -/
theorem Directive.runAll_sets (hd : d ∈ chain) (hname : hasPrefix d.name directive = true)
    (hsets : ∀ v s t, (d.usesValue = true → value = some v) → d.apply v s = .ok t → P t)
    (hchain : ∀ d ∈ chain, hasPrefix d.name directive = true →
      ∀ v s t, (d.usesValue = true → value = some v) → d.apply v s = .ok t → P s → P t)
    (h : Directive.runAll chain n directive value s = .ok t) : P t := by
  obtain ⟨before, after, rfl⟩ := List.append_of_mem hd
  obtain ⟨r, -, hfrom⟩ := Machine.foldlM_append_eq_ok.mp h
  obtain ⟨u, hrun, hrest⟩ := Machine.foldlM_cons_eq_ok.mp hfrom
  have hkeeps : ∀ e ∈ after, hasPrefix e.name directive = true →
      ∀ v s t, (e.usesValue = true → value = some v) → e.apply v s = .ok t → P s → P t :=
    fun e he => hchain e (List.mem_append_right before (List.mem_cons_of_mem d he))
  refine Directive.runAll_keeps hkeeps hrest ?_
  rcases Directive.run_cases hrun with ⟨hno, -⟩ | ⟨-, v, hvalue, happly⟩
  · exact absurd (hname.symm.trans hno) (by decide)
  · exact hsets v r u hvalue happly

end Chain

/-- What all directives of a chain keep, the chain keeps. -/
theorem kept_runAll {chain : List (Directive (Parser L))} (hchain : ∀ d ∈ chain, d.Keeps) {n : ℕ}
    {directive : List UInt8} {value : Option (List UInt8)} {p q : Parser L}
    (h : Directive.runAll chain n directive value p = .ok q) : Kept p q :=
  Directive.runAll_keeps (P := Kept p)
    (fun d hd _ v r s _ happly hkept => hkept.trans (hchain d hd v r s happly)) h (.refl p)

section Parsing

variable [IntCast L] {build : Build L}

/-- Outside of a section only the second half of a round does something. -/
theorem parseBuffer_outside {buffer directive : List UInt8}
    (hsplit : (splitLine buffer).directive = some directive) {p : Parser L}
    (hp : p.inServerSection = false) : parseBuffer build p buffer =
      globalPart build directive (splitLine buffer).value
        { p with lineCounter := p.lineCounter + 1 } := by
  refine parseBuffer_of_sectionPart hsplit ?_
  unfold sectionPart
  exact if_neg (by rw [hp]; decide)

/-- **A line outside of the sections** keeps what they rely on. -/
theorem kept_globalLine (l : GlobalLine) {p q : Parser L} (hp : p.inServerSection = false)
    (h : parseBuffer build p l.text = .ok q) : Kept p q := by
  rw [parseBuffer_outside l.splits hp] at h
  unfold globalPart at h
  rw [if_neg (not_end_of_noBracket l.noBracket), l.noBracket, if_neg (by decide)] at h
  have hcounted : Kept p { p with lineCounter := p.lineCounter + 1 } := kept_of_balancer rfl rfl rfl
  exact hcounted.trans (kept_runAll (keeps_globalDirectives build) h)

omit [IntCast L] in
theorem firstFree_of_sameTables {kind : ServerKind} {b b' : Balancer L} (h : SameTables b b') :
    firstFree kind b' = firstFree kind b := by
  obtain ⟨hservers, hmembers, hclones⟩ := h
  unfold firstFree Balancer.count Balancer.table
  rw [hservers, hmembers, hclones]

/-- A creation depends on the tables only. -/
theorem sameTables_create {malloc : Bool} {kind : ServerKind} {r : CreateRequest L}
    {b b' : Balancer L} (h : SameTables b b') :
    SameTables (createBalancerServer malloc kind r b).1
      (createBalancerServer malloc kind r b').1 := by
  unfold createBalancerServer
  rw [firstFree_of_sameTables h]
  obtain ⟨hservers, hmembers, hclones⟩ := h
  obtain ⟨table, nmembers, nclones, algorithm, mode, overload, servers, weight, maxc, maxl⟩ := b
  dsimp only at hservers hmembers hclones
  split_ifs
  · exact ⟨hservers, hmembers, hclones⟩
  · exact ⟨hservers, hmembers, hclones⟩
  · subst hservers hmembers hclones
    cases firstFree kind _ with
    | none => cases kind <;> exact ⟨rfl, rfl, rfl⟩
    | some i => cases kind <;> exact ⟨rfl, rfl, rfl⟩

/-- What a list of calls does to the tables. -/
def createAll (calls : List (ServerKind × CreateRequest L)) (b : Balancer L) : Balancer L :=
  calls.foldl (fun b call => (createBalancerServer true call.1 call.2 b).1) b

/-- The call gets as far as writing a record, of a server in use. -/
def Creatable (call : ServerKind × CreateRequest L) : Prop :=
  call.2.Valid true ∧ call.2.serverStatus ≠ .free

omit [IntCast L] in
/-- The settings of a section free no server. -/
theorem serverStatus_collect {vars : ServerVars L} (h : vars.serverStatus ≠ .free)
    (settings : List (Setting × List UInt8)) :
    (collect build vars settings).serverStatus ≠ .free := by
  unfold collect
  induction settings generalizing vars with
  | nil => exact h
  | cons a settings ih =>
      rw [List.foldl_cons]
      refine ih ?_
      obtain ⟨s, v⟩ := a
      cases s with
      | status =>
          show (if hasPrefix "enabled" v then ServerStatus.enabled else .disabled) ≠ .free
          split_ifs <;> decide
      | clone =>
          cases htrue : hasPrefix "true" v with
          | true => rw [Setting.assign_clone_of_true build htrue]; exact h
          | false => rw [Setting.assign_clone_of_false build htrue]; exact h
      | _ => exact h

omit [IntCast L] in
/-- A server is a clone if it was one before, or a line says so. -/
theorem serverClone_collect (vars : ServerVars L) (settings : List (Setting × List UInt8)) :
    (collect build vars settings).serverClone = (vars.serverClone || settings.any SaysClone) := by
  unfold collect
  induction settings generalizing vars with
  | nil => exact (Bool.or_false _).symm
  | cons a settings ih =>
      rw [List.foldl_cons, ih, List.any_cons, ← Bool.or_assoc]
      congr 1
      obtain ⟨s, v⟩ := a
      cases s with
      | clone =>
          cases htrue : hasPrefix "true" v with
          | true =>
              rw [Setting.assign_clone_of_true build htrue]
              simp [SaysClone, htrue]
          | false =>
              rw [Setting.assign_clone_of_false build htrue]
              simp [SaysClone, htrue]
      | _ => exact (Bool.or_false _).symm

omit [IntCast L] in
/-- Between two sections, the kind of the next server is that of its section. -/
theorem kind_collected {p : Parser L} (hp : Between p) (sec : SectionText build) :
    (sec.collected p.vars).request.1 = sec.kind := by
  unfold SectionText.collected ServerVars.request SectionText.kind
  dsimp only
  rw [serverClone_collect, hp.2]
  rfl

/-- **A section that is accepted** leaves the parser between sections, and its
server created. -/
theorem between_section (sec : SectionText build) {p q : Parser L} (hp : Between p)
    (h : sec.lines.foldlM (parseBuffer build) p = .ok q) :
    Between q ∧ Creatable (sec.collected p.vars).request ∧ q.shared.balancer =
      createAll [(sec.collected p.vars).request] p.shared.balancer := by
  obtain ⟨e, hsection⟩ := foldlM_section sec p
  rw [hsection] at h
  obtain ⟨hvalid, -, shared, errno, rfl, rfl⟩ := endSection_ok h
  refine ⟨⟨rfl, rfl⟩, ⟨⟨rfl, hvalid.2⟩, serverStatus_collect ?_ _⟩, rfl⟩
  show p.vars.serverStatus ≠ .free
  rw [hp.2]
  show ServerStatus.enabled ≠ .free
  decide

theorem sameTables_createAll {b b' : Balancer L} (h : SameTables b b')
    (calls : List (ServerKind × CreateRequest L)) :
    SameTables (createAll calls b) (createAll calls b') := by
  unfold createAll
  induction calls generalizing b b' with
  | nil => exact h
  | cons call calls ih => exact ih (sameTables_create h)

/-- What is true of a part of a file that has been read. -/
structure PartRead (build : Build L) (p q : Parser L) (lines : List (List UInt8))
    (sections : List (SectionText build)) : Prop where
  between : Between q
  names : (createCalls build p lines).map (fun call => call.2.serverName) =
    sections.map SectionText.serverName
  kinds : (createCalls build p lines).map Prod.fst = sections.map SectionText.kind
  creatable : ∀ call ∈ createCalls build p lines, Creatable call
  created : SameTables (createAll (createCalls build p lines) p.shared.balancer) q.shared.balancer

/-- **One part of a file.** -/
theorem partRead_item (i : Item build) {p q : Parser L} (hp : Between p)
    (h : i.lines.foldlM (parseBuffer build) p = .ok q) :
    PartRead build p q i.lines i.section?.toList := by
  cases i with
  | line l =>
      have hparse : parseBuffer build p l.text = .ok q := by
        obtain ⟨r, hround, hrest⟩ := Machine.foldlM_cons_eq_ok.mp h
        rw [hround]
        exact hrest
      have hkept := kept_globalLine l hp.1 hparse
      have hcalls : createCalls build p [l.text] = [] := by
        refine createCalls_eq_nil (fun text ht => ?_) p
        obtain rfl := List.mem_singleton.mp ht
        rw [l.splits]
        exact not_end_of_noBracket l.noBracket
      refine ⟨hkept.between hp, ?_, ?_, fun call hcall => ?_, ?_⟩
      · exact congrArg (List.map fun call => call.2.serverName) hcalls
      · exact congrArg (List.map Prod.fst) hcalls
      · change call ∈ createCalls build p [l.text] at hcall
        rw [hcalls] at hcall
        cases hcall
      · show SameTables (createAll (createCalls build p [l.text]) p.shared.balancer) _
        rw [hcalls]
        exact hkept.2.1
  | server sec =>
      obtain ⟨hbetween, hcreatable, hbalancer⟩ := between_section sec hp h
      have hcalls : createCalls build p (Item.server sec).lines =
          [(sec.collected p.vars).request] := createCalls_section sec p
      refine ⟨hbetween, ?_, ?_, fun call hcall => ?_, ?_⟩
      · rw [hcalls]
        exact congrArg (fun name => [name]) (serverName_collect build _ _)
      · rw [hcalls]
        exact congrArg (fun kind => [kind]) (kind_collected hp sec)
      · rw [hcalls] at hcall
        exact List.mem_singleton.mp hcall ▸ hcreatable
      · rw [hcalls, hbalancer]
        exact .refl _

/-- **A file up to any place**, part by part. -/
theorem partRead_items {items : List (Item build)} {p q : Parser L} (hp : Between p)
    (h : (linesOf items).foldlM (parseBuffer build) p = .ok q) :
    PartRead build p q (linesOf items) (sectionsOf items) := by
  induction items generalizing p with
  | nil =>
      obtain rfl := Except.ok.inj h
      exact ⟨hp, rfl, rfl, nofun, .refl _⟩
  | cons i items ih =>
      obtain ⟨r, hfirst, hrest⟩ := Machine.foldlM_append_eq_ok.mp h
      have hitem := partRead_item i hp hfirst
      have hitems := ih hitem.between hrest
      have hcalls : createCalls build p (linesOf (i :: items)) =
          createCalls build p i.lines ++ createCalls build r (linesOf items) :=
        createCalls_append hfirst _
      have hsections : sectionsOf (i :: items) = i.section?.toList ++ sectionsOf items := by
        unfold sectionsOf
        rw [List.filterMap_cons]
        cases i.section? <;> rfl
      refine ⟨hitems.between, ?_, ?_, fun call hcall => ?_, ?_⟩
      · rw [hcalls, hsections, List.map_append, List.map_append, hitem.names, hitems.names]
      · rw [hcalls, hsections, List.map_append, List.map_append, hitem.kinds, hitems.kinds]
      · rw [hcalls] at hcall
        exact (List.mem_append.mp hcall).elim (hitem.creatable call) (hitems.creatable call)
      · rw [hcalls]
        unfold createAll
        rw [List.foldl_append]
        exact (sameTables_createAll hitem.created _).trans hitems.created

end Parsing

/-! ## Tables without a gap -/

/-- No slot of a table is free, so that a new server gets the next one. -/
def Filled (b : Balancer L) : Prop :=
  ∀ kind, ∀ i < b.count kind, (b.table kind i).status ≠ .free

/-- The members do not reach into the table of the clones. -/
def Apart (b : Balancer L) : Prop := b.count .member ≤ maxServers ∨ b.count .clone = 0

/-- Tables are apart if every server has its own index for its id: the first clone has
the slot of the first member that is too many. -/
theorem apart_of_ids {b : Balancer L}
    (h : ∀ kind, ∀ k < b.count kind, (b.table kind k).id = k) : Apart b := by
  by_contra hboth
  obtain ⟨hmembers, hclones⟩ := not_or.mp hboth
  have hmember := h .member maxServers (not_le.mp hmembers)
  have hclone := h .clone 0 (Nat.pos_of_ne_zero hclones)
  have hslot : b.table .member maxServers = b.table .clone 0 := rfl
  rw [hslot, hclone] at hmember
  exact absurd hmember (by decide)

section Tables

variable {kind : ServerKind} {b b' : Balancer L} {i : ℕ}

theorem SameTables.count (h : SameTables b b') (kind : ServerKind) :
    b'.count kind = b.count kind := by
  cases kind with
  | member => exact h.2.1
  | clone => exact h.2.2

theorem SameTables.table (h : SameTables b b') (kind : ServerKind) (i : ℕ) :
    b'.table kind i = b.table kind i := congrFun h.1 (slot kind i)

/-- There are none in tables without servers. -/
theorem filled_of_empty (h : ∀ kind, b.count kind = 0) : Filled b := by
  intro kind i hi
  rw [h kind] at hi
  exact absurd hi (Nat.not_lt_zero i)

theorem Filled.of_sameTables (h : Filled b) (htables : SameTables b b') : Filled b' := by
  intro kind i hi
  rw [htables.count] at hi
  rw [htables.table]
  exact h kind i hi

theorem Filled.newIndex_eq (h : Filled b) (kind : ServerKind) : newIndex kind b = b.count kind := by
  unfold newIndex
  rw [firstFree_eq_none_iff.mpr (h kind)]
  rfl

theorem Apart.of_le (h : Apart b') (hle : ∀ kind, b.count kind ≤ b'.count kind) : Apart b :=
  h.imp (hle .member).trans fun hzero => Nat.eq_zero_of_le_zero ((hle .clone).trans_eq hzero)

variable [IntCast L] {r : CreateRequest L}

/-- **A creation** takes the next slot of its table. -/
theorem Filled.creates (h : Filled b) (hc : Creates kind r b b') :
    b'.table kind (b.count kind) = { r.record with id := b.count kind } ∧
      ∀ kind', b'.count kind' = b.count kind' + if kind = kind' then 1 else 0 := by
  have hwritten := hc.written
  have hcount := hc.count
  rw [h.newIndex_eq] at hwritten hcount
  refine ⟨hwritten, fun kind' => ?_⟩
  split_ifs with hkind
  · subst hkind
    omega
  · exact hc.otherCount kind' (Ne.symm hkind)

/-- It leaves no gap. -/
theorem Filled.of_creates (h : Filled b) (hc : Creates kind r b b')
    (hlive : r.serverStatus ≠ .free) : Filled b' := by
  obtain ⟨hwritten, hcount⟩ := h.creates hc
  intro kind' i hi
  by_cases hslot : slot kind' i = slot kind (b.count kind)
  · have hsame : b'.table kind' i = b'.table kind (b.count kind) := congrArg b'.servers hslot
    rw [hsame, hwritten]
    exact hlive
  · have hother : b'.table kind' i = b.table kind' i :=
      hc.others _ ((h.newIndex_eq kind).symm ▸ hslot)
    rw [hother]
    refine h kind' i ?_
    rw [hcount] at hi
    split_ifs at hi with hkind
    · subst hkind
      have hne : i ≠ b.count kind := fun heq => hslot (congrArg (slot kind) heq)
      omega
    · exact hi

/-- **The other servers** stay as they are, as long as the tables are apart. -/
theorem Filled.kept (h : Filled b) (hc : Creates kind r b b') (hapart : Apart b')
    {kind' : ServerKind} (hi : i < b.count kind') : b'.table kind' i = b.table kind' i := by
  refine hc.others _ fun hslot => ?_
  have hcount := (h.creates hc).2
  rw [h.newIndex_eq] at hslot
  unfold Apart at hapart
  rw [hcount .member, hcount .clone] at hapart
  cases kind with
  | member =>
      cases kind' with
      | member => exact absurd hslot (Nat.ne_of_lt hi)
      | clone =>
          have hover : maxServers + i = b.count .member := hslot
          simp at hapart
          omega
  | clone =>
      cases kind' with
      | member =>
          have hover : i = maxServers + b.count .clone := hslot
          simp at hapart
          omega
      | clone => exact absurd (slot_injective .clone hslot) (Nat.ne_of_lt hi)

/-! ### One creation after the other -/

theorem Creatable.creates {call : ServerKind × CreateRequest L} (h : Creatable call)
    (b : Balancer L) : Creates call.1 call.2 b (createBalancerServer true call.1 call.2 b).1 := by
  rcases createBalancerServer_cases true call.1 call.2 b with ⟨hno, -⟩ | ⟨-, -, hcreates⟩
  · exact absurd h.1 hno
  · exact hcreates

variable {calls before after : List (ServerKind × CreateRequest L)}
  {call : ServerKind × CreateRequest L}

/-- The calls for a kind make its table as much longer. -/
theorem filled_createAll (h : Filled b) (hcalls : ∀ call ∈ calls, Creatable call) :
    Filled (createAll calls b) ∧ ∀ kind, (createAll calls b).count kind =
      b.count kind + calls.countP fun call => call.1 = kind := by
  induction calls generalizing b with
  | nil => exact ⟨h, fun _ => rfl⟩
  | cons call calls ih =>
      rw [List.forall_mem_cons] at hcalls
      have hc := hcalls.1.creates b
      obtain ⟨hfilled, hcount⟩ := ih (h.of_creates hc hcalls.1.2) hcalls.2
      refine ⟨hfilled, fun kind => ?_⟩
      have hone := (h.creates hc).2 kind
      rw [List.countP_cons]
      simp only [decide_eq_true_eq]
      have hall : (createAll (call :: calls) b).count kind = _ := hcount kind
      omega

/-- None of them changes a server that is there. -/
theorem kept_createAll (h : Filled b) (hcalls : ∀ call ∈ calls, Creatable call)
    (hapart : Apart (createAll calls b)) (hi : i < b.count kind) :
    (createAll calls b).table kind i = b.table kind i := by
  induction calls generalizing b with
  | nil => rfl
  | cons call calls ih =>
      rw [List.forall_mem_cons] at hcalls
      have hc := hcalls.1.creates b
      have hfilled := h.of_creates hc hcalls.1.2
      have hone := (h.creates hc).2
      have hlonger := (filled_createAll hfilled hcalls.2).2
      have hfirst := h.kept hc (hapart.of_le fun kind => by
        show _ ≤ (createAll calls _).count kind
        rw [hlonger]
        exact Nat.le_add_right _ _) hi
      have hi' : i < (createBalancerServer true call.1 call.2 b).1.count kind := by
        rw [hone]
        exact Nat.lt_add_right _ hi
      exact (ih hfilled hcalls.2 hapart hi').trans hfirst

/-- **The server of a call** is found behind those of the calls before it. -/
theorem table_createAll (h : Filled b) (hcalls : ∀ c ∈ before ++ call :: after, Creatable c)
    (hapart : Apart (createAll (before ++ call :: after) b)) {k : ℕ}
    (hk : b.count call.1 + before.countP (fun c => c.1 = call.1) = k) :
    (createAll (before ++ call :: after) b).table call.1 k = { call.2.record with id := k } := by
  rw [List.forall_mem_append, List.forall_mem_cons] at hcalls
  obtain ⟨hbefore, hcall, hafter⟩ := hcalls
  obtain ⟨hfilled, hcount⟩ := filled_createAll h hbefore
  have hc := hcall.creates (createAll before b)
  obtain ⟨hwritten, hlonger⟩ := hfilled.creates hc
  rw [hcount, hk] at hwritten
  have happend : createAll (before ++ call :: after) b =
      createAll after (createBalancerServer true call.1 call.2 (createAll before b)).1 := by
    unfold createAll
    rw [List.foldl_append]
    rfl
  rw [happend] at hapart ⊢
  refine (kept_createAll (hfilled.of_creates hc hcall.2) hafter hapart ?_).trans hwritten
  rw [hlonger, hcount, hk, if_pos rfl]
  exact Nat.lt_succ_self k

end Tables

/-! ## What a section depends on -/

/-- Other settings leave the address alone. -/
theorem assign_serverIP (build : Build L) {s : Setting} (hs : s ≠ .ip) (v : List UInt8)
    (vars : ServerVars L) (serverIP : UInt32) :
    s.assign build { vars with serverIP := serverIP } v =
      { s.assign build vars v with serverIP := serverIP } := by
  cases s with
  | ip => exact absurd rfl hs
  | clone =>
      cases htrue : hasPrefix "true" v with
      | true =>
          rw [Setting.assign_clone_of_true build htrue, Setting.assign_clone_of_true build htrue]
      | false =>
          rw [Setting.assign_clone_of_false build htrue, Setting.assign_clone_of_false build htrue]
  | _ => rfl

/-- Without an address the one there was stays. -/
theorem serverIP_collect (build : Build L) {settings : List (Setting × List UInt8)}
    (hip : ∀ v, (Setting.ip, v) ∉ settings) (vars : ServerVars L) :
    (collect build vars settings).serverIP = vars.serverIP := by
  unfold collect
  induction settings generalizing vars with
  | nil => rfl
  | cons a settings ih =>
      have ha : a.1 ≠ .ip := fun heq => hip a.2 (heq ▸ List.mem_cons_self)
      have hkept : a.1.assign build vars a.2 =
          { a.1.assign build vars a.2 with serverIP := vars.serverIP } :=
        assign_serverIP build ha a.2 vars vars.serverIP
      rw [List.foldl_cons, ih (fun v hv => hip v (List.mem_cons_of_mem a hv)), hkept]

/-- An accepted one replaces it. -/
theorem collect_of_ip (build : Build L) {settings : List (Setting × List UInt8)}
    (haccepted : ∀ a ∈ settings, a.1.Accepted build a.2) {v : List UInt8}
    (hip : (Setting.ip, v) ∈ settings) (vars : ServerVars L) (serverIP : UInt32) :
    collect build { vars with serverIP := serverIP } settings = collect build vars settings := by
  unfold collect
  induction settings generalizing vars with
  | nil => cases hip
  | cons a settings ih =>
      rw [List.forall_mem_cons] at haccepted
      rw [List.foldl_cons, List.foldl_cons]
      by_cases ha : a.1 = .ip
      · obtain ⟨s, w⟩ := a
        obtain rfl : s = .ip := ha
        obtain ⟨address, haddress⟩ := Option.isSome_iff_exists.mp haccepted.1
        congr 1
        show Setting.assign build { vars with serverIP := serverIP } .ip w =
          Setting.assign build vars .ip w
        rw [Setting.assign_ip_of_some build haddress, Setting.assign_ip_of_some build haddress]
      · rw [assign_serverIP build ha]
        refine ih haccepted.2 ((List.mem_cons.mp hip).resolve_left fun heq => ?_) _
        exact ha (heq ▸ rfl)

theorem accepted_of_mem_assignments {build : Build L} {body : List (BodyLine build)}
    {a : Setting × List UInt8} (h : a ∈ assignments body) : a.1.Accepted build a.2 := by
  obtain ⟨l, -, hl⟩ := List.mem_filterMap.mp h
  have hmeans := l.means
  rw [hl] at hmeans
  exact hmeans.2.2

/-- The defaults in force after a part of a file. -/
def defaultsAfter [IntCast L] (build : Build L) (start : Parser L) (items : List (Item build)) :
    Option (ℤ × L) :=
  ((configMachine build).run start (linesOf items)).map fun p =>
    (p.shared.balancer.defaultMaxc, p.shared.balancer.defaultMaxl)

/-- The server that is created for a section of a file: of all that are, the one
at the place of the section. -/
def serverOf [IntCast L] (build : Build L) (start : Parser L) (before : List (Item build))
    (sec : SectionText build) (after : List (Item build)) :
    Option (ServerKind × CreateRequest L) :=
  (createCalls build start (linesOf (before ++ .server sec :: after)))[(sectionsOf before).length]?

/-- **Sections are independent**: one server is created for each, in the order of
the file, and it is the one that is created for the section in any other file in
which the same defaults are in force there.  In the end its table has it behind
those of the sections of its kind before. -/
structure SectionsIndependent [IntCast L] (build : Build L) (items : List (Item build))
    (start q : Parser L) : Prop where
  names : (createCalls build start (linesOf items)).map (fun call => call.2.serverName) =
    (sectionsOf items).map SectionText.serverName
  created : SameTables (createAll (createCalls build start (linesOf items)) start.shared.balancer)
    q.shared.balancer
  ownLines : ∀ before sec after, items = before ++ .server sec :: after →
    ∀ (before' after' : List (Item build)) (shared' : Shared L) (serverIP' : UInt32)
      (serverName' : List UInt8),
      defaultsAfter build (.start shared' serverIP' serverName') before' =
        defaultsAfter build start before →
      serverOf build (.start shared' serverIP' serverName') before' sec after' =
        serverOf build start before sec after
  stored : ∀ before sec after, items = before ++ .server sec :: after → ∀ kind r,
    serverOf build start before sec after = some (kind, r) →
      q.shared.balancer.table kind (countKind kind before) =
        { r.record with id := countKind kind before }

theorem between_start (shared : Shared L) (serverIP : UInt32) (serverName : List UInt8) :
    Between (.start shared serverIP serverName) := ⟨rfl, rfl⟩

/-- Two states between sections with the same defaults differ in the address and
the name, of what counts for a section. -/
theorem collected_of_between {p p' : Parser L} (hp : Between p) (hp' : Between p')
    (hmaxc : p'.shared.balancer.defaultMaxc = p.shared.balancer.defaultMaxc)
    (hmaxl : p'.shared.balancer.defaultMaxl = p.shared.balancer.defaultMaxl)
    {build : Build L} (sec : SectionText build) : sec.collected p'.vars = collect build
      { p.vars with serverName := sec.serverName, serverIP := p'.vars.serverIP }
      (assignments sec.body) := by
  unfold SectionText.collected
  congr 1
  rw [hp.2, hp'.2]
  unfold Parser.freshVars
  rw [hmaxc, hmaxl]

section Independence

variable [IntCast L] {build : Build L}

/-- The calls of a file, with that of a section. -/
theorem createCalls_at {start p : Parser L} {before : List (Item build)}
    (hbefore : (linesOf before).foldlM (parseBuffer build) start = .ok p) (sec : SectionText build)
    (after : List (Item build)) : ∃ more, createCalls build start
      (linesOf (before ++ .server sec :: after)) = createCalls build start (linesOf before) ++
        (sec.collected p.vars).request :: more := by
  have hlines : linesOf (before ++ .server sec :: after) =
      linesOf before ++ (sec.lines ++ linesOf after) := by
    unfold linesOf
    rw [List.flatMap_append, List.flatMap_cons]
    rfl
  obtain ⟨more, hmore⟩ : createCalls build p sec.lines <+:
      createCalls build p (sec.lines ++ linesOf after) :=
    ((configMachine build).visits_prefix_append p sec.lines (linesOf after)).filterMap _
  refine ⟨more, ?_⟩
  rw [hlines, createCalls_append hbefore, ← hmore, createCalls_section]
  rfl

/-- What is created for a section, from the state before it. -/
theorem serverOf_eq {start p : Parser L} (hstart : Between start) {before : List (Item build)}
    (hbefore : (linesOf before).foldlM (parseBuffer build) start = .ok p) (sec : SectionText build)
    (after : List (Item build)) :
    serverOf build start before sec after = some (sec.collected p.vars).request := by
  have hbeforeCalls : (createCalls build start (linesOf before)).length =
      (sectionsOf before).length := by
    have hnames := congrArg List.length (partRead_items hstart hbefore).names
    rwa [List.length_map, List.length_map] at hnames
  obtain ⟨more, hmore⟩ := createCalls_at hbefore sec after
  unfold serverOf
  rw [hmore, ← hbeforeCalls, List.getElem?_append_right (Nat.le_refl _), Nat.sub_self]
  rfl

/-- What a run that gets through a part of a file leaves. -/
theorem defaultsAfter_eq {start p : Parser L} {items : List (Item build)}
    (h : (linesOf items).foldlM (parseBuffer build) start = .ok p) :
    defaultsAfter build start items =
      some (p.shared.balancer.defaultMaxc, p.shared.balancer.defaultMaxl) := by
  unfold defaultsAfter configMachine
  rw [Machine.run_ofFold_eq_some.mpr h]
  rfl

/-- With an address of its own, a section does not depend on what comes before. -/
theorem serverOf_of_hasIp {start start' p : Parser L} (hstart : Between start)
    (hstart' : Between start') {before before' : List (Item build)}
    (hbefore : (linesOf before).foldlM (parseBuffer build) start = .ok p)
    (hdefaults : defaultsAfter build start' before' = defaultsAfter build start before)
    {sec : SectionText build} (hip : sec.HasIp) (after after' : List (Item build)) :
    serverOf build start' before' sec after' = serverOf build start before sec after := by
  rw [defaultsAfter_eq hbefore] at hdefaults
  obtain ⟨p', hrun, hsame⟩ := Option.map_eq_some_iff.mp hdefaults
  have hbefore' := Machine.run_ofFold_eq_some.mp hrun
  obtain ⟨hmaxc, hmaxl⟩ := Prod.mk.inj hsame
  have hp := (partRead_items hstart hbefore).between
  have hp' := (partRead_items hstart' hbefore').between
  obtain ⟨v, hv⟩ := hip
  rw [serverOf_eq hstart hbefore, serverOf_eq hstart' hbefore',
    collected_of_between hp hp' hmaxc hmaxl]
  have hreplaced := collect_of_ip build (fun a ha => accepted_of_mem_assignments ha) hv
    { p.vars with serverName := sec.serverName } p'.vars.serverIP
  exact congrArg (fun vars : ServerVars L => some vars.request) hreplaced

/-- Without one, it gets the address that is there, in any file. -/
theorem serverIP_of_not_hasIp {start p : Parser L} (hstart : Between start)
    {before : List (Item build)}
    (hbefore : (linesOf before).foldlM (parseBuffer build) start = .ok p)
    {sec : SectionText build} (hip : ¬ sec.HasIp) (after : List (Item build)) :
    (serverOf build start before sec after).map (fun call => call.2.serverIP) =
      some p.vars.serverIP := by
  rw [serverOf_eq hstart hbefore]
  exact congrArg some (serverIP_collect build (fun v hv => hip ⟨v, hv⟩)
    { p.vars with serverName := sec.serverName })

/-- The calls for a kind are the sections of the kind. -/
theorem PartRead.countP_eq {p q : Parser L} {items : List (Item build)}
    (h : PartRead build p q (linesOf items) (sectionsOf items)) (kind : ServerKind) :
    (createCalls build p (linesOf items)).countP (fun call => call.1 = kind) =
      countKind kind items := by
  have hkinds := congrArg (List.countP fun k => k = kind) h.kinds
  rwa [List.countP_map, List.countP_map] at hkinds

/-- The tables that the sections leave, from empty ones. -/
theorem PartRead.count_eq {p q : Parser L} {items : List (Item build)}
    (h : PartRead build p q (linesOf items) (sectionsOf items))
    (hempty : ∀ kind, p.shared.balancer.count kind = 0) (kind : ServerKind) :
    q.shared.balancer.count kind = countKind kind items := by
  rw [h.created.count, (filled_createAll (filled_of_empty hempty) h.creatable).2, hempty,
    h.countP_eq, Nat.zero_add]

omit [IntCast L] in
/-- Every number of a section is that of one. -/
theorem exists_section {kind : ServerKind} {items : List (Item build)} {k : ℕ}
    (hk : k < countKind kind items) : ∃ before sec after, items = before ++ .server sec :: after ∧
      sec.kind = kind ∧ countKind kind before = k := by
  induction items generalizing k with
  | nil => exact absurd hk (Nat.not_lt_zero k)
  | cons i items ih =>
      have hcons : ∀ rest, countKind kind (i :: rest) = countKind kind rest +
          i.section?.toList.countP fun sec => sec.kind = kind := by
        intro rest
        unfold countKind sectionsOf
        rw [List.filterMap_cons]
        cases i.section? with
        | none => rfl
        | some sec =>
            show List.countP _ ([sec] ++ List.filterMap Item.section? rest) = _
            rw [List.countP_append, Nat.add_comm]
            rfl
      have hlater : ∀ j, j < countKind kind items →
          j + (i.section?.toList.countP fun sec => sec.kind = kind) = k →
            ∃ before sec after, i :: items = before ++ .server sec :: after ∧
              sec.kind = kind ∧ countKind kind before = k := by
        intro j hj heq
        obtain ⟨before, sec, after, rfl, hkind, hcount⟩ := ih hj
        exact ⟨i :: before, sec, after, rfl, hkind, by rw [hcons, hcount, heq]⟩
      rw [hcons] at hk
      cases i with
      | line l => exact hlater k hk rfl
      | server sec =>
          by_cases hkind : sec.kind = kind
          · cases k with
            | zero => exact ⟨[], sec, items, rfl, hkind, rfl⟩
            | succ j =>
                have hone : ((Item.server sec).section?.toList.countP
                    fun sec => sec.kind = kind) = 1 := by
                  simp [Item.section?, hkind]
                exact hlater j (by omega) (by omega)
          · have hnone : ((Item.server sec).section?.toList.countP
                fun sec => sec.kind = kind) = 0 := by
              simp [Item.section?, hkind]
            exact hlater k (by omega) (by omega)

/-- The state before a section. -/
theorem exists_before {start q : Parser L} {before after : List (Item build)} {i : Item build}
    (haccepted : (linesOf (before ++ i :: after)).foldlM (parseBuffer build) start = .ok q) :
    ∃ p, (linesOf before).foldlM (parseBuffer build) start = .ok p := by
  have hlines : linesOf (before ++ i :: after) = linesOf before ++ linesOf (i :: after) :=
    List.flatMap_append
  rw [hlines] at haccepted
  obtain ⟨p, hp, -⟩ := Machine.foldlM_append_eq_ok.mp haccepted
  exact ⟨p, hp⟩

section Accepted

variable {start q : Parser L} {items : List (Item build)}

/-- Independent sections have addresses of their own. -/
theorem SectionsIndependent.hasIp (h : SectionsIndependent build items start q)
    (hstart : Between start)
    (haccepted : (linesOf items).foldlM (parseBuffer build) start = .ok q) :
    ∀ sec ∈ sectionsOf items, sec.HasIp := by
  intro sec hsec
  obtain ⟨i, hi, hisec⟩ := List.mem_filterMap.mp hsec
  obtain rfl : i = .server sec := by
    cases i with
    | line l => cases hisec
    | server sec' => rw [Option.some.inj hisec]
  obtain ⟨before, after, rfl⟩ := List.append_of_mem hi
  obtain ⟨p, hp⟩ := exists_before haccepted
  by_contra hip
  -- the file of that section alone, with another address in the memory
  obtain ⟨serverIP', hne⟩ : ∃ a, a ≠ p.vars.serverIP := by
    by_cases hzero : p.vars.serverIP = 0
    · exact ⟨1, by rw [hzero]; decide⟩
    · exact ⟨0, Ne.symm hzero⟩
  have halone := h.ownLines before sec after rfl [] [] p.shared serverIP' []
    ((defaultsAfter_eq (p := .start p.shared serverIP' []) rfl).trans (defaultsAfter_eq hp).symm)
  have hsame := congrArg (Option.map fun call => call.2.serverIP) halone
  rw [serverIP_of_not_hasIp hstart hp hip,
    serverIP_of_not_hasIp (between_start _ _ _) rfl hip] at hsame
  exact hne (Option.some.inj hsame)

/-- They do not share a slot. -/
theorem SectionsIndependent.apart (h : SectionsIndependent build items start q)
    (hstart : Between start) (hempty : ∀ kind, start.shared.balancer.count kind = 0)
    (haccepted : (linesOf items).foldlM (parseBuffer build) start = .ok q) :
    countKind .member items ≤ maxServers ∨ countKind .clone items = 0 := by
  have hcount := (partRead_items hstart haccepted).count_eq hempty
  have hends : Apart q.shared.balancer := by
    refine apart_of_ids fun kind k hk => ?_
    rw [hcount] at hk
    obtain ⟨before, sec, after, rfl, rfl, rfl⟩ := exists_section hk
    obtain ⟨p, hp⟩ := exists_before haccepted
    obtain ⟨r, hr⟩ : ∃ r, (sec.collected p.vars).request = (sec.kind, r) :=
      ⟨_, Prod.ext (kind_collected (partRead_items hstart hp).between sec) rfl⟩
    have hserver := (serverOf_eq hstart hp sec after).trans (congrArg some hr)
    rw [h.stored before sec after rfl sec.kind r hserver]
  rwa [Apart, hcount, hcount] at hends

/-- Where the tables do not run into each other, the server of a section is found
behind those of its kind before it. -/
theorem stored_of_apart (hstart : Between start)
    (hempty : ∀ kind, start.shared.balancer.count kind = 0)
    (hapart : countKind .member items ≤ maxServers ∨ countKind .clone items = 0)
    (haccepted : (linesOf items).foldlM (parseBuffer build) start = .ok q)
    {before after : List (Item build)} {sec : SectionText build}
    (hitems : items = before ++ .server sec :: after) {kind : ServerKind} {r : CreateRequest L}
    (hserver : serverOf build start before sec after = some (kind, r)) :
    q.shared.balancer.table kind (countKind kind before) =
      { r.record with id := countKind kind before } := by
  have hread := partRead_items hstart haccepted
  obtain ⟨p, hp⟩ := exists_before (hitems ▸ haccepted)
  rw [serverOf_eq hstart hp] at hserver
  obtain ⟨more, hcalls⟩ := createCalls_at hp sec after
  rw [Option.some.inj hserver, ← hitems] at hcalls
  have hcreatable := hread.creatable
  have hcreated := hread.created
  rw [hcalls] at hcreatable hcreated
  have hends : Apart (createAll (createCalls build start (linesOf before) ++ (kind, r) :: more)
      start.shared.balancer) := by
    unfold Apart
    rwa [← hread.count_eq hempty .member, ← hread.count_eq hempty .clone, hcreated.count,
      hcreated.count] at hapart
  rw [hcreated.table]
  refine table_createAll (filled_of_empty hempty) hcreatable hends ?_
  rw [hempty, Nat.zero_add]
  exact (partRead_items hstart hp).countP_eq kind

end Accepted

/-- **Independence of sections.**  In a file that is accepted, sections are
independent exactly if each has a line with the address and the tables, empty at
the start, do not run into each other. -/
theorem sectionsIndependent_iff {file : List UInt8} {items : List (Item build)}
    (hfile : buffers configRoom file = linesOf items) {shared : Shared L}
    (hempty : ∀ kind, shared.balancer.count kind = 0) {serverIP : UInt32}
    {serverName : List UInt8} {q : Parser L}
    (haccepted : parseConfigFile build file (.start shared serverIP serverName) = .ok q) :
    SectionsIndependent build items (.start shared serverIP serverName) q ↔
      (∀ sec ∈ sectionsOf items, sec.HasIp) ∧
        (countKind .member items ≤ maxServers ∨ countKind .clone items = 0) := by
  unfold parseConfigFile at haccepted
  rw [hfile] at haccepted
  have hstart := between_start shared serverIP serverName
  have hread := partRead_items hstart haccepted
  constructor
  · intro h
    exact ⟨h.hasIp hstart haccepted, h.apart hstart hempty haccepted⟩
  · rintro ⟨hip, hapart⟩
    refine ⟨hread.names, hread.created, ?_, ?_⟩
    · intro before sec after hitems before' after' shared' serverIP' serverName' hdefaults
      obtain ⟨p, hp⟩ := exists_before (hitems ▸ haccepted)
      have hsec : sec ∈ sectionsOf items := by
        rw [hitems]
        exact List.mem_filterMap.mpr ⟨.server sec, by simp, rfl⟩
      exact serverOf_of_hasIp hstart (between_start _ _ _) hp hdefaults (hip sec hsec) _ _
    · intro before sec after hitems kind r hserver
      exact stored_of_apart hstart hempty hapart haccepted hitems hserver

end Independence

/-- There are no servers before the file is read. -/
theorem sampleShared_empty (kind : ServerKind) : sampleShared.balancer.count kind = 0 := by
  cases kind <;> rfl

/-- The server is a clone. -/
def sampleCloneTrue : BodyLine sampleBuild where
  text := ascii "clone = true\n"
  directive := ascii "clone"
  value := some (ascii "true")
  sets := some (.clone, ascii "true")
  noBracket := sampleNoClone.noBracket
  noGlobal := sampleNoClone.noGlobal

/-- The port of the server. -/
def samplePort : BodyLine sampleBuild where
  text := ascii "port = 8080\n"
  directive := ascii "port"
  value := some (ascii "8080")
  sets := some (.port, ascii "8080")

/-- A standby clone. -/
def cloneSection : SectionText sampleBuild where
  header := ascii "[c]\n"
  name := ascii "c"
  body := [sampleCloneTrue, sampleStandby, sampleIp]
  footer := ascii "[/]\n"
  closes := sampleFooter_closes

/-- A member with a port of its own. -/
def portSection : SectionText sampleBuild where
  header := ascii "[b]\n"
  name := ascii "b"
  body := [sampleIp, samplePort]
  footer := ascii "[/]\n"
  closes := sampleFooter_closes

/-- A file with members, a clone and two defaults. -/
def independentItems : List (Item sampleBuild) :=
  [.line ⟨ascii "default_maxc = 7\n", ascii "default_maxc", by decide, by decide⟩,
    .server (sampleSection [sampleIp]), .server cloneSection,
    .line ⟨ascii "default_maxc = 9\n", ascii "default_maxc", by decide, by decide⟩,
    .server portSection]

/-- Its text. -/
def independentFile : List UInt8 := (linesOf independentItems).flatten

set_option maxRecDepth 4000 in
/-- Its sections are independent. -/
theorem sectionsIndependent_sample : ∃ q,
    parseConfigFile sampleBuild independentFile (.start sampleShared 0 []) = .ok q ∧
      (q.shared.balancer.table .member 0).maxc = 7 ∧
      (q.shared.balancer.table .clone 0).standbyState = true ∧
      (q.shared.balancer.table .member 1).maxc = 9 ∧
      SectionsIndependent sampleBuild independentItems (.start sampleShared 0 []) q := by
  have hfile : buffers configRoom independentFile = linesOf independentItems := by decide
  refine ⟨_, rfl, by decide, by decide, by decide,
    (sectionsIndependent_iff hfile sampleShared_empty rfl).mpr ⟨?_, Or.inl (by decide)⟩⟩
  intro sec hsec
  have hcases : sampleSection [sampleIp] = sec ∨ cloneSection = sec ∨ portSection = sec := by
    simpa [independentItems, sectionsOf, Item.section?] using hsec
  rcases hcases with rfl | rfl | rfl
  all_goals exact ⟨ascii "10.0.0.1", by decide⟩

/-- A section without an address. -/
def addresslessSection : SectionText sampleBuild where
  header := ascii "[b]\n"
  name := ascii "b"
  body := []
  footer := ascii "[/]\n"
  closes := sampleFooter_closes

/-- A file with a section of each kind. -/
def inheritingFile : List UInt8 := ascii "[a]\nip = 10.0.0.1\n[/]\n[b]\n[/]\n"

/-- The second server gets the address of the first. -/
theorem address_inherited : ∃ q,
    buffers configRoom inheritingFile =
        linesOf [.server (sampleSection [sampleIp]), .server addresslessSection] ∧
      parseConfigFile sampleBuild inheritingFile (.start sampleShared 0 []) = .ok q ∧
      ¬ SectionsIndependent sampleBuild
        [.server (sampleSection [sampleIp]), .server addresslessSection]
        (.start sampleShared 0 []) q := by
  refine ⟨_, by decide, rfl, fun h => ?_⟩
  have halone := h.ownLines [.server (sampleSection [sampleIp])] addresslessSection [] rfl [] []
    sampleShared 0 [] rfl
  exact absurd (congrArg (Option.map fun call => call.2.serverIP) halone) (by decide)

end OctopusLB
