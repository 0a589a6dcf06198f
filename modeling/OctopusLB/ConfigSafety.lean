/-
# Which configuration files the parsers survive

`strtok` returns `NULL` for a line of equals signs only, and for a value that is
not there; neither is tested before it is used.  The length of a section name
is computed from that of the line and not compared with the room there is; nor is
the number of servers.
`configSurvives_iff`: both parsers get through a file, or report an error,
exactly if no line that they come to is of one of these kinds (`Malformed`,
`OverrunsTables`).
-/
import OctopusLB.ConfigFile

namespace OctopusLB

open CString TextLines

variable {L : Type}

/-! ## Lines -/

/-- The part of a buffer that is a string. -/
def cstr (buffer : List UInt8) : List UInt8 := buffer.takeWhile (· ≠ 0)

/-- The line has no directive: nothing but equals signs. -/
def NoDirective (buffer : List UInt8) : Prop := ∀ b ∈ cstr buffer, b = 61

/-- The directive of a line that has one. -/
def directiveOf (buffer : List UInt8) : List UInt8 :=
  trimWhiteSpace (((cstr buffer).dropWhile (· = 61)).takeWhile (· ≠ 61))

/-- What follows the directive and the equals sign behind it. -/
def afterDirective (buffer : List UInt8) : List UInt8 :=
  (((cstr buffer).dropWhile (· = 61)).dropWhile (· ≠ 61)).drop 1

/-- The line has no value: nothing but blanks and equals signs follow. -/
def NoValue (buffer : List UInt8) : Prop := ∀ b ∈ afterDirective buffer, b = 32 ∨ b = 61

instance (buffer : List UInt8) : Decidable (NoDirective buffer) := List.decidableBAll _ _

instance (buffer : List UInt8) : Decidable (NoValue buffer) := List.decidableBAll _ _

theorem splitLine_of_none {buffer : List UInt8}
    (h : nextToken (· = 61) (buffer.takeWhile (· ≠ 0)) = none) :
    splitLine buffer = ⟨none, none⟩ := by
  unfold splitLine
  rw [h]

theorem splitLine_of_some {buffer directive rest : List UInt8}
    (h : nextToken (· = 61) (buffer.takeWhile (· ≠ 0)) = some (directive, rest)) :
    splitLine buffer = ⟨some (trimWhiteSpace directive),
      (nextToken valueDelimiter rest).map fun t => trimWhiteSpace t.1⟩ := by
  unfold splitLine
  rw [h]

theorem splitLine_of_noDirective {buffer : List UInt8} (h : NoDirective buffer) :
    splitLine buffer = ⟨none, none⟩ :=
  splitLine_of_none (nextToken_eq_none_iff.mpr fun b hb => decide_eq_true (h b hb))

theorem splitLine_of_directive {buffer : List UInt8} (h : ¬ NoDirective buffer) :
    splitLine buffer = ⟨some (directiveOf buffer),
      (nextToken valueDelimiter (afterDirective buffer)).map fun t => trimWhiteSpace t.1⟩ := by
  have hsome := @nextToken_of_not (· = 61) (buffer.takeWhile (· ≠ 0))
    fun hall => h fun b hb => of_decide_eq_true (hall b hb)
  rw [splitLine_of_some hsome]
  simp [directiveOf, afterDirective, cstr]

/-- The value is missing exactly if there is none. -/
theorem value_splitLine_eq_none_iff {buffer : List UInt8} (h : ¬ NoDirective buffer) :
    (splitLine buffer).value = none ↔ NoValue buffer := by
  rw [splitLine_of_directive h, Option.map_eq_none_iff, nextToken_eq_none_iff]
  simp [NoValue, valueDelimiter]

/-! ## Chains -/

/-- Reading has not ended with a report. -/
def Halt.Faulty : Halt → Prop
  | .exit _ _ => False
  | .null => True
  | .badLength _ => True
  | .overrun => True

/-- A round of a loop has crashed. -/
def Faults {σ : Type} (x : Except Halt σ) : Prop := ∃ h, x = .error h ∧ h.Faulty

/-- A directive that does not look at the value accepts any. -/
def Directive.Total {σ : Type} (d : Directive σ) : Prop :=
  d.usesValue = false → ∀ v s, ∃ t, d.apply v s = .ok t

namespace Directive

variable {σ : Type} {d : Directive σ} {chain : List (Directive σ)} {n : ℕ}
  {directive : List UInt8} {s : σ}

theorem not_faulty_of_mapError {x : Except String σ} {h : Halt}
    (he : x.mapError (Halt.exit n) = .error h) : ¬ h.Faulty := by
  cases x with
  | ok t => cases he
  | error message =>
      obtain rfl := Except.error.inj he
      exact id

/-- With a value a directive is applied, or reports an error. -/
theorem run_some (v : List UInt8) {h : Halt} (he : d.run n directive (some v) s = .error h) :
    ¬ h.Faulty := by
  unfold run at he
  split_ifs at he
  · exact not_faulty_of_mapError he
  · exact not_faulty_of_mapError he

/-- Without one, it follows the null pointer if it looks at the value. -/
theorem run_none (hd : d.Total) : d.run n directive none s = .error .null ∧
      hasPrefix d.name directive = true ∧ d.usesValue = true ∨
    (∃ t, d.run n directive none s = .ok t) ∧
      ¬ (hasPrefix d.name directive = true ∧ d.usesValue = true) := by
  unfold run
  split_ifs with hname huse
  · exact Or.inl ⟨rfl, hname, huse⟩
  · obtain ⟨t, ht⟩ := hd (by simpa using huse) [] s
    refine Or.inr ⟨⟨t, ?_⟩, fun hc => huse hc.2⟩
    show (d.apply [] s).mapError (Halt.exit n) = .ok t
    rw [ht]
    rfl
  · exact Or.inr ⟨⟨s, rfl⟩, fun hc => hname hc.1⟩

/-- A chain with a value. -/
theorem runAll_some (v : List UInt8) {h : Halt}
    (he : runAll chain n directive (some v) s = .error h) : ¬ h.Faulty := by
  unfold runAll at he
  induction chain generalizing s with
  | nil => cases he
  | cons d chain ih =>
      rw [List.foldlM_cons] at he
      cases hrun : d.run n directive (some v) s with
      | error h' =>
          rw [hrun] at he
          obtain rfl : h' = h := Except.error.inj he
          exact run_some v hrun
      | ok t =>
          rw [hrun] at he
          exact ih he

/-- Some directive of a chain that looks at the value is reached. -/
def Asked (chain : List (Directive σ)) (directive : List UInt8) : Prop :=
  ∃ d ∈ chain, hasPrefix d.name directive = true ∧ d.usesValue = true

instance (chain : List (Directive σ)) (directive : List UInt8) :
    Decidable (Asked chain directive) := by
  unfold Asked
  infer_instance

/-- A chain without a value. -/
theorem runAll_none (hchain : ∀ d ∈ chain, d.Total) :
    runAll chain n directive none s = .error .null ∧ Asked chain directive ∨
      (∃ t, runAll chain n directive none s = .ok t) ∧ ¬ Asked chain directive := by
  unfold runAll Asked
  induction chain generalizing s with
  | nil => exact Or.inr ⟨⟨s, rfl⟩, fun ⟨d, hd, _⟩ => absurd hd List.not_mem_nil⟩
  | cons d chain ih =>
      rw [List.foldlM_cons]
      have hrest := fun s => @ih s fun d' hd' => hchain d' (List.mem_cons_of_mem d hd')
      rcases run_none (hchain d List.mem_cons_self) with ⟨hrun, hd⟩ | ⟨⟨t, hrun⟩, hd⟩
      · rw [hrun]
        exact Or.inl ⟨rfl, d, List.mem_cons_self, hd⟩
      · rw [hrun]
        rcases hrest t with ⟨he, d', hd', hasked⟩ | ⟨hok, hno⟩
        · exact Or.inl ⟨he, d', List.mem_cons_of_mem d hd', hasked⟩
        · refine Or.inr ⟨hok, ?_⟩
          rintro ⟨d', hd', hasked⟩
          rcases List.mem_cons.mp hd' with rfl | hd'
          · exact hd hasked
          · exact hno ⟨d', hd', hasked⟩

/-- An `if` of a chain is skipped, or applied. -/
theorem run_cases {value : Option (List UInt8)} {t : σ}
    (h : d.run n directive value s = .ok t) :
    (hasPrefix d.name directive = false ∧ s = t) ∨ (hasPrefix d.name directive = true ∧
      ∃ v, (d.usesValue = true → value = some v) ∧ d.apply v s = .ok t) := by
  have happly : ∀ v, (d.apply v s).mapError (Halt.exit n) = .ok t → d.apply v s = .ok t := by
    intro v hv
    cases hr : d.apply v s with
    | error message =>
        rw [hr] at hv
        cases hv
    | ok u =>
        rw [hr] at hv
        rw [Except.ok.inj hv]
  unfold run at h
  split_ifs at h with hname huse
  · cases value with
    | none => cases h
    | some v => exact Or.inr ⟨hname, v, fun _ => rfl, happly v h⟩
  · exact Or.inr ⟨hname, [], fun hc => absurd hc huse, happly [] h⟩
  · exact Or.inl ⟨by simpa using hname, Except.ok.inj h⟩

/-- A chain that does not know the directive. -/
theorem runAll_of_not_matches (hno : ∀ d ∈ chain, hasPrefix d.name directive = false)
    (value : Option (List UInt8)) : runAll chain n directive value s = .ok s := by
  unfold runAll
  induction chain with
  | nil => rfl
  | cons d chain ih =>
      have hrun : d.run n directive value s = .ok s := by
        unfold run
        rw [hno d List.mem_cons_self]
        rfl
      rw [List.foldlM_cons, hrun]
      exact ih fun d' hd' => hno d' (List.mem_cons_of_mem d hd')

/-- **A chain** follows a null pointer exactly if the value is missing and asked
for. -/
theorem runAll_faults_iff (hchain : ∀ d ∈ chain, d.Total) (value : Option (List UInt8)) :
    Faults (runAll chain n directive value s) ↔ value = none ∧ Asked chain directive := by
  cases value with
  | some v =>
      constructor
      · rintro ⟨h, he, hf⟩
        exact absurd hf (runAll_some v he)
      · rintro ⟨hv, -⟩
        cases hv
  | none =>
      rcases runAll_none (n := n) (s := s) hchain with ⟨he, hasked⟩ | ⟨⟨t, hok⟩, hno⟩
      · exact ⟨fun _ => ⟨rfl, hasked⟩, fun _ => ⟨.null, he, trivial⟩⟩
      · constructor
        · rintro ⟨h, he, -⟩
          exact absurd (hok.symm.trans he) nofun
        · rintro ⟨-, hasked⟩
          exact absurd hasked hno

end Directive

/-! ## The two chains -/

theorem total_serverDirectives (build : Build L) :
    ∀ d ∈ ServerSection.directives build, d.Total := by
  intro d hd
  unfold ServerSection.directives at hd
  simp only [List.mem_cons, List.not_mem_nil, or_false] at hd
  rcases hd with rfl | rfl | rfl | rfl | rfl | rfl | rfl <;> exact fun h => nomatch h

theorem total_snmpDirective (name : String) (build : Build L)
    (apply : List UInt8 → Parser L → Except String (Parser L)) :
    (snmpDirective name build apply).Total := by
  intro huse v p
  refine ⟨{ p with errno := false }, ?_⟩
  show (if build.useSnmp then (apply v p).map Parser.logged else .ok { p with errno := false }) = _
  rw [if_neg]
  have hno : build.useSnmp = false := huse
  simp [hno]

theorem total_globalDirectives (build : Build L) :
    ∀ d ∈ GlobalSection.directives build, d.Total := by
  intro d hd
  unfold GlobalSection.directives at hd
  rw [List.mem_cons, List.mem_cons] at hd
  rcases hd with rfl | rfl | hd
  · exact total_snmpDirective _ build _
  · exact total_snmpDirective _ build _
  · -- all others look at their value
    simp only [List.mem_cons, List.not_mem_nil, or_false] at hd
    rcases hd with rfl | rfl | rfl | rfl | rfl | rfl | rfl | rfl | rfl | rfl | rfl | rfl | rfl |
      rfl | rfl | rfl | rfl | rfl | rfl | rfl <;> exact fun h => nomatch h

theorem total_loggingDirectives (build : Build L) (debugLevelOverride : Bool) :
    ∀ d ∈ Logging.directives build debugLevelOverride, d.Total := by
  intro d hd
  unfold Logging.directives at hd
  rw [List.mem_cons, List.mem_singleton] at hd
  rcases hd with rfl | rfl
  · exact fun h => nomatch h
  · intro huse v p
    have hover : debugLevelOverride = true := by simpa [Logging.debugLevel] using huse
    exact ⟨p, if_pos hover⟩

/-- The name of a directive does not start with a bracket. -/
def Directive.Plain {σ : Type} (d : Directive σ) : Prop :=
  (ascii d.name).head?.any (· ≠ 91) = true

theorem not_matches_of_bracket {σ : Type} {d : Directive σ} {directive : List UInt8}
    (hd : d.Plain) (h : hasPrefix "[" directive = true) : hasPrefix d.name directive = false := by
  obtain ⟨rest, rfl⟩ : ∃ rest, directive = 91 :: rest := by
    obtain ⟨rest, heq⟩ := List.isPrefixOf_iff_prefix.mp h
    exact ⟨rest, heq.symm⟩
  unfold Directive.Plain at hd
  unfold hasPrefix
  cases hascii : ascii d.name with
  | nil => simp [hascii] at hd
  | cons b bs =>
      rw [hascii] at hd
      have hb : b ≠ 91 := by simpa using hd
      rw [List.isPrefixOf_cons_cons]
      simp [hb]

theorem plain_serverDirectives (build : Build L) :
    ∀ d ∈ ServerSection.directives build, d.Plain := by
  have hnames : (ServerSection.directives build).map Directive.name =
      ["port", "maxc", "maxl", "statu", "standby", "ip", "clone"] := rfl
  have hplain : ∀ name ∈ ["port", "maxc", "maxl", "statu", "standby", "ip", "clone"],
      (ascii name).head?.any (· ≠ 91) = true := by decide
  intro d hd
  exact hplain d.name (hnames ▸ List.mem_map_of_mem hd)

/-! ## One line of `parse_config_file` -/

/-- A value is asked for by the directives that apply. -/
def AsksValue (build : Build L) (inServerSection : Bool) (directive : List UInt8) : Prop :=
  (inServerSection = true ∧ Directive.Asked (ServerSection.directives build) directive) ∨
    (hasPrefix "[" directive = false ∧ Directive.Asked (GlobalSection.directives build) directive)

/-- A section name without its closing bracket, or one that is too long. -/
def BadName (directive : List UInt8) : Prop :=
  hasPrefix "[" directive = true ∧ hasPrefix "[/" directive = false ∧
    ¬ (2 ≤ directive.length ∧ directive.length ≤ serverNameMaxLength + 2)

/-- The lines that are too much for `parse_config_file`. -/
def Malformed (build : Build L) (inServerSection : Bool) (buffer : List UInt8) : Prop :=
  NoDirective buffer ∨
    (NoValue buffer ∧ AsksValue build inServerSection (directiveOf buffer)) ∨
    BadName (directiveOf buffer)

instance (build : Build L) (inServerSection : Bool) (buffer : List UInt8) :
    Decidable (Malformed build inServerSection buffer) := by
  unfold Malformed AsksValue BadName
  infer_instance

/-- The end of a section. -/
def isFooter (buffer : List UInt8) : Bool := (splitLine buffer).directive.any (hasPrefix "[/")

/-- A line that ends a section for whose server the tables have no room any more. -/
def OverrunsTables (build : Build L) (p : Parser L) (buffer : List UInt8) : Prop :=
  isFooter buffer = true ∧
    Overruns p.shared.balancer (some (build.malloc (p.lineCounter + 1), p.vars.request))

theorem faults_bind_iff {σ τ : Type} {x : Except Halt σ} {f : σ → Except Halt τ} :
    Faults (x >>= f) ↔ Faults x ∨ ∃ s, x = .ok s ∧ Faults (f s) := by
  cases x with
  | error h =>
      constructor
      · rintro ⟨h', he, hf⟩
        exact Or.inl ⟨h', congrArg _ (Except.error.inj he), hf⟩
      · rintro (⟨h', he, hf⟩ | ⟨s, hs, -⟩)
        · exact ⟨h', congrArg _ (Except.error.inj he), hf⟩
        · cases hs
  | ok s =>
      constructor
      · exact fun h => Or.inr ⟨s, rfl, h⟩
      · rintro (⟨h', he, -⟩ | ⟨t, ht, hf⟩)
        · cases he
        · rwa [Except.ok.inj ht]

/-- The end of a section is reached or an error reported, if there is room. -/
theorem faults_endSection_iff [IntCast L] (build : Build L) (p : Parser L) :
    Faults (endSection build p) ↔
      Overruns p.shared.balancer (some (build.malloc p.lineCounter, p.vars.request)) := by
  unfold endSection
  dsimp only [Parser.logged]
  constructor
  · rintro ⟨h, he, hf⟩
    split_ifs at he with hover
    · exact hover
    · obtain rfl := Except.error.inj he
      exact hf.elim
  · intro hover
    exact ⟨.overrun, if_pos hover, trivial⟩

/-- **The end of a section** that is reached: its server has been created in one of
the tables, and the variables are reset. -/
theorem endSection_ok [IntCast L] {build : Build L} {p q : Parser L}
    (h : endSection build p = .ok q) :
    p.vars.request.2.Valid (build.malloc p.lineCounter) ∧
      ¬ PastTables p.vars.request.1 p.shared.balancer ∧
      ∃ shared errno, shared = { p.shared with
          balancer := (createBalancerServer true p.vars.request.1 p.vars.request.2
            p.shared.balancer).1 } ∧
        q = { p with
          shared := shared
          vars := Parser.freshVars shared p.vars.serverIP p.vars.serverName
          inServerSection := false
          errno := errno } := by
  unfold endSection at h
  dsimp only [Parser.logged] at h
  split_ifs at h with hover hfailed
  obtain rfl := Except.ok.inj h
  rcases createBalancerServer_cases (build.malloc p.lineCounter) p.vars.request.1
    p.vars.request.2 p.shared.balancer with ⟨-, -, hneg⟩ | ⟨hvalid, -, -⟩
  · exact absurd hneg hfailed
  · refine ⟨hvalid, fun hpast => hover ⟨_, _, _, rfl, hvalid, hpast⟩, _, p.logged.errno, rfl, ?_⟩
    rw [hvalid.1]
    rfl

theorem faults_startSection_iff (directive : List UInt8) (p : Parser L) :
    Faults (startSection directive p) ↔
      ¬ (2 ≤ directive.length ∧ directive.length ≤ serverNameMaxLength + 2) := by
  unfold startSection nameLength
  split_ifs with hlen
  · constructor
    · rintro ⟨h, he, -⟩
      cases he
    · intro hno
      exact absurd ⟨by omega, by omega⟩ hno
  · constructor
    · rintro - ⟨hlo, hhi⟩
      exact hlen ⟨by omega, by omega⟩
    · exact fun _ => ⟨_, rfl, trivial⟩

/-- A value asked for in a section; if there is none, nothing else goes wrong. -/
theorem faults_sectionPart_iff (build : Build L) (directive : List UInt8)
    (value : Option (List UInt8)) (p : Parser L) :
    Faults (sectionPart build directive value p) ↔ value = none ∧ p.inServerSection = true ∧
      Directive.Asked (ServerSection.directives build) directive := by
  unfold sectionPart
  by_cases hsection : p.inServerSection = true
  · rw [if_pos hsection, Directive.runAll_faults_iff (total_serverDirectives build)]
    simp [hsection]
  · rw [if_neg hsection]
    constructor
    · rintro ⟨h, he, -⟩
      cases he
    · rintro ⟨-, h, -⟩
      exact absurd h hsection

/-- The first half of a round ignores the start and the end of a section. -/
theorem sectionPart_of_bracket (build : Build L) {directive : List UInt8}
    (h : hasPrefix "[" directive = true) (value : Option (List UInt8)) (p : Parser L) :
    sectionPart build directive value p = .ok p := by
  unfold sectionPart
  split_ifs
  · exact Directive.runAll_of_not_matches
      (fun d hd => not_matches_of_bracket (plain_serverDirectives build d hd) h) value
  · rfl

/-- It is passed without a value that is asked for, and by the name of a section. -/
theorem sectionPart_ok (build : Build L) {directive : List UInt8} {value : Option (List UInt8)}
    {p : Parser L} (hno : ¬ Faults (sectionPart build directive value p))
    (h : value = none ∨ hasPrefix "[" directive = true) :
    ∃ q, sectionPart build directive value p = .ok q := by
  rcases h with rfl | hbracket
  · unfold sectionPart at hno ⊢
    by_cases hsection : p.inServerSection = true
    · rw [if_pos hsection] at hno ⊢
      rcases @Directive.runAll_none _ _ p.lineCounter directive p
        (total_serverDirectives build) with ⟨he, -⟩ | ⟨hok, -⟩
      · exact absurd ⟨.null, he, trivial⟩ hno
      · exact hok
    · rw [if_neg hsection]
      exact ⟨p, rfl⟩
  · exact ⟨p, sectionPart_of_bracket build hbracket value p⟩

/-- What starts with `[/` starts with a bracket. -/
theorem bracket_of_end {directive : List UInt8} (h : hasPrefix "[/" directive = true) :
    hasPrefix "[" directive = true := by
  obtain ⟨rest, rfl⟩ := List.isPrefixOf_iff_prefix.mp h
  rfl

theorem not_end_of_noBracket {directive : List UInt8} (h : hasPrefix "[" directive = false) :
    ¬ hasPrefix "[/" directive = true :=
  fun hend => absurd (bracket_of_end hend) (by rw [h]; decide)

theorem faults_globalPart_iff [IntCast L] (build : Build L) (directive : List UInt8)
    (value : Option (List UInt8)) (p : Parser L) :
    Faults (globalPart build directive value p) ↔
      ((value = none ∧ hasPrefix "[" directive = false ∧
        Directive.Asked (GlobalSection.directives build) directive) ∨ BadName directive) ∨
      (hasPrefix "[/" directive = true ∧
        Overruns p.shared.balancer (some (build.malloc p.lineCounter, p.vars.request))) := by
  unfold globalPart BadName
  by_cases hend : hasPrefix "[/" directive = true
  · rw [if_pos hend, faults_endSection_iff]
    simp [hend, bracket_of_end hend]
  · rw [if_neg hend]
    by_cases hbracket : hasPrefix "[" directive = true
    · rw [if_pos hbracket, faults_startSection_iff]
      simp [hend, hbracket]
    · rw [if_neg hbracket, Directive.runAll_faults_iff (total_globalDirectives build)]
      simp [hend, hbracket]

/-- **A line of the configuration file** crashes the parser exactly if it is
malformed, or ends a section for whose server there is no room. -/
theorem faults_parseBuffer_iff [IntCast L] (build : Build L) (p : Parser L)
    (buffer : List UInt8) : Faults (parseBuffer build p buffer) ↔
      Malformed build p.inServerSection buffer ∨ OverrunsTables build p buffer := by
  unfold parseBuffer Malformed OverrunsTables isFooter
  by_cases hno : NoDirective buffer
  · rw [splitLine_of_noDirective hno]
    exact ⟨fun _ => Or.inl (Or.inl hno), fun _ => ⟨.null, rfl, trivial⟩⟩
  have hvalue := value_splitLine_eq_none_iff hno
  have hdirective : (splitLine buffer).directive = some (directiveOf buffer) := by
    rw [splitLine_of_directive hno]
  generalize splitLine buffer = line at hvalue hdirective
  generalize directiveOf buffer = directive at hdirective
  unfold parseLine AsksValue
  rw [hdirective]
  dsimp only
  rw [faults_bind_iff, faults_sectionPart_iff, ← hvalue, Option.any_some]
  generalize hq : ({ p with lineCounter := p.lineCounter + 1 } : Parser L) = q
  have hin : q.inServerSection = p.inServerSection := by rw [← hq]
  have hroom : Overruns p.shared.balancer
      (some (build.malloc (p.lineCounter + 1), p.vars.request)) ↔
        Overruns q.shared.balancer (some (build.malloc q.lineCounter, q.vars.request)) := by
    rw [← hq]
  rw [← hin, hroom]
  constructor
  · rintro (⟨hv, hsection, hasked⟩ | ⟨r, hr, hf⟩)
    · exact Or.inl (Or.inr (Or.inl ⟨hv, Or.inl ⟨hsection, hasked⟩⟩))
    · rcases (faults_globalPart_iff build directive line.value r).mp hf with
        (⟨hv, hasked⟩ | hbad) | ⟨hend, hover⟩
      · exact Or.inl (Or.inr (Or.inl ⟨hv, Or.inr hasked⟩))
      · exact Or.inl (Or.inr (Or.inr hbad))
      · -- the first half has passed the line on
        rw [sectionPart_of_bracket build (bracket_of_end hend)] at hr
        obtain rfl := Except.ok.inj hr
        exact Or.inr ⟨hend, hover⟩
  · -- what goes wrong in the second half is reached
    have hreach : (line.value = none ∧ hasPrefix "[" directive = false ∧
        Directive.Asked (GlobalSection.directives build) directive) ∨ BadName directive →
        ¬ Faults (sectionPart build directive line.value q) →
        ∃ r, sectionPart build directive line.value q = .ok r ∧
          Faults (globalPart build directive line.value r) := by
      intro hf hok
      obtain ⟨r, hr⟩ := sectionPart_ok build hok (hf.imp (fun h => h.1) (fun h => h.1))
      exact ⟨r, hr, (faults_globalPart_iff build directive line.value r).mpr (Or.inl hf)⟩
    rw [faults_sectionPart_iff] at hreach
    intro h
    by_cases hfirst : line.value = none ∧ q.inServerSection = true ∧
        Directive.Asked (ServerSection.directives build) directive
    · exact Or.inl hfirst
    refine Or.inr ?_
    rcases h with (h | ⟨hv, h | h⟩ | hbad) | ⟨hend, hover⟩
    · exact absurd h hno
    · exact absurd ⟨hv, h⟩ hfirst
    · exact hreach (Or.inl ⟨hv, h⟩) hfirst
    · exact hreach (Or.inr hbad) hfirst
    · exact ⟨q, sectionPart_of_bracket build (bracket_of_end hend) _ _,
        (faults_globalPart_iff build directive line.value q).mpr (Or.inr ⟨hend, hover⟩)⟩

/-! ## One line of `initialize_logging` -/

/-- The lines that are too much for `initialize_logging`. -/
def MalformedForLogging (debugLevelOverride : Bool) (buffer : List UInt8) : Prop :=
  NoDirective buffer ∨
    (NoValue buffer ∧ (hasPrefix "log_file" (directiveOf buffer) = true ∨
      (debugLevelOverride = false ∧ hasPrefix "debug_level" (directiveOf buffer) = true)))

theorem asked_loggingDirectives (build : Build L) (debugLevelOverride : Bool)
    (directive : List UInt8) :
    Directive.Asked (Logging.directives build debugLevelOverride) directive ↔
      hasPrefix "log_file" directive = true ∨
        (debugLevelOverride = false ∧ hasPrefix "debug_level" directive = true) := by
  constructor
  · rintro ⟨d, hd, hname, huse⟩
    rcases List.mem_pair.mp hd with rfl | rfl
    · exact Or.inl hname
    · refine Or.inr ⟨?_, hname⟩
      cases debugLevelOverride with
      | false => rfl
      | true => cases huse
  · rintro (hname | ⟨rfl, hname⟩)
    · exact ⟨Logging.logFile build, List.mem_cons_self, hname, rfl⟩
    · exact ⟨Logging.debugLevel false, List.mem_cons_of_mem _ List.mem_cons_self, hname, rfl⟩

theorem faults_loggingBuffer_iff (build : Build L) (debugLevelOverride : Bool)
    (p : LogReader L) (buffer : List UInt8) :
    Faults (loggingBuffer build debugLevelOverride p buffer) ↔
      MalformedForLogging debugLevelOverride buffer := by
  unfold loggingBuffer loggingLine MalformedForLogging
  by_cases hno : NoDirective buffer
  · rw [splitLine_of_noDirective hno]
    exact ⟨fun _ => Or.inl hno, fun _ => ⟨.null, rfl, trivial⟩⟩
  have hvalue := value_splitLine_eq_none_iff hno
  have hdirective : (splitLine buffer).directive = some (directiveOf buffer) := by
    rw [splitLine_of_directive hno]
  generalize splitLine buffer = line at hvalue hdirective
  rw [hdirective]
  dsimp only
  rw [Directive.runAll_faults_iff (total_loggingDirectives build debugLevelOverride), hvalue,
    asked_loggingDirectives]
  exact ⟨Or.inr, fun h => h.resolve_left hno⟩

/-! ## Whole files -/

/-- A parser has got to the end of a file or reported an error. -/
def Survives {σ : Type} (x : Except Halt σ) : Prop := ¬ Faults x

theorem survives_foldlM_iff {σ : Type} {f : σ → List UInt8 → Except Halt σ} {s : σ}
    {file : List (List UInt8)} : Survives (file.foldlM f s) ↔
      ∀ v ∈ (Machine.ofFold f).visits s file, ¬ Faults (f v.1 v.2) := by
  unfold Survives Faults
  constructor
  · rintro h v hv ⟨e, he, hf⟩
    exact h ⟨e, Machine.foldlM_error_iff.mpr ⟨v, hv, he⟩, hf⟩
  · rintro h ⟨e, he, hf⟩
    obtain ⟨v, hv, he'⟩ := Machine.foldlM_error_iff.mp he
    exact h v hv ⟨e, he', hf⟩

/-- **Robustness.**  `parse_config_file` and `initialize_logging` get through a
file, or report an error, exactly if none of the lines that they come to is
malformed, and none ends a section for whose server there is no room. -/
theorem configSurvives_iff [IntCast L] (build : Build L) (shared : Shared L) (serverIP : UInt32)
    (serverName : List UInt8) (debugLevelOverride foreground : Bool) (file : List UInt8) :
    (Survives (parseConfigFile build file (.start shared serverIP serverName)) ↔
        ∀ v ∈ (configMachine build).visits (.start shared serverIP serverName)
          (buffers configRoom file),
            ¬ Malformed build v.1.inServerSection v.2 ∧ ¬ OverrunsTables build v.1 v.2) ∧
      (Survives (initializeLogging build debugLevelOverride file ⟨shared, foreground, 0, false⟩) ↔
        ∀ v ∈ (loggingMachine build debugLevelOverride).visits ⟨shared, foreground, 0, false⟩
          (buffers loggingRoom file), ¬ MalformedForLogging debugLevelOverride v.2) := by
  constructor
  · unfold parseConfigFile
    rw [survives_foldlM_iff]
    simp only [faults_parseBuffer_iff, not_or]
    rfl
  · have hfold : Survives (initializeLogging build debugLevelOverride file
        ⟨shared, foreground, 0, false⟩) ↔ Survives ((buffers loggingRoom file).foldlM
          (loggingBuffer build debugLevelOverride) ⟨shared, foreground, 0, false⟩) := by
      unfold Survives initializeLogging
      rw [faults_bind_iff]
      refine not_congr ⟨fun h => ?_, Or.inl⟩
      rcases h with h | ⟨p, -, e, he, hf⟩
      · exact h
      · split_ifs at he
        obtain rfl := Except.error.inj he
        exact absurd hf id
    rw [hfold, survives_foldlM_iff]
    simp only [faults_loggingBuffer_iff]
    rfl

/-- A directive without its value. -/
theorem null_value_followed :
    ¬ Survives (parseConfigFile sampleBuild (ascii "algorithm\n") (.start sampleShared 0 [])) :=
  fun h => h ⟨.null, rfl, trivial⟩

/-- The name of a section is longer than the array for it. -/
example : ¬ Survives (parseConfigFile sampleBuild (ascii "[a-name-of-17-char]\n")
    (.start sampleShared 0 [])) :=
  fun h => h ⟨.badLength 17, rfl, trivial⟩

end OctopusLB
