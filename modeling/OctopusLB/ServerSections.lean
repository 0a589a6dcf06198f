/-
# Server sections of the configuration file

A section is a header `[name]`, lines each of which sets one of seven settings
or is none of the parser's directives, and a footer `[/]`.  The parser collects
the settings in its variables: a line that sets one is an assignment
(`Setting.assign`), a section the sequence of its assignments
(`foldlM_body`), and its end a call of `create_balancer_server` with what has
been collected (`createCalls_section`).

`sectionOrder_iff`: the lines of a section can be put into any order exactly if
they do not make a server a standby by one line while another says that it is
no clone.
-/
import Mathlib.Data.List.Nodup
import OctopusLB.ConfigSafety

namespace OctopusLB

open CString TextLines

variable {L : Type}

/-! ## Settings -/

/-- The settings of a server section. -/
inductive Setting
  | port
  | maxc
  | maxl
  | status
  | standby
  | ip
  | clone
  deriving DecidableEq

namespace Setting

/-- The settings in the order of the parser's chain. -/
def all : List Setting := [port, maxc, maxl, status, standby, ip, clone]

/-- The `if` of the chain for a setting. -/
def directive (build : Build L) : Setting → Directive (Parser L)
  | port => ServerSection.port
  | maxc => ServerSection.maxc
  | maxl => ServerSection.maxl build
  | status => ServerSection.status
  | standby => ServerSection.standby
  | ip => ServerSection.ip
  | clone => ServerSection.clone

/-- The part of the name that is compared. -/
def name : Setting → String
  | port => "port"
  | maxc => "maxc"
  | maxl => "maxl"
  | status => "statu"
  | standby => "standby"
  | ip => "ip"
  | clone => "clone"

/-- The values that are accepted. -/
def Accepted (build : Build L) : Setting → List UInt8 → Prop
  | port, v => (readDecimal v).erange = false ∧ 0 < toInt (readDecimal v).value ∧
      toInt (readDecimal v).value < 65536
  | maxc, v => (readDecimal v).erange = false ∧ 0 ≤ toInt (readDecimal v).value
  | maxl, v => build.positive (build.atof v) = true
  | status, v => hasPrefix "enabled" v = true ∨ hasPrefix "disabled" v = true
  | standby, v => hasPrefix "true" v = true ∨ hasPrefix "false" v = true
  | ip, v => (inetAton v).isSome = true
  | clone, v => hasPrefix "true" v = true ∨ hasPrefix "false" v = true

instance (build : Build L) (s : Setting) (v : List UInt8) : Decidable (s.Accepted build v) :=
  match s with
  | port => inferInstanceAs (Decidable (_ ∧ _ ∧ _))
  | maxc => inferInstanceAs (Decidable (_ ∧ _))
  | maxl => inferInstanceAs (Decidable (_ = _))
  | status => inferInstanceAs (Decidable (_ ∨ _))
  | standby => inferInstanceAs (Decidable (_ ∨ _))
  | ip => inferInstanceAs (Decidable (_ = _))
  | clone => inferInstanceAs (Decidable (_ ∨ _))

/-- What an accepted value does to the variables. -/
def assign (build : Build L) (vars : ServerVars L) : Setting → List UInt8 → ServerVars L
  | port, v => { vars with serverPort := toInt (readDecimal v).value }
  | maxc, v => { vars with serverMaxc := toInt (readDecimal v).value }
  | maxl, v => { vars with serverMaxl := build.atof v }
  | status, v =>
      { vars with serverStatus := if hasPrefix "enabled" v then .enabled else .disabled }
  | standby, v => { vars with standbyState := hasPrefix "true" v }
  | ip, v => { vars with serverIP := (inetAton v).getD vars.serverIP }
  | clone, v =>
      if hasPrefix "true" v then { vars with serverClone := true }
      else { vars with standbyState := false }

theorem assign_clone_of_true (build : Build L) {v : List UInt8} (h : hasPrefix "true" v = true)
    (vars : ServerVars L) : assign build vars clone v = { vars with serverClone := true } :=
  if_pos h

theorem assign_clone_of_false (build : Build L) {v : List UInt8}
    (h : hasPrefix "true" v = false) (vars : ServerVars L) :
    assign build vars clone v = { vars with standbyState := false } :=
  if_neg (by rw [h]; decide)

theorem assign_ip_of_some (build : Build L) {v : List UInt8} {a : UInt32}
    (h : inetAton v = some a) (vars : ServerVars L) :
    assign build vars ip v = { vars with serverIP := a } := by
  show { vars with serverIP := (inetAton v).getD vars.serverIP } = _
  rw [h]
  rfl

theorem mem_all (s : Setting) : s ∈ all := by cases s <;> decide

theorem nodup_all : all.Nodup := by decide

theorem directives_eq (build : Build L) :
    ServerSection.directives build = all.map (directive build) := rfl

@[simp] theorem name_directive (build : Build L) (s : Setting) :
    (s.directive build).name = s.name := by cases s <;> rfl

@[simp] theorem usesValue_directive (build : Build L) (s : Setting) :
    (s.directive build).usesValue = true := by cases s <;> rfl

/-- A directive is one for at most one setting. -/
theorem eq_of_hasPrefix {s t : Setting} {d : List UInt8} (hs : hasPrefix s.name d = true)
    (ht : hasPrefix t.name d = true) : s = t := by
  have hnames : ∀ s t : Setting, ascii s.name <+: ascii t.name → s = t := by
    intro s t
    cases s <;> cases t <;> decide
  rcases List.prefix_or_prefix_of_prefix (List.isPrefixOf_iff_prefix.mp hs)
    (List.isPrefixOf_iff_prefix.mp ht) with h | h
  · exact hnames s t h
  · exact (hnames t s h).symm

/-- What a directive of a section has set is what is left, but for `errno`. -/
theorem exists_errno_of_set {x : Except String (ServerVars L × Bool)} (p : Parser L)
    {vars : ServerVars L} (errno : Bool) (h : x = .ok (vars, errno)) :
    ∃ e, (x.map fun r => { p with vars := r.1, errno := r.2 }.logged) =
      .ok { p with vars := vars, errno := e } := by
  rw [h]
  exact ⟨errno && p.shared.debugLevel ≤ 0, rfl⟩

/-- **An accepted value** is assigned, whatever `errno` is, and nothing else
changes. -/
theorem apply_of_accepted {build : Build L} {s : Setting} {v : List UInt8}
    (h : s.Accepted build v) (p : Parser L) : ∃ e, (s.directive build).apply v p =
      .ok { p with vars := s.assign build p.vars v, errno := e } := by
  cases s with
  | port =>
      obtain ⟨herange, hrange⟩ := h
      refine exists_errno_of_set p false ?_
      simp [herange, hrange, assign]
  | maxc =>
      obtain ⟨herange, hrange⟩ := h
      refine exists_errno_of_set p false ?_
      simp [herange, hrange, assign]
  | maxl =>
      refine exists_errno_of_set p (p.errno || build.atofRange v) ?_
      exact if_pos h
  | status =>
      refine exists_errno_of_set p p.errno ?_
      rcases h with h | h
      · simp [h, assign]
      · by_cases henabled : hasPrefix "enabled" v = true
        · simp [henabled, assign]
        · simp [henabled, h, assign]
  | standby =>
      refine exists_errno_of_set p p.errno ?_
      rcases h with h | h
      · simp [h, assign]
      · by_cases htrue : hasPrefix "true" v = true
        · simp [htrue, assign]
        · simp [htrue, h, assign]
  | ip =>
      obtain ⟨a, ha⟩ := Option.isSome_iff_exists.mp h
      refine exists_errno_of_set p p.errno ?_
      simp [ha, assign]
  | clone =>
      refine exists_errno_of_set p p.errno ?_
      by_cases htrue : hasPrefix "true" v = true
      · simp [htrue, assign]
      · simp [htrue, h.resolve_left htrue, assign]

/-- Other settings ignore the line. -/
theorem runAll_of_not_mem (build : Build L) {s : Setting} {settings : List Setting}
    (hnot : s ∉ settings) {d : List UInt8} (hs : hasPrefix s.name d = true) (n : ℕ)
    (value : Option (List UInt8)) (p : Parser L) :
    Directive.runAll (settings.map (directive build)) n d value p = .ok p := by
  refine Directive.runAll_of_not_matches (fun e he => ?_) value
  obtain ⟨t, ht, rfl⟩ := List.mem_map.mp he
  rw [name_directive, ← Bool.not_eq_true]
  intro hmatch
  exact hnot (eq_of_hasPrefix hs hmatch ▸ ht)

/-- **The chain** of a section on a line that sets one of the settings. -/
theorem runAll_of_accepted {build : Build L} {s : Setting} {d v : List UInt8}
    (hs : hasPrefix s.name d = true) (h : s.Accepted build v) (n : ℕ) (p : Parser L) :
    ∃ e, Directive.runAll (ServerSection.directives build) n d (some v) p =
      .ok { p with vars := s.assign build p.vars v, errno := e } := by
  obtain ⟨before, after, hall⟩ := List.append_of_mem (mem_all s)
  have hnodup : (before ++ s :: after).Nodup := hall ▸ nodup_all
  rw [List.nodup_append] at hnodup
  have hbefore : s ∉ before := fun hmem => hnodup.2.2 s hmem s List.mem_cons_self rfl
  have hafter : s ∉ after := (List.nodup_cons.mp hnodup.2.1).1
  obtain ⟨e, happly⟩ := apply_of_accepted h p
  have hrun : (s.directive build).run n d (some v) p =
      .ok { p with vars := s.assign build p.vars v, errno := e } := by
    unfold Directive.run
    rw [name_directive, if_pos hs, usesValue_directive, if_pos rfl]
    show ((s.directive build).apply v p).mapError (Halt.exit n) = _
    rw [happly]
    rfl
  refine ⟨e, ?_⟩
  have hfirst := runAll_of_not_mem build hbefore hs n (some v) p
  have hlast := runAll_of_not_mem build hafter hs n (some v)
    { p with vars := s.assign build p.vars v, errno := e }
  rw [directives_eq, hall, List.map_append, List.map_cons]
  unfold Directive.runAll at hfirst hlast ⊢
  rw [List.foldlM_append, hfirst]
  show List.foldlM _ p _ = _
  rw [List.foldlM_cons, hrun]
  exact hlast

end Setting

/-! ## Lines -/

/-- What a line of a section means: it sets one of the settings to an accepted
value, or none of the directives of a section is recognised, as in a comment. -/
def Means (build : Build L) (directive : List UInt8) (value : Option (List UInt8)) :
    Option (Setting × List UInt8) → Prop
  | none => ∀ s : Setting, hasPrefix s.name directive = false
  | some (s, v) => hasPrefix s.name directive = true ∧ value = some v ∧ s.Accepted build v

instance (build : Build L) (directive : List UInt8) (value : Option (List UInt8))
    (sets : Option (Setting × List UInt8)) : Decidable (Means build directive value sets) :=
  match sets with
  | none => decidable_of_iff (∀ s ∈ Setting.all, hasPrefix s.name directive = false)
      ⟨fun h s => h s s.mem_all, fun h s _ => h s⟩
  | some _ => inferInstanceAs (Decidable (_ ∧ _ ∧ _))

/-- A line between the header and the footer of a section. -/
structure BodyLine (build : Build L) where
  text : List UInt8
  directive : List UInt8
  value : Option (List UInt8)
  sets : Option (Setting × List UInt8)
  splits : splitLine text = ⟨some directive, value⟩ := by decide
  means : Means build directive value sets := by decide
  noBracket : hasPrefix "[" directive = false := by decide
  noGlobal : ∀ d ∈ GlobalSection.directives build, hasPrefix d.name directive = false := by
    decide +kernel

/-- A header `[name]`, the lines of the section, and a footer `[/]`. -/
structure SectionText (build : Build L) where
  header : List UInt8
  name : List UInt8
  body : List (BodyLine build)
  footer : List UInt8
  opens : (splitLine header).directive = some (91 :: (name ++ [93])) := by decide
  noSlash : name.head? ≠ some 47 := by decide
  fits : name.length ≤ serverNameMaxLength := by decide
  closes : (splitLine footer).directive.any (hasPrefix "[/") = true := by decide

/-- The lines of a section as they are in the file. -/
def SectionText.lines {build : Build L} (sec : SectionText build) : List (List UInt8) :=
  sec.header :: (sec.body.map BodyLine.text ++ [sec.footer])

/-- The name of the server, padded to the length of the array. -/
def SectionText.serverName {build : Build L} (sec : SectionText build) : List UInt8 :=
  sec.name ++ List.replicate (serverNameMaxLength - sec.name.length) 0

/-- The settings that lines set. -/
def assignments {build : Build L} (body : List (BodyLine build)) : List (Setting × List UInt8) :=
  body.filterMap BodyLine.sets

/-- One assignment after the other. -/
def collect (build : Build L) (vars : ServerVars L) (settings : List (Setting × List UInt8)) :
    ServerVars L :=
  settings.foldl (fun vars a => a.1.assign build vars a.2) vars

/-- What the variables are at the end of a section. -/
def SectionText.collected {build : Build L} (sec : SectionText build) (vars : ServerVars L) :
    ServerVars L :=
  collect build { vars with serverName := sec.serverName } (assignments sec.body)

/-- The name is that of the header. -/
theorem serverName_collect (build : Build L) (vars : ServerVars L)
    (settings : List (Setting × List UInt8)) :
    (collect build vars settings).serverName = vars.serverName := by
  unfold collect
  induction settings generalizing vars with
  | nil => rfl
  | cons a settings ih =>
      rw [List.foldl_cons, ih]
      obtain ⟨s, v⟩ := a
      cases s with
      | clone =>
          cases htrue : hasPrefix "true" v with
          | true => rw [Setting.assign_clone_of_true build htrue]
          | false => rw [Setting.assign_clone_of_false build htrue]
      | _ => rfl

/-! ## The parser on a section -/

section Parsing

variable {build : Build L}

/-- The first half of a round on a line of a section. -/
theorem sectionPart_body (l : BodyLine build) {p : Parser L} (hp : p.inServerSection = true) :
    ∃ e, sectionPart build l.directive l.value p =
      .ok { p with vars := collect build p.vars l.sets.toList, errno := e } := by
  have hmeans := l.means
  unfold sectionPart
  rw [if_pos hp]
  cases hsets : l.sets with
  | none =>
      rw [hsets] at hmeans
      refine ⟨p.errno, Directive.runAll_of_not_matches (fun d hd => ?_) _⟩
      rw [Setting.directives_eq] at hd
      obtain ⟨s, -, rfl⟩ := List.mem_map.mp hd
      rw [Setting.name_directive]
      exact hmeans s
  | some a =>
      rw [hsets] at hmeans
      obtain ⟨hname, hvalue, haccepted⟩ := hmeans
      rw [hvalue]
      exact Setting.runAll_of_accepted hname haccepted p.lineCounter p

/-- A header is no footer. -/
theorem not_end_header (sec : SectionText build) :
    ¬ hasPrefix "[/" (91 :: (sec.name ++ [93])) = true := by
  have hno := sec.noSlash
  cases hname : sec.name with
  | nil => decide
  | cons b bs =>
      rw [hname] at hno
      intro h
      obtain ⟨rest, hrest⟩ := List.isPrefixOf_iff_prefix.mp h
      exact hno (congrArg some (List.cons.inj (List.cons.inj hrest).2).1.symm)

variable [IntCast L]

/-- A round whose first half reports no error. -/
theorem parseBuffer_of_sectionPart {buffer directive : List UInt8}
    (hsplit : (splitLine buffer).directive = some directive) {p q : Parser L}
    (h : sectionPart build directive (splitLine buffer).value
      { p with lineCounter := p.lineCounter + 1 } = .ok q) :
    parseBuffer build p buffer = globalPart build directive (splitLine buffer).value q := by
  unfold parseBuffer parseLine
  rw [hsplit]
  dsimp only
  rw [h]
  rfl

/-- **A line of a section** assigns what it sets. -/
theorem parseBuffer_body (l : BodyLine build) {p : Parser L} (hp : p.inServerSection = true) :
    ∃ e, parseBuffer build p l.text = .ok { p with
      vars := collect build p.vars l.sets.toList, lineCounter := p.lineCounter + 1, errno := e } := by
  have hp' : ({ p with lineCounter := p.lineCounter + 1 } : Parser L).inServerSection = true := hp
  obtain ⟨e, hsection⟩ := sectionPart_body l hp'
  have hvalue : (splitLine l.text).value = l.value := congrArg ConfigLine.value l.splits
  refine ⟨e, ?_⟩
  rw [parseBuffer_of_sectionPart (congrArg ConfigLine.directive l.splits)
    (by rw [hvalue]; exact hsection)]
  unfold globalPart
  rw [if_neg (not_end_of_noBracket l.noBracket), l.noBracket, if_neg (by decide)]
  exact Directive.runAll_of_not_matches l.noGlobal _

/-- **The lines of a section**, one after the other. -/
theorem foldlM_body (body : List (BodyLine build)) {p : Parser L} (hp : p.inServerSection = true) :
    ∃ e, (body.map BodyLine.text).foldlM (parseBuffer build) p = .ok { p with
      vars := collect build p.vars (assignments body)
      lineCounter := p.lineCounter + body.length
      errno := e } := by
  induction body generalizing p with
  | nil => exact ⟨p.errno, rfl⟩
  | cons l body ih =>
      obtain ⟨e, hline⟩ := parseBuffer_body l hp
      obtain ⟨e', hrest⟩ := @ih { p with
        vars := collect build p.vars l.sets.toList
        lineCounter := p.lineCounter + 1
        errno := e } hp
      refine ⟨e', ?_⟩
      rw [List.map_cons, List.foldlM_cons, hline]
      refine hrest.trans ?_
      have hcollect : collect build (collect build p.vars l.sets.toList) (assignments body) =
          collect build p.vars (assignments (l :: body)) := by
        unfold collect assignments
        rw [← List.foldl_append, List.filterMap_cons]
        cases l.sets <;> rfl
      rw [hcollect, List.length_cons, Nat.add_assoc, Nat.add_comm 1]

/-- A line that starts or ends a section. -/
theorem parseBuffer_bracket {buffer directive : List UInt8}
    (hsplit : (splitLine buffer).directive = some directive)
    (h : hasPrefix "[" directive = true) (p : Parser L) :
    parseBuffer build p buffer = globalPart build directive (splitLine buffer).value
      { p with lineCounter := p.lineCounter + 1 } :=
  parseBuffer_of_sectionPart hsplit (sectionPart_of_bracket build h _ _)

/-- **The header** of a section. -/
theorem parseBuffer_header (sec : SectionText build) (p : Parser L) :
    ∃ e, parseBuffer build p sec.header = .ok { p with
      vars := { p.vars with serverName := sec.serverName }
      inServerSection := true
      lineCounter := p.lineCounter + 1
      errno := e } := by
  have hlength : nameLength (91 :: (sec.name ++ [93])) = sec.name.length := by
    unfold nameLength
    rw [List.length_cons, List.length_append, List.length_singleton]
    omega
  have hfits : 0 ≤ nameLength (91 :: (sec.name ++ [93])) ∧
      nameLength (91 :: (sec.name ++ [93])) ≤ serverNameMaxLength := by
    rw [hlength]
    exact ⟨Int.natCast_nonneg _, Int.ofNat_le.mpr sec.fits⟩
  have hname : ((91 :: (sec.name ++ [93])).drop 1).take ((91 :: (sec.name ++ [93])).length - 2) =
      sec.name := by simp
  refine ⟨p.errno && p.shared.debugLevel ≤ 0, ?_⟩
  rw [parseBuffer_bracket sec.opens rfl]
  unfold globalPart
  rw [if_neg (not_end_header sec)]
  show startSection (91 :: (sec.name ++ [93])) { p with lineCounter := p.lineCounter + 1 } = _
  unfold startSection
  rw [if_pos hfits, hname]
  rfl

/-- **The footer**. -/
theorem parseBuffer_footer (sec : SectionText build) (p : Parser L) :
    parseBuffer build p sec.footer =
      endSection build { p with lineCounter := p.lineCounter + 1 } := by
  obtain ⟨directive, hsplit, hend⟩ := (Option.any_eq_true _ _).mp sec.closes
  rw [parseBuffer_bracket hsplit (bracket_of_end hend)]
  unfold globalPart
  rw [if_pos hend]

/-- A section up to its footer. -/
theorem foldlM_front (sec : SectionText build) (p : Parser L) :
    ∃ e, (sec.header :: sec.body.map BodyLine.text).foldlM (parseBuffer build) p = .ok { p with
      vars := sec.collected p.vars
      inServerSection := true
      lineCounter := p.lineCounter + 1 + sec.body.length
      errno := e } := by
  obtain ⟨e, hheader⟩ := parseBuffer_header sec p
  obtain ⟨e', hbody⟩ := @foldlM_body _ build _ sec.body { p with
    vars := { p.vars with serverName := sec.serverName }
    inServerSection := true
    lineCounter := p.lineCounter + 1
    errno := e } rfl
  refine ⟨e', ?_⟩
  rw [List.foldlM_cons, hheader]
  exact hbody

/-- **A section as a whole**: its end is reached with what has been collected. -/
theorem foldlM_section (sec : SectionText build) (p : Parser L) :
    ∃ e, sec.lines.foldlM (parseBuffer build) p = endSection build { p with
      vars := sec.collected p.vars
      inServerSection := true
      lineCounter := p.lineCounter + 1 + sec.body.length + 1
      errno := e } := by
  obtain ⟨e, hfront⟩ := foldlM_front sec p
  refine ⟨e, ?_⟩
  unfold SectionText.lines
  rw [← List.cons_append, List.foldlM_append, hfront]
  show [sec.footer].foldlM (parseBuffer build) _ = _
  rw [List.foldlM_cons, parseBuffer_footer]
  exact bind_pure _

/-- The calls of `create_balancer_server` while some lines are read: the server
kind and the other arguments. -/
def createCalls (build : Build L) (p : Parser L) (lines : List (List UInt8)) :
    List (ServerKind × CreateRequest L) :=
  ((configMachine build).visits p lines).filterMap fun v =>
    if (splitLine v.2).directive.any (hasPrefix "[/") then some v.1.vars.request else none

/-- The calls of one part of a file come before those of the next. -/
theorem createCalls_append {p q : Parser L} {lines : List (List UInt8)}
    (h : lines.foldlM (parseBuffer build) p = .ok q) (more : List (List UInt8)) :
    createCalls build p (lines ++ more) = createCalls build p lines ++ createCalls build q more := by
  unfold createCalls
  rw [(configMachine build).visits_append (Machine.run_ofFold_eq_some.mpr h), List.filterMap_append]

/-- Only a footer calls it. -/
theorem createCalls_eq_nil {lines : List (List UInt8)}
    (h : ∀ l ∈ lines, ¬ (splitLine l).directive.any (hasPrefix "[/") = true) (p : Parser L) :
    createCalls build p lines = [] := by
  unfold createCalls
  rw [List.filterMap_eq_nil_iff]
  intro v hv
  exact if_neg (h v.2 ((configMachine build).mem_of_mem_visits hv))

/-- A footer does call it. -/
theorem createCalls_footer {l : List UInt8}
    (h : (splitLine l).directive.any (hasPrefix "[/") = true) (p : Parser L) :
    createCalls build p [l] = [p.vars.request] := by
  unfold createCalls
  cases hstep : (configMachine build).step p l with
  | none =>
      rw [(configMachine build).visits_cons_of_stuck hstep]
      simp [h]
  | some q =>
      rw [(configMachine build).visits_cons_of_step hstep]
      simp [h]

/-- Whatever comes after it. -/
theorem createCalls_cons_footer {l : List UInt8}
    (h : (splitLine l).directive.any (hasPrefix "[/") = true) (p : Parser L)
    (lines : List (List UInt8)) :
    ∃ rest, createCalls build p (l :: lines) = p.vars.request :: rest := by
  unfold createCalls Machine.visits
  exact ⟨_, List.filterMap_cons_some (if_pos h)⟩

/-- **A section calls it once**, with what has been collected. -/
theorem createCalls_section (sec : SectionText build) (p : Parser L) :
    createCalls build p sec.lines = [(sec.collected p.vars).request] := by
  have hquiet : ∀ l ∈ sec.header :: sec.body.map BodyLine.text,
      ¬ (splitLine l).directive.any (hasPrefix "[/") = true := by
    intro l hl
    rcases List.mem_cons.mp hl with rfl | hl
    · rw [sec.opens]
      exact not_end_header sec
    · obtain ⟨line, -, rfl⟩ := List.mem_map.mp hl
      rw [line.splits]
      exact not_end_of_noBracket line.noBracket
  obtain ⟨e, hfront⟩ := foldlM_front sec p
  unfold SectionText.lines
  rw [← List.cons_append, createCalls_append hfront, createCalls_eq_nil hquiet,
    createCalls_footer sec.closes]
  rfl

end Parsing

/-! ## Samples -/

/-- The address of the server. -/
def sampleIp : BodyLine sampleBuild where
  text := ascii "ip = 10.0.0.1\n"
  directive := ascii "ip"
  value := some (ascii "10.0.0.1")
  sets := some (.ip, ascii "10.0.0.1")

/-- The server is a standby. -/
def sampleStandby : BodyLine sampleBuild where
  text := ascii "standby = true\n"
  directive := ascii "standby"
  value := some (ascii "true")
  sets := some (.standby, ascii "true")

/-- The server is no clone. -/
def sampleNoClone : BodyLine sampleBuild where
  text := ascii "clone = false\n"
  directive := ascii "clone"
  value := some (ascii "false")
  sets := some (.clone, ascii "false")

theorem sampleFooter_closes :
    (splitLine (ascii "[/]\n")).directive.any (hasPrefix "[/") = true := by
  decide

/-- A section with those lines. -/
def sampleSection (body : List (BodyLine sampleBuild)) : SectionText sampleBuild where
  header := ascii "[a]\n"
  name := ascii "a"
  body := body
  footer := ascii "[/]\n"
  closes := sampleFooter_closes

/-! ## The order of the lines -/

/-- A line says that the server is no clone, and another that it is a standby. -/
def Clash (a b : Setting × List UInt8) : Prop :=
  (a.1 = .clone ∧ hasPrefix "true" a.2 = false) ∧ b.1 = .standby ∧ hasPrefix "true" b.2 = true

/-- The line about the clone and one about something else. -/
theorem assign_clone_comm (build : Build L) {t : Setting} {v w : List UInt8} (hne : t ≠ .clone)
    (hno : ¬ Clash (.clone, v) (t, w)) (vars : ServerVars L) :
    t.assign build (Setting.clone.assign build vars v) w =
      Setting.clone.assign build (t.assign build vars w) v := by
  cases htrue : hasPrefix "true" v with
  | true =>
      rw [Setting.assign_clone_of_true build htrue, Setting.assign_clone_of_true build htrue]
      cases t <;> first | rfl | exact absurd rfl hne
  | false =>
      rw [Setting.assign_clone_of_false build htrue, Setting.assign_clone_of_false build htrue]
      cases t with
      | clone => exact absurd rfl hne
      | standby =>
          -- both lines say that it is no standby
          have hw : hasPrefix "true" w = false := by
            rw [← Bool.not_eq_true]
            exact fun hw => hno ⟨⟨rfl, htrue⟩, rfl, hw⟩
          show ({ vars with standbyState := hasPrefix "true" w } : ServerVars L) = _
          rw [hw]
          rfl
      | _ => rfl

/-- **Two settings** can be assigned in either order, unless they clash. -/
theorem assign_comm (build : Build L) {a b : Setting × List UInt8} (hne : a.1 ≠ b.1)
    (hab : ¬ Clash a b) (hba : ¬ Clash b a) (vars : ServerVars L) :
    b.1.assign build (a.1.assign build vars a.2) b.2 =
      a.1.assign build (b.1.assign build vars b.2) a.2 := by
  obtain ⟨s, v⟩ := a
  obtain ⟨t, w⟩ := b
  by_cases hs : s = .clone
  · subst hs
    exact assign_clone_comm build (Ne.symm hne) hab vars
  · by_cases ht : t = .clone
    · subst ht
      exact (assign_clone_comm build hne hba vars).symm
    · -- each writes a variable of its own
      cases s <;> cases t <;> first | rfl | exact absurd rfl hs | exact absurd rfl ht |
        exact absurd rfl hne

/-- **Any order** of assignments that do not clash gives the same. -/
theorem collect_perm (build : Build L) {settings settings' : List (Setting × List UInt8)}
    (hperm : settings'.Perm settings) (honce : (settings.map Prod.fst).Nodup)
    (hno : ∀ a ∈ settings, ∀ b ∈ settings, ¬ Clash a b) (vars : ServerVars L) :
    collect build vars settings' = collect build vars settings := by
  refine hperm.foldl_eq' (fun a ha b hb vars => ?_) vars
  have ha' := hperm.mem_iff.mp ha
  have hb' := hperm.mem_iff.mp hb
  by_cases heq : a.1 = b.1
  · rw [List.inj_on_of_nodup_map honce ha' hb' heq]
  · exact assign_comm build heq (hno a ha' b hb') (hno b hb' a ha') vars

/-- A setting other than the two of a clash leaves the standby state alone. -/
theorem standbyState_assign (build : Build L) {s : Setting} (hstandby : s ≠ .standby)
    (hclone : s ≠ .clone) (vars : ServerVars L) (v : List UInt8) :
    (s.assign build vars v).standbyState = vars.standbyState := by
  cases s <;> first | rfl | exact absurd rfl hstandby | exact absurd rfl hclone

theorem standbyState_collect (build : Build L) {settings : List (Setting × List UInt8)}
    (h : ∀ a ∈ settings, a.1 ≠ .standby ∧ a.1 ≠ .clone) (vars : ServerVars L) :
    (collect build vars settings).standbyState = vars.standbyState := by
  unfold collect
  induction settings generalizing vars with
  | nil => rfl
  | cons a settings ih =>
      rw [List.forall_mem_cons] at h
      rw [List.foldl_cons, ih h.2, standbyState_assign build h.1.1 h.1.2]

/-- Two versions of a section create the same server: the call is the same, and
what it leaves in the shared memory, or the error that ends reading. -/
def SameServer [IntCast L] (build : Build L) (p : Parser L) (sec sec' : SectionText build) :
    Prop :=
  createCalls build p sec.lines = createCalls build p sec'.lines ∧
    (sec.lines.foldlM (parseBuffer build) p).map Parser.shared =
      (sec'.lines.foldlM (parseBuffer build) p).map Parser.shared

/-- What is collected decides. -/
theorem sameServer_of_collected [IntCast L] {build : Build L} {p : Parser L}
    {sec sec' : SectionText build} (h : sec.collected p.vars = sec'.collected p.vars)
    (hlength : sec.body.length = sec'.body.length) : SameServer build p sec sec' := by
  obtain ⟨e, hsec⟩ := foldlM_section sec p
  obtain ⟨e', hsec'⟩ := foldlM_section sec' p
  refine ⟨?_, ?_⟩
  · rw [createCalls_section, createCalls_section, h]
  · rw [hsec, hsec', h, hlength]
    unfold endSection
    dsimp only [Parser.logged]
    split_ifs <;> rfl

/-- What the calls of two versions agree on, if they create the same server. -/
theorem standbyState_of_sameServer [IntCast L] {build : Build L} {p : Parser L}
    {sec sec' : SectionText build} (h : SameServer build p sec sec') :
    (sec.collected p.vars).standbyState = (sec'.collected p.vars).standbyState := by
  have hcalls := h.1
  rw [createCalls_section, createCalls_section] at hcalls
  exact congrArg (fun call => call.2.standbyState) (List.cons.inj hcalls).1

/-- Two lines can be moved to the front. -/
theorem exists_perm_cons_cons {α : Type} {x y : α} {xs : List α} (hx : x ∈ xs) (hy : y ∈ xs)
    (hne : x ≠ y) : ∃ rest, (x :: y :: rest).Perm xs := by
  obtain ⟨before, after, rfl⟩ := List.append_of_mem hx
  have hmem : y ∈ before ++ after := by
    rw [List.mem_append, List.mem_cons] at hy
    rw [List.mem_append]
    exact hy.imp_right fun h => h.resolve_left hne.symm
  obtain ⟨before', after', heq⟩ := List.append_of_mem hmem
  refine ⟨before' ++ after', ?_⟩
  have hy' : (y :: (before' ++ after')).Perm (before ++ after) := by
    rw [heq]
    exact List.perm_middle.symm
  exact (hy'.cons x).trans List.perm_middle.symm

/-- Two settings that clash, and then others: the last of the two decides. -/
theorem standbyState_clash (build : Build L) {a b : Setting × List UInt8} (hclash : Clash a b)
    {settings : List (Setting × List UInt8)}
    (hquiet : ∀ c ∈ settings, c.1 ≠ .standby ∧ c.1 ≠ .clone) (vars : ServerVars L) :
    (collect build vars (a :: b :: settings)).standbyState = true ∧
      (collect build vars (b :: a :: settings)).standbyState = false := by
  obtain ⟨hclone, hstandby⟩ := hclash
  have htail := fun vars => standbyState_collect build hquiet vars
  unfold collect at htail ⊢
  rw [List.foldl_cons, List.foldl_cons, htail, List.foldl_cons, List.foldl_cons, htail]
  constructor
  · rw [hstandby.1]
    exact hstandby.2
  · rw [hclone.1, Setting.assign_clone_of_false build hclone.2]

/-- **Order of the lines of a section.**  If each setting is set once at most, to
an accepted value, the lines can be put into any order exactly if none of them
says that the server is no clone while another says that it is a standby. -/
theorem sectionOrder_iff [IntCast L] (build : Build L) (p : Parser L) (sec : SectionText build)
    (honce : ((assignments sec.body).map Prod.fst).Nodup) :
    (∀ body, body.Perm sec.body → SameServer build p { sec with body := body } sec) ↔
      ∀ a ∈ assignments sec.body, ∀ b ∈ assignments sec.body, ¬ Clash a b := by
  constructor
  · intro h a ha b hb hclash
    obtain ⟨l, hl, hla⟩ := List.mem_filterMap.mp ha
    obtain ⟨l', hl', hlb⟩ := List.mem_filterMap.mp hb
    have hne : l ≠ l' := by
      rintro rfl
      have heq : a = b := Option.some.inj (hla.symm.trans hlb)
      have hsetting : Setting.clone = .standby := by rw [← hclash.1.1, heq, hclash.2.1]
      cases hsetting
    -- the two lines first, in either order
    obtain ⟨rest, hperm⟩ := exists_perm_cons_cons hl hl' hne
    have hswap : (l' :: l :: rest).Perm sec.body := (List.Perm.swap l l' rest).trans hperm
    have hset : assignments (l :: l' :: rest) = a :: b :: assignments rest := by
      unfold assignments
      rw [List.filterMap_cons_some hla, List.filterMap_cons_some hlb]
    have hset' : assignments (l' :: l :: rest) = b :: a :: assignments rest := by
      unfold assignments
      rw [List.filterMap_cons_some hlb, List.filterMap_cons_some hla]
    -- no other line sets the standby state
    have hnodup : ((assignments (l :: l' :: rest)).map Prod.fst).Nodup :=
      ((hperm.filterMap BodyLine.sets).map Prod.fst).nodup_iff.mpr honce
    rw [hset, List.map_cons, List.map_cons, List.nodup_cons, List.nodup_cons, hclash.1.1,
      hclash.2.1] at hnodup
    have hquiet : ∀ c ∈ assignments rest, c.1 ≠ .standby ∧ c.1 ≠ .clone := by
      intro c hc
      have hc' : c.1 ∈ (assignments rest).map Prod.fst := List.mem_map_of_mem hc
      exact ⟨fun heq => hnodup.2.1 (heq ▸ hc'),
        fun heq => hnodup.1 (List.mem_cons_of_mem _ (heq ▸ hc'))⟩
    have hsame := (standbyState_of_sameServer (h _ hperm)).trans
      (standbyState_of_sameServer (h _ hswap)).symm
    have hlast := standbyState_clash build hclash hquiet
      { p.vars with serverName := sec.serverName }
    rw [← hset, ← hset'] at hlast
    exact absurd (hlast.1.symm.trans (hsame.trans hlast.2)) (by decide)
  · intro h body hperm
    have hsettings : (assignments body).Perm (assignments sec.body) :=
      hperm.filterMap BodyLine.sets
    exact sameServer_of_collected (collect_perm build hsettings honce h _) hperm.length_eq

/-- Two lines that do not clash. -/
theorem sectionOrder_sample :
    ((assignments (sampleSection [sampleIp, sampleStandby]).body).map Prod.fst).Nodup ∧
      ((∀ body, body.Perm (sampleSection [sampleIp, sampleStandby]).body →
          SameServer sampleBuild (.start sampleShared 0 []) (sampleSection body)
            (sampleSection [sampleIp, sampleStandby])) ↔
        ∀ a ∈ assignments (sampleSection [sampleIp, sampleStandby]).body,
          ∀ b ∈ assignments (sampleSection [sampleIp, sampleStandby]).body, ¬ Clash a b) :=
  ⟨by decide, sectionOrder_iff sampleBuild _ _ (by decide)⟩

/-- The server is a standby, or not, by the order of two lines. -/
theorem standby_by_order :
    ((assignments (sampleSection [sampleStandby, sampleNoClone]).body).map Prod.fst).Nodup ∧
      [sampleNoClone, sampleStandby].Perm [sampleStandby, sampleNoClone] ∧
      ¬ SameServer sampleBuild (.start sampleShared 0 [])
        (sampleSection [sampleNoClone, sampleStandby])
        (sampleSection [sampleStandby, sampleNoClone]) := by
  refine ⟨by decide, List.Perm.swap _ _ _, fun h => ?_⟩
  exact absurd (standbyState_of_sameServer h) (by decide)

end OctopusLB
