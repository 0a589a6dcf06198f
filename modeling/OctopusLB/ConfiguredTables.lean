/-
# The tables that a configuration file leaves

`main` sets the defaults, reads the file twice and goes on with the shared memory that
it has then (`mainConfig`).

`configSound_mainConfig`: whatever the file says, if it is accepted and no section is
read into a full table, the tables are as the service needs them.  The settings of the
file do not matter to that; every section is a step of the control machine.
-/
import OctopusLB.SectionIndependence
import OctopusLB.Service

namespace OctopusLB

open Balancer CString TextLines

variable {L : Type}

/-! ## The start of `main` -/

/-- `initialize_balancer`, the settings included; `debug_level` is that of the command
line. -/
def initializeShared [IntCast L] (build : Build L) (debugLevel : ℤ) : Shared L where
  balancer := initializeBalancer ((4 : ℤ) : L) (build.atof (ascii "0.1"))
  monitorInterval := 5
  alive := 1
  snmpCommunityPw := none
  snmpStatus := if build.useSnmp then .disabled else .notIncluded
  bindingPort := 1080
  bindingIp := 0
  memberOutboundIp := 0
  cloneOutboundIp := 0
  connectTimeout := 5
  monitorPid := 0
  masterPid := 0
  logFilePath := none
  hashRebalanceThreshold := 30
  hashRebalanceSize := 5
  hashRebalanceInterval := 30
  useMemberOutboundIp := false
  useCloneOutboundIp := false
  shmRunDir := none
  fdLimit := 0
  sessionLimit := 0
  useSyslog := 0
  shmPerms := 420
  debugLevel := debugLevel

/-- The command line, and what the variables of `parse_config_file` hold that are not
initialised. -/
structure MainArgs where
  foreground : Bool
  debugLevel : ℤ
  debugLevelOverride : Bool
  serverIP : UInt32
  serverName : List UInt8

/-- The shared memory with which `parse_config_file` is called. -/
def loggingShared [IntCast L] (build : Build L) (args : MainArgs) (file : List UInt8) :
    Except Halt (Shared L) :=
  (initializeLogging build args.debugLevelOverride file
    ⟨initializeShared build args.debugLevel, args.foreground, 0, false⟩).map LogReader.shared

/-- `main` up to `initialize_shm`. -/
def mainConfig [IntCast L] (build : Build L) (args : MainArgs) (file : List UInt8) :
    Except Halt (Shared L) := do
  let shared ← loggingShared build args file
  let p ← parseConfigFile build file (Parser.start shared args.serverIP args.serverName)
  .ok p.shared

/-! ## What the directives leave -/

/-- The records of the servers, their number and the hash table are the same. -/
def SameRecords (b b' : Balancer L) : Prop := SameTables b b' ∧ b'.hashTable = b.hashTable

theorem SameRecords.refl (b : Balancer L) : SameRecords b b := ⟨.refl b, rfl⟩

theorem SameRecords.of_eq {b b' : Balancer L} (h : b' = b) : SameRecords b b' := h ▸ .refl b

theorem SameRecords.trans {b b₁ b' : Balancer L} (h : SameRecords b b₁) (h' : SameRecords b₁ b') :
    SameRecords b b' :=
  ⟨h.1.trans h'.1, h'.2.trans h.2⟩

/-- A directive leaves a part of the state. -/
def Directive.Leaves {σ : Type} {α : Type*} (d : Directive σ) (g : σ → α) : Prop :=
  ∀ v s t, d.apply v s = .ok t → g t = g s

/-- The hash table, as far as a parser has it. -/
def Parser.hashTable (p : Parser L) : ℕ → Option ℕ := p.shared.balancer.hashTable

section Directives

variable {p q : Parser L}

/-- The directives of a section do not touch the shared memory. -/
theorem leaves_serverDirective {name : String}
    {set : List UInt8 → ServerVars L → Bool → Except String (ServerVars L × Bool)} :
    (serverDirective name set).Leaves Parser.shared := by
  intro v p q hq
  have hmap : (set v p.vars p.errno).map
      (fun r => ({ p with vars := r.1, errno := r.2 } : Parser L).logged) = .ok q := hq
  cases hr : set v p.vars p.errno with
  | error message =>
      rw [hr] at hmap
      cases hmap
  | ok r =>
      rw [hr] at hmap
      rw [← Except.ok.inj hmap]
      rfl

theorem leaves_serverDirectives (build : Build L) :
    ∀ d ∈ ServerSection.directives build, d.Leaves Parser.shared := by
  unfold ServerSection.directives
  simp only [List.forall_mem_cons]
  exact ⟨leaves_serverDirective, leaves_serverDirective, leaves_serverDirective,
    leaves_serverDirective, leaves_serverDirective, leaves_serverDirective,
    leaves_serverDirective, fun d hd => absurd hd List.not_mem_nil⟩

theorem leaves_globalDirective {name : String}
    {apply : List UInt8 → Parser L → Except String (Parser L)}
    (h : ∀ v p q, apply v p = .ok q → q.hashTable = p.hashTable) :
    (globalDirective name apply).Leaves Parser.hashTable := by
  intro v p q hq
  obtain ⟨r, hr, rfl⟩ := globalDirective_ok hq
  exact h v p r hr

theorem leaves_snmpDirective {name : String} {build : Build L}
    {apply : List UInt8 → Parser L → Except String (Parser L)}
    (h : ∀ v p q, apply v p = .ok q → q.hashTable = p.hashTable) :
    (snmpDirective name build apply).Leaves Parser.hashTable := by
  intro v p q hq
  rcases snmpDirective_ok hq with ⟨r, hr, rfl⟩ | rfl
  · exact h v p r hr
  · rfl

theorem leaves_numberDirective {name : String} {read : List UInt8 → LongRead}
    {accepts : ℤ → Bool} {message : String} {set : ℤ → Shared L → Shared L}
    (hset : ∀ v s, (set v s).balancer = s.balancer) :
    (numberDirective name read accepts message set).Leaves Parser.hashTable := by
  refine leaves_globalDirective fun v p q hq => ?_
  dsimp only at hq
  split_ifs at hq
  obtain rfl := Except.ok.inj hq
  exact congrArg Balancer.hashTable (hset _ _)

theorem leaves_addressDirective {name message : String} {set : UInt32 → Shared L → Shared L}
    (hset : ∀ a s, (set a s).balancer = s.balancer) :
    (addressDirective name message set).Leaves Parser.hashTable := by
  intro v p q hq
  obtain ⟨a, rfl⟩ := addressDirective_ok hq
  exact congrArg Balancer.hashTable (hset _ _)

/-- **The global directives** leave the hash table alone. -/
theorem leaves_globalDirectives (build : Build L) :
    ∀ d ∈ GlobalSection.directives build, d.Leaves Parser.hashTable := by
  have halgorithm : (GlobalSection.algorithm build).Leaves Parser.hashTable := by
    refine leaves_globalDirective fun v p q hq => ?_
    cases hvalue : GlobalSection.algorithmOf build v with
    | error message =>
        rw [hvalue] at hq
        cases hq
    | ok value =>
        rw [hvalue] at hq
        obtain rfl := Except.ok.inj hq
        rfl
  have hmaxc : (GlobalSection.defaultMaxc (L := L)).Leaves Parser.hashTable := by
    refine leaves_globalDirective fun v p q hq => ?_
    dsimp only at hq
    split_ifs at hq
    obtain rfl := Except.ok.inj hq
    rfl
  have henable : (GlobalSection.snmpEnable build).Leaves Parser.hashTable := by
    refine leaves_snmpDirective fun v p q hq => ?_
    obtain rfl := Except.ok.inj hq
    rfl
  unfold GlobalSection.directives
  simp only [List.forall_mem_cons]
  refine ⟨leaves_snmpDirective ?_, henable, leaves_globalDirective ?_,
    leaves_globalDirective ?_, halgorithm, leaves_globalDirective ?_, leaves_globalDirective ?_,
    hmaxc, leaves_globalDirective ?_, ?_⟩
  case' refine_7 =>
    refine ⟨leaves_numberDirective ?_, leaves_numberDirective ?_, leaves_numberDirective ?_,
      leaves_numberDirective ?_, leaves_numberDirective ?_, leaves_numberDirective ?_,
      leaves_numberDirective ?_, leaves_numberDirective ?_, leaves_numberDirective ?_,
      leaves_numberDirective ?_, leaves_addressDirective ?_, leaves_addressDirective ?_,
      leaves_addressDirective ?_, fun d hd => absurd hd List.not_mem_nil⟩
    all_goals exact fun _ _ => rfl
  all_goals
    intro v p q hq
    split_ifs at hq <;>
      · obtain rfl := Except.ok.inj hq
        rfl

/-- A chain of such directives. -/
theorem Directive.Leaves.runAll {σ : Type} {α : Type*} {g : σ → α} {chain : List (Directive σ)}
    (hchain : ∀ d ∈ chain, d.Leaves g) {n : ℕ} {directive : List UInt8}
    {value : Option (List UInt8)} {s t : σ}
    (h : Directive.runAll chain n directive value s = .ok t) : g t = g s :=
  Directive.runAll_keeps (P := fun u => g u = g s)
    (fun d hd _ v u u' _ happly hu => (hchain d hd v u u' happly).trans hu) h rfl

end Directives

/-! ## Every line -/

section Lines

variable [IntCast L] {build : Build L} {p q : Parser L}

/-- **A line** leaves the records as they are, or ends a section and creates its server. -/
theorem parseBuffer_cases {buffer : List UInt8} (h : parseBuffer build p buffer = .ok q) :
    SameRecords p.shared.balancer q.shared.balancer ∨
      isFooter buffer = true ∧ ∃ malloc, q.shared.balancer =
        (createBalancerServer malloc p.vars.request.1 p.vars.request.2 p.shared.balancer).1 := by
  unfold parseBuffer parseLine at h
  unfold isFooter
  cases hd : (splitLine buffer).directive with
  | none =>
      rw [hd] at h
      cases h
  | some directive =>
      rw [hd] at h
      dsimp only at h
      rw [Option.any_some]
      by_cases hend : hasPrefix "[/" directive = true
      · rw [sectionPart_of_bracket build (bracket_of_end hend)] at h
        change globalPart build directive _ _ = .ok q at h
        unfold globalPart at h
        rw [if_pos hend] at h
        obtain ⟨-, -, shared, errno, rfl, rfl⟩ := endSection_ok h
        exact Or.inr ⟨hend, _, rfl⟩
      · cases hsection : sectionPart build directive (splitLine buffer).value
            { p with lineCounter := p.lineCounter + 1 } with
        | error halt =>
            rw [hsection] at h
            cases h
        | ok r =>
            rw [hsection] at h
            change globalPart build directive _ r = .ok q at h
            -- the directives of a section touch their variables only
            have hr : r.shared = p.shared := by
              unfold sectionPart at hsection
              split_ifs at hsection
              · have hleaves := Directive.Leaves.runAll (leaves_serverDirectives build) hsection
                exact hleaves
              · rw [← Except.ok.inj hsection]
            unfold globalPart at h
            rw [if_neg hend] at h
            refine Or.inl ?_
            rw [← hr]
            split_ifs at h
            · unfold startSection at h
              split_ifs at h
              obtain rfl := Except.ok.inj h
              exact .refl _
            · exact ⟨(kept_runAll (keeps_globalDirectives build) h).2.1,
                Directive.Leaves.runAll (leaves_globalDirectives build) h⟩

/-- The line ends a section whose table is full. -/
def ClosesFull (p : Parser L) (buffer : List UInt8) : Prop :=
  isFooter buffer = true ∧ Full p.vars.request.1 p.shared.balancer

omit [IntCast L] in
instance (p : Parser L) (buffer : List UInt8) : Decidable (ClosesFull p buffer) :=
  inferInstanceAs
    (Decidable (isFooter buffer = true ∧ Full p.vars.request.1 p.shared.balancer))

end Lines

/-! ## The invariant -/

/-- The invariant does not depend on the settings. -/
theorem ControlSound.of_sameRecords {x : Control L} {b b' : Balancer L}
    (h : ControlSound (x.withBalancer b)) (hb : SameRecords b b') :
    ControlSound (x.withBalancer b') := by
  obtain ⟨⟨hservers, hmembers, hclones⟩, hhash⟩ := hb
  have hcount : b'.count = b.count := by
    funext kind
    cases kind with
    | member => exact hmembers
    | clone => exact hclones
  have hfield : ∀ {α : Type} (g : Server L → α) p, g (b'.servers p) = g (b.servers p) :=
    fun g p => congrArg g (congrFun hservers p)
  refine ⟨⟨?_, h.hash.cursor, fun i hi hp => ?_⟩,
    h.tables.of_slots rfl hcount (hfield Server.status) (hfield Server.id), h.cursor⟩
  · have htable : MemberTable b := h.hash.table
    refine htable.of_members hmembers hhash (fun i _ => hfield Server.hashTableUsage _)
      (fun i _ hs => ?_) fun i hi hl => ?_
    · exact fun hfree => hs ((hfield Server.status (memberSlot i)).symm.trans hfree)
    · have hs : b'.members i = b.members i := hfield id (memberSlot i)
      change (b'.members i).Live at hl
      show (b'.members i).id = i ∧ _
      rw [hs] at hl ⊢
      exact ⟨htable.id_eq i hi hl, htable.past i hi hl⟩
  · obtain ⟨hlt, hs, hid⟩ := h.hash.probe i hi hp
    have hs' : b'.members i = b.members i := hfield id (memberSlot i)
    refine ⟨?_, fun hfree => hs ?_, ?_⟩
    · show i < b'.nmembers
      rw [hmembers]
      exact hlt
    · show (b.members i).status = .free
      rw [← hs']
      exact hfree
    · show (b'.members i).id = i
      rw [hs']
      exact hid

/-- What the configuration keeps of the tables: the invariant of what the processes share,
and no server has a connection. -/
structure ConfigSound (x : Control L) (b : Balancer L) : Prop where
  control : ControlSound (x.withBalancer b)
  idle : ∀ p, (b.servers p).c = 0

section Configured

variable [LoadArith L] {build : Build L} {x : Control L}

theorem ConfigSound.create {b : Balancer L} (h : ConfigSound x b) {malloc : Bool}
    {kind : ServerKind} {r : CreateRequest L} (hroom : ¬ Full kind b) :
    ConfigSound x (createBalancerServer malloc kind r b).1 := by
  refine ⟨?_, fun p => ?_⟩
  · have hpast := not_pastTables_of_lt
      (newIndex_lt_of_not_full (h.control.tables.count_le kind) hroom)
    refine h.control.step (i := .section malloc kind r) rfl ?_ (step_section hpast)
    rintro ⟨malloc', kind', r', hc, -, hfull⟩
    obtain ⟨rfl, rfl, rfl⟩ : malloc = malloc' ∧ kind = kind' ∧ r = r' := by
      simpa only [ControlInput.creation, Option.some.injEq, Prod.mk.injEq] using hc
    exact hroom hfull
  · rcases createBalancerServer_cases malloc kind r b with ⟨-, heq, -⟩ | ⟨-, -, hw⟩
    · rw [heq]
      exact h.idle p
    · by_cases hp : p = slot kind (newIndex kind b)
      · rw [hp]
        exact congrArg Server.c hw.written
      · rw [hw.others p hp]
        exact h.idle p

/-- **Step.**  The end of a section is one of the control machine. -/
theorem ConfigSound.parseBuffer {p q : Parser L} {buffer : List UInt8}
    (h : ConfigSound x p.shared.balancer) (hroom : ¬ ClosesFull p buffer)
    (hq : OctopusLB.parseBuffer build p buffer = .ok q) : ConfigSound x q.shared.balancer := by
  rcases parseBuffer_cases hq with hsame | ⟨hend, malloc, heq⟩
  · exact ⟨h.control.of_sameRecords hsame, fun p => by rw [hsame.1.1]; exact h.idle p⟩
  · rw [heq]
    exact h.create fun hfull => hroom ⟨hend, hfull⟩

/-- The file does not end a section of a kind of which the table is full. -/
def RoomForSections (build : Build L) (p : Parser L) (file : List UInt8) : Prop :=
  ∀ v ∈ (configMachine build).visits p (buffers configRoom file), ¬ ClosesFull v.1 v.2

instance (p : Parser L) (file : List UInt8) : Decidable (RoomForSections build p file) :=
  inferInstanceAs (Decidable
    (∀ v ∈ (configMachine build).visits p (buffers configRoom file), ¬ ClosesFull v.1 v.2))

/-- **Every file** that is accepted. -/
theorem ConfigSound.parseConfigFile {p q : Parser L} {file : List UInt8}
    (h : ConfigSound x p.shared.balancer) (hroom : RoomForSections build p file)
    (hq : OctopusLB.parseConfigFile build file p = .ok q) : ConfigSound x q.shared.balancer :=
  (configMachine build).states_invariant_of_visits
    (fun p buffer _ (hs : ConfigSound x p.shared.balancer)
      (hno : ¬ ClosesFull p buffer) hstep =>
        hs.parseBuffer hno (Machine.step_ofFold_eq_some.mp hstep)) h hroom q
    ((configMachine build).mem_states_of_run (Machine.run_ofFold_eq_some.mpr hq))

/-! ## The start of the program -/

/-- The first pass over the file leaves the balancer alone. -/
theorem balancer_loggingShared {args : MainArgs} {file : List UInt8} {s : Shared L}
    (h : loggingShared build args file = .ok s) :
    s.balancer = (initializeShared build args.debugLevel).balancer := by
  have hleaves : ∀ d ∈ Logging.directives build args.debugLevelOverride,
      d.Leaves fun p : LogReader L => p.shared.balancer := by
    unfold Logging.directives
    simp only [List.forall_mem_cons]
    refine ⟨fun v p q hq => ?_, fun v p q hq => ?_, fun d hd => absurd hd List.not_mem_nil⟩
    · dsimp only [Logging.logFile] at hq
      split_ifs at hq
      obtain rfl := Except.ok.inj hq
      rfl
    · dsimp only [Logging.debugLevel] at hq
      split_ifs at hq
      · obtain rfl := Except.ok.inj hq
        rfl
      · obtain rfl := Except.ok.inj hq
        rfl
  have hbuffer : ∀ (p q : LogReader L) (buffer : List UInt8),
      loggingBuffer build args.debugLevelOverride p buffer = .ok q →
        q.shared.balancer = p.shared.balancer := by
    intro p q buffer hq
    unfold loggingBuffer loggingLine at hq
    cases hd : (splitLine buffer).directive with
    | none =>
        rw [hd] at hq
        cases hq
    | some directive =>
        rw [hd] at hq
        have hrun := Directive.Leaves.runAll hleaves hq
        exact hrun
  unfold loggingShared initializeLogging at h
  set start : LogReader L := ⟨initializeShared build args.debugLevel, args.foreground, 0, false⟩
  cases hfold : (buffers loggingRoom file).foldlM
      (loggingBuffer build args.debugLevelOverride) start with
  | error halt =>
      rw [hfold] at h
      cases h
  | ok p =>
      rw [hfold] at h
      change Except.map LogReader.shared (if p.shared.logFilePath = none then
        .error (Halt.exit p.lineCounter "log_file directive not found in conf file") else .ok p)
          = .ok s at h
      split_ifs at h
      · cases h
      obtain rfl := Except.ok.inj h
      exact (loggingMachine build args.debugLevelOverride).states_invariant
        (I := fun p => p.shared.balancer = (initializeShared build args.debugLevel).balancer)
        (fun p buffer q hp hstep =>
          (hbuffer p q buffer (Machine.step_ofFold_eq_some.mp hstep)).trans hp) rfl _ p
        ((loggingMachine build args.debugLevelOverride).mem_states_of_run
          (Machine.run_ofFold_eq_some.mpr hfold))

/-- No section of the file is read into a full table. -/
def FileFits (build : Build L) (args : MainArgs) (file : List UInt8) : Prop :=
  match loggingShared build args file with
  | .ok s => RoomForSections build (Parser.start s args.serverIP args.serverName) file
  | .error _ => True

instance (args : MainArgs) (file : List UInt8) : Decidable (FileFits build args file) :=
  match h : loggingShared build args file with
  | .ok s => decidable_of_iff
      (RoomForSections build (Parser.start s args.serverIP args.serverName) file)
      (by unfold FileFits; rw [h])
  | .error _ => isTrue (by unfold FileFits; rw [h]; trivial)

/-- **What the file leaves.** -/
theorem configSound_mainConfig (hx : x.Initial) {args : MainArgs} {file : List UInt8}
    (hfits : FileFits build args file) {s : Shared L}
    (h : mainConfig build args file = .ok s) : ConfigSound x s.balancer := by
  unfold mainConfig at h
  unfold FileFits at hfits
  cases hlog : loggingShared build args file with
  | error halt =>
      rw [hlog] at h
      cases h
  | ok s₀ =>
      rw [hlog] at h hfits
      change (OctopusLB.parseConfigFile build file
        (Parser.start s₀ args.serverIP args.serverName)).bind (fun p => .ok p.shared) = .ok s at h
      cases hparse : OctopusLB.parseConfigFile build file
          (Parser.start s₀ args.serverIP args.serverName) with
      | error halt =>
          rw [hparse] at h
          cases h
      | ok p =>
          rw [hparse] at h
          obtain rfl := Except.ok.inj h
          have hinitial : ConfigSound x s₀.balancer := by
            refine ⟨.initial ⟨⟨_, _, balancer_loggingShared hlog⟩, hx.tools, hx.probe,
              hx.nextMember, hx.nextClone⟩, fun p => ?_⟩
            rw [balancer_loggingShared hlog]
            rfl
          exact hinitial.parseConfigFile hfits hparse

end Configured

end OctopusLB
