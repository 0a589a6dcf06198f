/-
# Whole configurations written to a file and read back

A configuration is a value for each setting of the balancer, with its bounds, and the
list of servers.  It is written as one file (`configurationFile`): the two lines that
`initialize_logging` looks for, the other global settings with `default_maxc` first,
which `parse_config_file` refuses once `errno` is set, and the sections.

`configurationFile_read`: `main` accepts the file, and the shared memory that it goes on
with is the one of the configuration.
-/
import OctopusLB.ConfiguredTables
import OctopusLB.ServerFiles

namespace OctopusLB

open Balancer CString TextLines

variable {L : Type} {build : Build L}

/-! ## One `if` of a chain -/

section Chain

variable {σ : Type} {d : Directive σ} {n : ℕ} {directive v : List UInt8} {s t : σ}

/-- Only one `if` of the chain is for the line. -/
theorem Directive.runAll_of_only {before after : List (Directive σ)}
    (hbefore : ∀ e ∈ before, hasPrefix e.name directive = false)
    (hafter : ∀ e ∈ after, hasPrefix e.name directive = false) (value : Option (List UInt8)) :
    Directive.runAll (before ++ d :: after) n directive value s =
      d.run n directive value s := by
  have hfirst : before.foldlM (run n directive value) s = .ok s :=
    runAll_of_not_matches hbefore value
  unfold runAll
  rw [List.foldlM_append, hfirst]
  show (d :: after).foldlM (run n directive value) s = _
  rw [List.foldlM_cons]
  cases hrun : d.run n directive value s with
  | error halt => rfl
  | ok t => exact runAll_of_not_matches hafter value

/-- It is applied to the value. -/
theorem Directive.run_of_apply (hname : hasPrefix d.name directive = true)
    (hunused : d.usesValue = false → d.apply [] s = d.apply v s) (h : d.apply v s = .ok t) :
    d.run n directive (some v) s = .ok t := by
  unfold run
  rw [if_pos hname]
  cases huse : d.usesValue with
  | true =>
      show (d.apply v s).mapError (Halt.exit n) = _
      rw [h]
      rfl
  | false =>
      show (d.apply [] s).mapError (Halt.exit n) = _
      rw [hunused huse, h]
      rfl

end Chain

/-! ## The global settings -/

/-- The settings outside of the sections. -/
inductive GlobalSetting
  | snmpCommunityPw
  | snmpEnable
  | shmRunDir
  | sessionWeight
  | algorithm
  | cloneMode
  | overloadMode
  | defaultMaxc
  | defaultMaxl
  | hashRebalanceThreshold
  | hashRebalanceSize
  | hashRebalanceInterval
  | shmPerms
  | monitorInterval
  | connectTimeout
  | sessionLimit
  | fdLimit
  | useSyslog
  | bindingPort
  | bindingIp
  | memberOutboundIp
  | cloneOutboundIp
  deriving DecidableEq

namespace GlobalSetting

/-- The settings in the order of the parser's chain. -/
def all : List GlobalSetting :=
  [snmpCommunityPw, snmpEnable, shmRunDir, sessionWeight, algorithm, cloneMode, overloadMode,
    defaultMaxc, defaultMaxl, hashRebalanceThreshold, hashRebalanceSize, hashRebalanceInterval,
    shmPerms, monitorInterval, connectTimeout, sessionLimit, fdLimit, useSyslog, bindingPort,
    bindingIp, memberOutboundIp, cloneOutboundIp]

/-- The name of a setting, all of it. -/
def word : GlobalSetting → String
  | snmpCommunityPw => "snmp_community_pw"
  | snmpEnable => "snmp_enable"
  | shmRunDir => "shm_run_dir"
  | sessionWeight => "session_weight"
  | algorithm => "algorithm"
  | cloneMode => "clone_mode"
  | overloadMode => "overload_mode"
  | defaultMaxc => "default_maxc"
  | defaultMaxl => "default_maxl"
  | hashRebalanceThreshold => "hash_rebalance_threshold"
  | hashRebalanceSize => "hash_rebalance_size"
  | hashRebalanceInterval => "hash_rebalance_interval"
  | shmPerms => "shm_perms"
  | monitorInterval => "monitor_interval"
  | connectTimeout => "connect_timeout"
  | sessionLimit => "session_limit"
  | fdLimit => "fd_limit"
  | useSyslog => "use_syslog"
  | bindingPort => "binding_port"
  | bindingIp => "binding_ip"
  | memberOutboundIp => "member_outbound_ip"
  | cloneOutboundIp => "clone_outbound_ip"

/-- The `if` of the chain for a setting. -/
def directive (build : Build L) : GlobalSetting → Directive (Parser L)
  | snmpCommunityPw => GlobalSection.snmpCommunityPw build
  | snmpEnable => GlobalSection.snmpEnable build
  | shmRunDir => GlobalSection.shmRunDir build
  | sessionWeight => GlobalSection.sessionWeight build
  | algorithm => GlobalSection.algorithm build
  | cloneMode => GlobalSection.cloneMode
  | overloadMode => GlobalSection.overloadMode
  | defaultMaxc => GlobalSection.defaultMaxc
  | defaultMaxl => GlobalSection.defaultMaxl build
  | hashRebalanceThreshold => GlobalSection.hashRebalanceThreshold
  | hashRebalanceSize => GlobalSection.hashRebalanceSize
  | hashRebalanceInterval => GlobalSection.hashRebalanceInterval
  | shmPerms => GlobalSection.shmPerms
  | monitorInterval => GlobalSection.monitorInterval
  | connectTimeout => GlobalSection.connectTimeout
  | sessionLimit => GlobalSection.sessionLimit
  | fdLimit => GlobalSection.fdLimit
  | useSyslog => GlobalSection.useSyslog
  | bindingPort => GlobalSection.bindingPort
  | bindingIp => GlobalSection.bindingIp
  | memberOutboundIp => GlobalSection.memberOutboundIp
  | cloneOutboundIp => GlobalSection.cloneOutboundIp

theorem mem_all (x : GlobalSetting) : x ∈ all := by cases x <;> decide

theorem nodup_all : all.Nodup := by decide

theorem directives_eq (build : Build L) :
    GlobalSection.directives build = all.map (directive build) := rfl

/-- The name that a directive compares does not depend on the build. -/
theorem name_directive (build : Build L) (x : GlobalSetting) :
    (x.directive build).name = (x.directive sampleBuild).name := by
  cases x <;> rfl

/-- A line for one setting is for no other one. -/
theorem hasPrefix_word (build : Build L) (x y : GlobalSetting) :
    hasPrefix (y.directive build).name (ascii x.word) = decide (y = x) := by
  have hall : ∀ x ∈ all, ∀ y ∈ all,
      hasPrefix (y.directive sampleBuild).name (ascii x.word) = decide (y = x) := by
    decide +kernel
  rw [name_directive]
  exact hall x x.mem_all y y.mem_all

theorem isSetting (x : GlobalSetting) {v : List UInt8} (hv : PlainText v) :
    IsSetting x.word v :=
  ⟨by cases x <;> decide, by cases x <;> decide, hv⟩

theorem length_word (x : GlobalSetting) : (ascii x.word).length ≤ 24 := by
  cases x <;> decide

theorem noBracket_word (x : GlobalSetting) : hasPrefix "[" (ascii x.word) = false := by
  cases x <;> decide

/-- **The chain** on a line for one of the settings. -/
theorem runAll_word (x : GlobalSetting) {n : ℕ} {v : List UInt8} {p q : Parser L}
    (hunused : (x.directive build).usesValue = false →
      (x.directive build).apply [] p = (x.directive build).apply v p)
    (h : (x.directive build).apply v p = .ok q) :
    Directive.runAll (GlobalSection.directives build) n (ascii x.word) (some v) p = .ok q := by
  obtain ⟨before, after, hall⟩ := List.append_of_mem x.mem_all
  have hnodup : (before ++ x :: after).Nodup := hall ▸ nodup_all
  rw [List.nodup_append] at hnodup
  have hother : ∀ settings : List GlobalSetting, x ∉ settings →
      ∀ e ∈ settings.map (directive build), hasPrefix e.name (ascii x.word) = false := by
    intro settings hx e he
    obtain ⟨y, hy, rfl⟩ := List.mem_map.mp he
    rw [hasPrefix_word, decide_eq_false_iff_not]
    exact fun heq => hx (heq ▸ hy)
  have hbefore : x ∉ before := fun hmem => hnodup.2.2 x hmem x List.mem_cons_self rfl
  have hafter : x ∉ after := (List.nodup_cons.mp hnodup.2.1).1
  rw [directives_eq, hall, List.map_append, List.map_cons,
    Directive.runAll_of_only (hother before hbefore) (hother after hafter)]
  refine Directive.run_of_apply ?_ hunused h
  rw [hasPrefix_word]
  exact decide_eq_true rfl

end GlobalSetting

/-! ## A configuration -/

/-- A text that can be a value. -/
def IsText (v : List UInt8) : Prop := v.length ≤ 60 ∧ PlainText v

instance (v : List UInt8) : Decidable (IsText v) :=
  inferInstanceAs (Decidable (v.length ≤ 60 ∧ PlainText v))

theorem isText_decimal {n : ℕ} (hn : n < 2 ^ 31) : IsText (decimal n) :=
  ⟨length_decimal_le (by decide) (Nat.lt_trans hn (by decide)),
    fun b hb => plain_of_isDigit (isDigit_of_mem_decimal b hb)⟩

theorem isText_octal {n : ℕ} (hn : n < 777) : IsText (octal n) :=
  ⟨length_printed_le (by decide) (by decide) (Nat.lt_trans hn (by decide)),
    fun b hb => plain_of_isDigit (isDigit_of_mem_octal b hb)⟩

theorem isText_dotted (a : UInt32) : IsText (dotted a) :=
  ⟨Nat.le_trans (length_dotted_le a) (by decide), plain_dotted a⟩

/-- The values of the settings outside of the sections. -/
structure Configuration (build : Build L) where
  logFile : List UInt8
  debugLevel : ℕ
  snmpCommunityPw : List UInt8
  snmpEnable : Bool
  shmRunDir : List UInt8
  sessionWeight : List UInt8
  algorithm : Algorithm
  cloneMode : Bool
  overloadMode : OverloadMode
  defaultMaxc : ℕ
  defaultMaxl : List UInt8
  hashRebalanceThreshold : ℕ
  hashRebalanceSize : ℕ
  hashRebalanceInterval : ℕ
  shmPerms : ℕ
  monitorInterval : ℕ
  connectTimeout : ℕ
  sessionLimit : ℕ
  fdLimit : ℕ
  useSyslog : Bool
  bindingPort : ℕ
  bindingIp : UInt32
  memberOutboundIp : Option UInt32
  cloneOutboundIp : Option UInt32
  texts : ∀ v ∈ [logFile, snmpCommunityPw, shmRunDir, sessionWeight, defaultMaxl], IsText v
  debugLevelFits : debugLevel ≤ 6
  weightNonneg : build.nonneg (build.atof sessionWeight) = true
  maxlNonneg : build.nonneg (build.atof defaultMaxl) = true
  leastLoad : algorithm = .ll → build.useSnmp = true
  percentages : hashRebalanceThreshold < 100 ∧ hashRebalanceSize < 100
  shmPermsFits : 0 < shmPerms ∧ shmPerms < 777
  monitorIntervalFits : monitorInterval < 2 ^ 16
  bindingPortFits : 0 < bindingPort ∧ bindingPort < 2 ^ 16
  connectTimeoutPos : 0 < connectTimeout
  numbers : ∀ n ∈ [defaultMaxc, hashRebalanceInterval, connectTimeout, sessionLimit, fdLimit],
    n < 2 ^ 31

namespace Configuration

/-- The name of an algorithm in the file. -/
def algorithmWord : Algorithm → String
  | .rr => "RR"
  | .lc => "LC"
  | .ll => "LL"
  | .hash => "HASH"
  | .static => "STATIC"

/-- The text of a value; `none` if there is no line. -/
def value (c : Configuration build) : GlobalSetting → Option (List UInt8)
  | .snmpCommunityPw => some c.snmpCommunityPw
  | .snmpEnable => some (ascii (if c.snmpEnable then "on" else "off"))
  | .shmRunDir => some c.shmRunDir
  | .sessionWeight => some c.sessionWeight
  | .algorithm => some (ascii (algorithmWord c.algorithm))
  | .cloneMode => some (ascii (if c.cloneMode then "enabled" else "disabled"))
  | .overloadMode => some (ascii (if c.overloadMode = .strict then "STRICT" else "RELAXED"))
  | .defaultMaxc => some (decimal c.defaultMaxc)
  | .defaultMaxl => some c.defaultMaxl
  | .hashRebalanceThreshold => some (decimal c.hashRebalanceThreshold)
  | .hashRebalanceSize => some (decimal c.hashRebalanceSize)
  | .hashRebalanceInterval => some (decimal c.hashRebalanceInterval)
  | .shmPerms => some (octal c.shmPerms)
  | .monitorInterval => some (decimal c.monitorInterval)
  | .connectTimeout => some (decimal c.connectTimeout)
  | .sessionLimit => some (decimal c.sessionLimit)
  | .fdLimit => some (decimal c.fdLimit)
  | .useSyslog => some (decimal c.useSyslog.toNat)
  | .bindingPort => some (decimal c.bindingPort)
  | .bindingIp => some (dotted c.bindingIp)
  | .memberOutboundIp => c.memberOutboundIp.map dotted
  | .cloneOutboundIp => c.cloneOutboundIp.map dotted

/-- What a setting is to become. -/
def set (c : Configuration build) : GlobalSetting → Shared L → Shared L
  | .snmpCommunityPw, s =>
      if build.useSnmp then { s with snmpCommunityPw := some c.snmpCommunityPw } else s
  | .snmpEnable, s =>
      if build.useSnmp then
        { s with snmpStatus := if c.snmpEnable then .enabled else .disabled }
      else s
  | .shmRunDir, s => { s with shmRunDir := some c.shmRunDir }
  | .sessionWeight, s =>
      s.modifyBalancer fun b => { b with sessionWeight := build.atof c.sessionWeight }
  | .algorithm, s => s.modifyBalancer fun b => { b with algorithm := c.algorithm }
  | .cloneMode, s =>
      s.modifyBalancer fun b => { b with cloneMode := if c.cloneMode then .on else .off }
  | .overloadMode, s => s.modifyBalancer fun b => { b with overloadMode := c.overloadMode }
  | .defaultMaxc, s => s.modifyBalancer fun b => { b with defaultMaxc := c.defaultMaxc }
  | .defaultMaxl, s =>
      s.modifyBalancer fun b => { b with defaultMaxl := build.atof c.defaultMaxl }
  | .hashRebalanceThreshold, s => { s with hashRebalanceThreshold := c.hashRebalanceThreshold }
  | .hashRebalanceSize, s => { s with hashRebalanceSize := c.hashRebalanceSize }
  | .hashRebalanceInterval, s => { s with hashRebalanceInterval := c.hashRebalanceInterval }
  | .shmPerms, s => { s with shmPerms := c.shmPerms }
  | .monitorInterval, s => { s with monitorInterval := c.monitorInterval }
  | .connectTimeout, s => { s with connectTimeout := c.connectTimeout }
  | .sessionLimit, s => { s with sessionLimit := c.sessionLimit }
  | .fdLimit, s => { s with fdLimit := c.fdLimit }
  | .useSyslog, s => { s with useSyslog := c.useSyslog.toNat }
  | .bindingPort, s => { s with bindingPort := c.bindingPort }
  | .bindingIp, s => { s with bindingIp := c.bindingIp }
  | .memberOutboundIp, s => c.memberOutboundIp.elim s fun a =>
      { s with memberOutboundIp := a, useMemberOutboundIp := true }
  | .cloneOutboundIp, s => c.cloneOutboundIp.elim s fun a =>
      { s with cloneOutboundIp := a, useCloneOutboundIp := true }

end Configuration

/-! ## What a directive makes of its value -/

section Apply

variable {d : Directive (Parser L)} {name message : String} {v : List UInt8} {p r : Parser L}
  {s : Shared L}

theorem apply_global {apply : List UInt8 → Parser L → Except String (Parser L)}
    (hd : d = globalDirective name apply) (h : apply v p = .ok r) (hs : r.shared = s) :
    ∃ q, d.apply v p = .ok q ∧ q.shared = s := by
  subst hd
  refine ⟨r.logged, ?_, hs⟩
  show (apply v p).map Parser.logged = _
  rw [h]
  rfl

/-- Only builds with SNMP look at it. -/
theorem apply_snmp {apply : List UInt8 → Parser L → Except String (Parser L)}
    (hd : d = snmpDirective name build apply) (h : apply v p = .ok r)
    (hs : (if build.useSnmp then r.shared else p.shared) = s) :
    ∃ q, d.apply v p = .ok q ∧ q.shared = s := by
  subst hd hs
  show ∃ q, (if build.useSnmp then (apply v p).map Parser.logged
    else .ok { p with errno := false }) = .ok q ∧ _
  cases build.useSnmp with
  | true =>
      rw [h]
      exact ⟨r.logged, rfl, rfl⟩
  | false => exact ⟨{ p with errno := false }, rfl, rfl⟩

theorem apply_number {read : List UInt8 → LongRead} {accepts : ℤ → Bool}
    {set : ℤ → Shared L → Shared L} {n : ℕ}
    (hd : d = numberDirective name read accepts message set) (hread : read v = ⟨n, true, false⟩)
    (hn : n < 2 ^ 31) (haccepts : accepts n = true) (hs : set n p.shared = s) :
    ∃ q, d.apply v p = .ok q ∧ q.shared = s := by
  have hint := toInt_natCast hn
  refine apply_global (r := { p with shared := set n p.shared, errno := p.errno || false }) hd ?_ hs
  rw [hread]
  dsimp only
  rw [hint, haccepts]
  rfl

theorem apply_address {set : UInt32 → Shared L → Shared L} {a : UInt32}
    (hd : d = addressDirective name message set) (ha : inetAton v = some a)
    (hs : set a p.shared = s) : ∃ q, d.apply v p = .ok q ∧ q.shared = s := by
  refine apply_global (r := { p with shared := set a p.shared }) hd ?_ hs
  rw [ha]

end Apply

namespace Configuration

variable (c : Configuration build)

/-- A directive that does not look at its value does the same without it. -/
theorem apply_unused (x : GlobalSetting) (v : List UInt8) (p : Parser L)
    (h : (x.directive build).usesValue = false) :
    (x.directive build).apply [] p = (x.directive build).apply v p := by
  have hsnmp : ∀ (name : String) (apply : List UInt8 → Parser L → Except String (Parser L)),
      build.useSnmp = false → (snmpDirective name build apply).apply [] p =
        (snmpDirective name build apply).apply v p := by
    intro name apply hno
    show (if build.useSnmp then _ else _) = if build.useSnmp then _ else _
    rw [hno]
    rfl
  cases x with
  | snmpCommunityPw => exact hsnmp _ _ h
  | snmpEnable => exact hsnmp _ _ h
  | _ => cases h

/-- Every value is a text. -/
theorem isText_value {x : GlobalSetting} {v : List UInt8} (hv : c.value x = some v) :
    IsText v := by
  have hnumbers := c.numbers
  simp only [List.forall_mem_cons] at hnumbers
  obtain ⟨hmaxc, hinterval, htimeout, hsession, hfd, -⟩ := hnumbers
  obtain ⟨hthreshold, hsize⟩ := c.percentages
  have hmonitor := c.monitorIntervalFits
  have hport := c.bindingPortFits.2
  have hsyslog := c.useSyslog.toNat_le
  have htexts := c.texts
  simp only [List.forall_mem_cons] at htexts
  obtain ⟨-, hpw, hdir, hweight, hmaxl, -⟩ := htexts
  cases x with
  | snmpCommunityPw => exact Option.some.inj hv ▸ hpw
  | shmRunDir => exact Option.some.inj hv ▸ hdir
  | sessionWeight => exact Option.some.inj hv ▸ hweight
  | defaultMaxl => exact Option.some.inj hv ▸ hmaxl
  | snmpEnable =>
      obtain rfl := Option.some.inj hv
      cases c.snmpEnable <;> decide
  | algorithm =>
      obtain rfl := Option.some.inj hv
      cases c.algorithm <;> decide
  | cloneMode =>
      obtain rfl := Option.some.inj hv
      cases c.cloneMode <;> decide
  | overloadMode =>
      obtain rfl := Option.some.inj hv
      cases c.overloadMode <;> decide
  | shmPerms => exact Option.some.inj hv ▸ isText_octal c.shmPermsFits.2
  | bindingIp => exact Option.some.inj hv ▸ isText_dotted c.bindingIp
  | memberOutboundIp =>
      obtain ⟨a, -, rfl⟩ := Option.map_eq_some_iff.mp hv
      exact isText_dotted a
  | cloneOutboundIp =>
      obtain ⟨a, -, rfl⟩ := Option.map_eq_some_iff.mp hv
      exact isText_dotted a
  | _ => exact Option.some.inj hv ▸ isText_decimal (by omega)

theorem algorithmOf_word :
    GlobalSection.algorithmOf build (ascii (algorithmWord c.algorithm)) = .ok c.algorithm := by
  have hbuilt := c.leastLoad
  cases halgorithm : c.algorithm with
  | ll =>
      show (if build.useSnmp then Except.ok Algorithm.ll else _) = _
      rw [hbuilt halgorithm]
      rfl
  | _ => rfl

/-- **A setting is read** as it has been written. -/
theorem apply_value (hmalloc : ∀ line, build.malloc line = true) {x : GlobalSetting}
    {v : List UInt8} (hv : c.value x = some v) {p : Parser L}
    (herrno : x = .defaultMaxc → p.errno = false) :
    ∃ q, (x.directive build).apply v p = .ok q ∧ q.shared = c.set x p.shared := by
  have hnumber : ∀ n < 2 ^ 31, readDecimal (decimal n) = ⟨n, true, false⟩ := by
    intro n hn
    have hread := readDecimal_decimal (n := n) (by omega) (show EndsNumber [] from rfl)
    rwa [List.append_nil] at hread
  have hnumbers := c.numbers
  simp only [List.forall_mem_cons] at hnumbers
  obtain ⟨hmaxc, hinterval, htimeout, hsession, hfd, -⟩ := hnumbers
  cases x with
  | snmpCommunityPw =>
      obtain rfl := Option.some.inj hv
      refine apply_snmp (r := { p with
        shared := { p.shared with snmpCommunityPw := some c.snmpCommunityPw } }) rfl ?_ rfl
      rw [hmalloc]
      rfl
  | snmpEnable =>
      obtain rfl := Option.some.inj hv
      refine apply_snmp (r := { p with shared := { p.shared with
        snmpStatus := if c.snmpEnable then .enabled else .disabled } }) rfl ?_ rfl
      cases c.snmpEnable <;> rfl
  | shmRunDir =>
      obtain rfl := Option.some.inj hv
      refine apply_global (r := { p with
        shared := { p.shared with shmRunDir := some c.shmRunDir } }) rfl ?_ rfl
      rw [hmalloc]
      rfl
  | sessionWeight =>
      obtain rfl := Option.some.inj hv
      exact apply_global rfl (if_pos c.weightNonneg) rfl
  | algorithm =>
      obtain rfl := Option.some.inj hv
      refine apply_global (r := { p with
        shared := p.shared.modifyBalancer fun b => { b with algorithm := c.algorithm } }) rfl ?_ rfl
      rw [c.algorithmOf_word]
      rfl
  | cloneMode =>
      obtain rfl := Option.some.inj hv
      refine apply_global (r := { p with shared := p.shared.modifyBalancer fun b =>
        { b with cloneMode := if c.cloneMode then .on else .off } }) rfl ?_ rfl
      cases c.cloneMode <;> rfl
  | overloadMode =>
      obtain rfl := Option.some.inj hv
      refine apply_global (r := { p with shared := p.shared.modifyBalancer fun b =>
        { b with overloadMode := c.overloadMode } }) rfl ?_ rfl
      cases c.overloadMode <;> rfl
  | defaultMaxc =>
      obtain rfl := Option.some.inj hv
      have hint := toInt_natCast hmaxc
      refine apply_global (r := { p with
        shared := p.shared.modifyBalancer fun b => { b with defaultMaxc := c.defaultMaxc }
        vars := { p.vars with serverMaxc := c.defaultMaxc } }) rfl ?_ rfl
      rw [hnumber _ hmaxc, herrno rfl]
      dsimp only
      rw [hint]
      rfl
  | defaultMaxl =>
      obtain rfl := Option.some.inj hv
      exact apply_global rfl (if_pos c.maxlNonneg) rfl
  | hashRebalanceThreshold =>
      obtain rfl := Option.some.inj hv
      have hlt := c.percentages.1
      exact apply_number (d := GlobalSection.hashRebalanceThreshold) rfl
        (hnumber _ (by omega)) (by omega) (by simpa using hlt) rfl
  | hashRebalanceSize =>
      obtain rfl := Option.some.inj hv
      have hlt := c.percentages.2
      exact apply_number (d := GlobalSection.hashRebalanceSize) rfl
        (hnumber _ (by omega)) (by omega) (by simpa using hlt) rfl
  | hashRebalanceInterval =>
      obtain rfl := Option.some.inj hv
      exact apply_number (d := GlobalSection.hashRebalanceInterval) rfl
        (hnumber _ hinterval) hinterval (by simp) rfl
  | shmPerms =>
      obtain rfl := Option.some.inj hv
      obtain ⟨hpos, hlt⟩ := c.shmPermsFits
      exact apply_number (d := GlobalSection.shmPerms) rfl
        (readOctal_octal (by omega)) (by omega) (by simpa using ⟨hpos, hlt⟩) rfl
  | monitorInterval =>
      obtain rfl := Option.some.inj hv
      have hlt := c.monitorIntervalFits
      have hshort : toUShort c.monitorInterval = c.monitorInterval :=
        Int.emod_eq_of_lt (by omega) (by omega)
      refine apply_number (d := GlobalSection.monitorInterval) rfl
        (hnumber _ (by omega)) (by omega) (by simp) ?_
      rw [hshort]
      rfl
  | connectTimeout =>
      obtain rfl := Option.some.inj hv
      exact apply_number (d := GlobalSection.connectTimeout) rfl
        (hnumber _ htimeout) htimeout (by simpa using c.connectTimeoutPos) rfl
  | sessionLimit =>
      obtain rfl := Option.some.inj hv
      exact apply_number (d := GlobalSection.sessionLimit) rfl
        (hnumber _ hsession) hsession (by simp) rfl
  | fdLimit =>
      obtain rfl := Option.some.inj hv
      exact apply_number (d := GlobalSection.fdLimit) rfl (hnumber _ hfd) hfd (by simp) rfl
  | useSyslog =>
      obtain rfl := Option.some.inj hv
      have hle := c.useSyslog.toNat_le
      exact apply_number (d := GlobalSection.useSyslog) rfl
        (hnumber _ (by omega)) (by omega) (by simpa using hle) rfl
  | bindingPort =>
      obtain rfl := Option.some.inj hv
      obtain ⟨hpos, hlt⟩ := c.bindingPortFits
      exact apply_number (d := GlobalSection.bindingPort) rfl
        (hnumber _ (by omega)) (by omega) (by simpa using hpos) rfl
  | bindingIp =>
      obtain rfl := Option.some.inj hv
      exact apply_address (d := GlobalSection.bindingIp) rfl (inetAton_dotted c.bindingIp) rfl
  | memberOutboundIp =>
      obtain ⟨a, ha, rfl⟩ := Option.map_eq_some_iff.mp hv
      refine apply_address (d := GlobalSection.memberOutboundIp) rfl (inetAton_dotted a) ?_
      show _ = c.memberOutboundIp.elim _ _
      rw [ha]
      rfl
  | cloneOutboundIp =>
      obtain ⟨a, ha, rfl⟩ := Option.map_eq_some_iff.mp hv
      refine apply_address (d := GlobalSection.cloneOutboundIp) rfl (inetAton_dotted a) ?_
      show _ = c.cloneOutboundIp.elim _ _
      rw [ha]
      rfl

theorem set_of_none {x : GlobalSetting} (h : c.value x = none) (s : Shared L) : c.set x s = s := by
  cases x with
  | memberOutboundIp =>
      show c.memberOutboundIp.elim s _ = s
      rw [Option.map_eq_none_iff.mp h]
      rfl
  | cloneOutboundIp =>
      show c.cloneOutboundIp.elim s _ = s
      rw [Option.map_eq_none_iff.mp h]
      rfl
  | _ => cases h

/-! ### Its lines -/

/-- The lines that `initialize_logging` looks for. -/
def loggingLines : List (List UInt8) :=
  [settingText "log_file" c.logFile, settingText "debug_level" (decimal c.debugLevel)]

/-- The line of a setting, if there is one. -/
def lineOf (x : GlobalSetting) : List (List UInt8) :=
  ((c.value x).map (settingText x.word)).toList

/-- The settings in the order of their lines. -/
def order : List GlobalSetting :=
  .defaultMaxc :: GlobalSetting.all.filter (· ≠ .defaultMaxc)

/-- The lines of all settings. -/
def globalLines : List (List UInt8) := order.flatMap c.lineOf

theorem isSetting_logFile : IsSetting "log_file" c.logFile :=
  ⟨by decide, by decide, (c.texts _ List.mem_cons_self).2⟩

theorem isSetting_debugLevel : IsSetting "debug_level" (decimal c.debugLevel) :=
  ⟨by decide, by decide, (isText_decimal (by have := c.debugLevelFits; omega)).2⟩

theorem mem_lineOf {x : GlobalSetting} {line : List UInt8} (h : line ∈ c.lineOf x) :
    ∃ v, c.value x = some v ∧ line = settingText x.word v := by
  unfold lineOf at h
  rw [Option.mem_toList] at h
  obtain ⟨v, hv, rfl⟩ := Option.map_eq_some_iff.mp h
  exact ⟨v, hv, rfl⟩

/-- They fit in the buffers of both passes. -/
theorem fits_lines {line : List UInt8} (h : line ∈ c.loggingLines ++ c.globalLines) :
    FitsBuffer loggingRoom line := by
  have hroom : loggingRoom = 99 := rfl
  rcases List.mem_append.mp h with h | h
  · simp only [loggingLines, List.mem_cons, List.not_mem_nil, or_false] at h
    rcases h with rfl | rfl
    · have hlength := (c.texts c.logFile List.mem_cons_self).1
      have hword : (ascii "log_file").length = 8 := rfl
      exact c.isSetting_logFile.fits (by omega)
    · have hlevel := c.debugLevelFits
      have hlength : (decimal c.debugLevel).length ≤ 1 :=
        length_decimal_le (by decide) (by omega)
      have hword : (ascii "debug_level").length = 11 := rfl
      exact c.isSetting_debugLevel.fits (by omega)
  · obtain ⟨x, -, hx⟩ := List.mem_flatMap.mp h
    obtain ⟨v, hv, rfl⟩ := c.mem_lineOf hx
    have hlength := (c.isText_value hv).1
    have hword := x.length_word
    exact (x.isSetting (c.isText_value hv).2).fits (by omega)

end Configuration

/-! ## The lines in `parse_config_file` -/

section Parsing

variable [IntCast L]

/-- A line outside of the sections is for the global chain. -/
theorem parseBuffer_global {p : Parser L} (hp : p.inServerSection = false) {word : String}
    {v : List UInt8} (h : IsSetting word v) (hbracket : hasPrefix "[" (ascii word) = false) :
    parseBuffer build p (settingText word v) =
      Directive.runAll (GlobalSection.directives build) (p.lineCounter + 1) (ascii word) (some v)
        { p with lineCounter := p.lineCounter + 1 } := by
  have hsection : sectionPart build (ascii word) (some v)
      { p with lineCounter := p.lineCounter + 1 } =
        .ok { p with lineCounter := p.lineCounter + 1 } := by
    unfold sectionPart
    exact if_neg (by rw [hp]; decide)
  have hsplit := h.splitLine_eq
  rw [parseBuffer_of_sectionPart (congrArg ConfigLine.directive hsplit)
    (by rw [hsplit]; exact hsection), hsplit]
  unfold globalPart
  rw [if_neg (not_end_of_noBracket hbracket), hbracket, if_neg (by decide)]

namespace Configuration

variable (c : Configuration build)

/-- It does not know the lines of the other pass. -/
theorem parse_loggingLines {p : Parser L} (hp : Between p) :
    ∃ q, c.loggingLines.foldlM (parseBuffer build) p = .ok q ∧ Between q ∧
      q.errno = p.errno ∧ q.shared = p.shared := by
  have hnames : (GlobalSection.directives build).map Directive.name =
      (GlobalSection.directives sampleBuild).map Directive.name := rfl
  have hnone : ∀ word ∈ ["log_file", "debug_level"],
      ∀ d ∈ GlobalSection.directives build, hasPrefix d.name (ascii word) = false := by
    have hall : ∀ word ∈ ["log_file", "debug_level"],
        ∀ name ∈ (GlobalSection.directives sampleBuild).map Directive.name,
          hasPrefix name (ascii word) = false := by
      decide +kernel
    exact fun word hword d hd => hall word hword d.name (hnames ▸ List.mem_map_of_mem hd)
  have hline : ∀ (word : String) (v : List UInt8), word ∈ ["log_file", "debug_level"] →
      IsSetting word v → hasPrefix "[" (ascii word) = false → ∀ r : Parser L, Between r →
        parseBuffer build r (settingText word v) =
          .ok { r with lineCounter := r.lineCounter + 1 } :=
    fun word v hword h hbracket r hr => (parseBuffer_global hr.1 h hbracket).trans
      (Directive.runAll_of_not_matches (hnone word hword) _)
  refine ⟨{ p with lineCounter := p.lineCounter + 1 + 1 }, ?_, hp, rfl, rfl⟩
  unfold loggingLines
  exact Machine.foldlM_cons_eq_ok.mpr
    ⟨_, hline _ _ (by decide) c.isSetting_logFile (by decide) p hp,
      Machine.foldlM_cons_eq_ok.mpr
        ⟨_, hline _ _ (by decide) c.isSetting_debugLevel (by decide) _ hp, rfl⟩⟩

/-- **One setting.** -/
theorem parse_lineOf (hmalloc : ∀ line, build.malloc line = true) (x : GlobalSetting)
    {p : Parser L} (hp : Between p) (herrno : x = .defaultMaxc → p.errno = false) :
    ∃ q, (c.lineOf x).foldlM (parseBuffer build) p = .ok q ∧ Between q ∧
      q.shared = c.set x p.shared := by
  unfold lineOf
  cases hv : c.value x with
  | none => exact ⟨p, rfl, hp, (c.set_of_none hv p.shared).symm⟩
  | some v =>
      obtain ⟨q, hq, hshared⟩ :=
        @apply_value L build c hmalloc x v hv { p with lineCounter := p.lineCounter + 1 } herrno
      have hmem : x.directive build ∈ GlobalSection.directives build := by
        rw [GlobalSetting.directives_eq]
        exact List.mem_map_of_mem x.mem_all
      have hkept := keeps_globalDirectives build _ hmem v _ q hq
      refine ⟨q, ?_, hkept.between hp, hshared⟩
      have hline : parseBuffer build p (settingText x.word v) = .ok q := by
        rw [parseBuffer_global hp.1 (x.isSetting (c.isText_value hv).2) x.noBracket_word]
        exact x.runAll_word (apply_unused x v _) hq
      exact Machine.foldlM_cons_eq_ok.mpr ⟨q, hline, rfl⟩

/-- Settings other than `default_maxc`, one after the other. -/
theorem parse_lines (hmalloc : ∀ line, build.malloc line = true) {xs : List GlobalSetting}
    (hxs : ∀ x ∈ xs, x ≠ .defaultMaxc) {p : Parser L} (hp : Between p) :
    ∃ q, (xs.flatMap c.lineOf).foldlM (parseBuffer build) p = .ok q ∧ Between q ∧
      q.shared = xs.foldl (fun s x => c.set x s) p.shared := by
  induction xs generalizing p with
  | nil => exact ⟨p, rfl, hp, rfl⟩
  | cons x xs ih =>
      obtain ⟨hx, hrest⟩ := List.forall_mem_cons.mp hxs
      obtain ⟨r, hr, hbetween, hfirst⟩ :=
        c.parse_lineOf hmalloc x hp fun heq => absurd heq hx
      obtain ⟨q, hq, hbetween', hall⟩ := ih hrest hbetween
      refine ⟨q, ?_, hbetween', ?_⟩
      · rw [List.flatMap_cons]
        exact Machine.foldlM_append_eq_ok.mpr ⟨r, hr, hq⟩
      · rw [hall, hfirst]
        rfl

/-- **All settings.** -/
theorem parse_globalLines (hmalloc : ∀ line, build.malloc line = true) {p : Parser L}
    (hp : Between p) (herrno : p.errno = false) :
    ∃ q, c.globalLines.foldlM (parseBuffer build) p = .ok q ∧ Between q ∧
      q.shared = order.foldl (fun s x => c.set x s) p.shared := by
  obtain ⟨r, hr, hbetween, hfirst⟩ :=
    c.parse_lineOf hmalloc .defaultMaxc hp fun _ => herrno
  have hother : ∀ x ∈ GlobalSetting.all.filter (· ≠ .defaultMaxc), x ≠ .defaultMaxc := by
    simp
  obtain ⟨q, hq, hbetween', hall⟩ := c.parse_lines hmalloc hother hbetween
  refine ⟨q, ?_, hbetween', ?_⟩
  · unfold globalLines order
    rw [List.flatMap_cons]
    exact Machine.foldlM_append_eq_ok.mpr ⟨r, hr, hq⟩
  · unfold order
    rw [hall, hfirst, List.foldl_cons]

end Configuration

end Parsing

/-! ## The lines in `initialize_logging` -/

section Logging

variable {override : Bool}

/-- A line that is for neither of its directives. -/
def Unlogged (line : List UInt8) : Prop :=
  ∃ directive, (splitLine line).directive = some directive ∧
    hasPrefix "log_file" directive = false ∧ hasPrefix "debug_level" directive = false

theorem loggingBuffer_of_split {line directive : List UInt8} {value : Option (List UInt8)}
    (h : splitLine line = ⟨some directive, value⟩) (p : LogReader L) :
    loggingBuffer build override p line =
      Directive.runAll (Logging.directives build override) (p.lineCounter + 1) directive value
        { p with lineCounter := p.lineCounter + 1 } := by
  unfold loggingBuffer loggingLine
  rw [h]

theorem loggingBuffer_unlogged {line : List UInt8} (h : Unlogged line) (p : LogReader L) :
    loggingBuffer build override p line = .ok { p with lineCounter := p.lineCounter + 1 } := by
  obtain ⟨directive, hsplit, hfile, hlevel⟩ := h
  have hline : splitLine line = ⟨some directive, (splitLine line).value⟩ := by
    rw [← hsplit]
  rw [loggingBuffer_of_split hline]
  refine Directive.runAll_of_not_matches ?_ _
  unfold Logging.directives
  rw [List.forall_mem_cons, List.forall_mem_singleton]
  exact ⟨hfile, hlevel⟩

/-- All other lines of the file are passed over. -/
theorem logging_unlogged {lines : List (List UInt8)} (h : ∀ line ∈ lines, Unlogged line)
    (p : LogReader L) :
    ∃ q, lines.foldlM (loggingBuffer build override) p = .ok q ∧ q.shared = p.shared := by
  induction lines generalizing p with
  | nil => exact ⟨p, rfl, rfl⟩
  | cons line lines ih =>
      obtain ⟨hline, hlines⟩ := List.forall_mem_cons.mp h
      obtain ⟨q, hq, hshared⟩ := ih hlines { p with lineCounter := p.lineCounter + 1 }
      refine ⟨q, ?_, hshared⟩
      exact Machine.foldlM_cons_eq_ok.mpr ⟨_, loggingBuffer_unlogged hline p, hq⟩

theorem IsSetting.unlogged {word : String} {v : List UInt8} (h : IsSetting word v)
    (hfile : hasPrefix "log_file" (ascii word) = false)
    (hlevel : hasPrefix "debug_level" (ascii word) = false) : Unlogged (settingText word v) :=
  ⟨ascii word, congrArg ConfigLine.directive h.splitLine_eq, hfile, hlevel⟩

theorem ServerEntry.unlogged_lines (e : ServerEntry build) :
    ∀ line ∈ e.lines, Unlogged line := by
  intro line hline
  rcases List.mem_cons.mp hline with rfl | hline
  · exact ⟨_, e.sectionText.opens, rfl, rfl⟩
  rcases List.mem_append.mp hline with hline | hline
  · obtain ⟨l, hl, rfl⟩ := List.mem_map.mp hline
    obtain ⟨s, -, rfl⟩ := List.mem_map.mp hl
    refine (s.isSetting (e.plain_value s)).unlogged ?_ ?_
    · cases s <;> decide
    · cases s <;> decide
  · obtain rfl := List.mem_singleton.mp hline
    have hsplit : (splitLine (ascii "[/]\n")).directive = some (ascii "[/]") := by decide
    exact ⟨ascii "[/]", hsplit, by decide, by decide⟩

namespace Configuration

variable (c : Configuration build)

theorem unlogged_globalLines : ∀ line ∈ c.globalLines, Unlogged line := by
  intro line hline
  obtain ⟨x, -, hx⟩ := List.mem_flatMap.mp hline
  obtain ⟨v, hv, rfl⟩ := c.mem_lineOf hx
  refine (x.isSetting (c.isText_value hv).2).unlogged ?_ ?_
  · cases x <;> decide
  · cases x <;> decide

theorem loggingBuffer_logFile (hmalloc : ∀ line, build.malloc line = true) (p : LogReader L) :
    loggingBuffer build override p (settingText "log_file" c.logFile) =
      .ok { p with
        shared := { p.shared with logFilePath := some c.logFile }
        lineCounter := p.lineCounter + 1 } := by
  have hname : hasPrefix "log_file" (ascii "log_file") = true := by decide
  have hnot : hasPrefix "debug_level" (ascii "log_file") = false := by decide
  have hother : ∀ d ∈ [Logging.debugLevel (L := L) override],
      hasPrefix d.name (ascii "log_file") = false :=
    List.forall_mem_singleton.mpr hnot
  rw [loggingBuffer_of_split c.isSetting_logFile.splitLine_eq]
  show Directive.runAll ([] ++ Logging.logFile build :: [Logging.debugLevel override]) _ _ _ _ = _
  rw [Directive.runAll_of_only (by simp) hother]
  refine Directive.run_of_apply hname (fun h => by cases h) ?_
  exact if_pos (hmalloc _)

theorem loggingBuffer_debugLevel {p : LogReader L} (herrno : p.errno = false) :
    ∃ q, loggingBuffer build override p (settingText "debug_level" (decimal c.debugLevel)) =
        .ok q ∧
      q.shared = { p.shared with
        debugLevel := if override then p.shared.debugLevel else c.debugLevel } := by
  have hname : hasPrefix "debug_level" (ascii "debug_level") = true := by decide
  have hnot : hasPrefix "log_file" (ascii "debug_level") = false := by decide
  have hother : ∀ d ∈ [Logging.logFile build], hasPrefix d.name (ascii "debug_level") = false :=
    List.forall_mem_singleton.mpr hnot
  have hlevel := c.debugLevelFits
  have hread := readDecimal_decimal (n := c.debugLevel) (by omega) (show EndsNumber [] from rfl)
  rw [List.append_nil] at hread
  have hint := toInt_natCast (n := c.debugLevel) (by omega)
  rw [loggingBuffer_of_split c.isSetting_debugLevel.splitLine_eq]
  show ∃ q, Directive.runAll ([Logging.logFile build] ++ Logging.debugLevel override :: [])
    _ _ _ _ = _ ∧ _
  rw [Directive.runAll_of_only hother (by simp)]
  cases override with
  | true =>
      refine ⟨{ p with lineCounter := p.lineCounter + 1 }, ?_, rfl⟩
      exact Directive.run_of_apply hname (fun _ => rfl) rfl
  | false =>
      refine ⟨{ p with
        shared := { p.shared with debugLevel := c.debugLevel }
        lineCounter := p.lineCounter + 1
        errno := p.errno && !(0 < (c.debugLevel : ℤ) && p.foreground) }, ?_, rfl⟩
      refine Directive.run_of_apply hname (fun h => by cases h) ?_
      show (if p.errno || (readDecimal (decimal c.debugLevel)).erange then _ else _) = _
      rw [hread, herrno, hint]
      exact (if_neg Bool.false_ne_true).trans (if_pos ⟨by omega, by omega⟩)

/-- **Its own two lines.** -/
theorem logging_loggingLines (hmalloc : ∀ line, build.malloc line = true) {p : LogReader L}
    (herrno : p.errno = false) :
    ∃ q, c.loggingLines.foldlM (loggingBuffer build override) p = .ok q ∧
      q.shared = { p.shared with
        logFilePath := some c.logFile
        debugLevel := if override then p.shared.debugLevel else c.debugLevel } := by
  obtain ⟨q, hq, hshared⟩ := @loggingBuffer_debugLevel L build override c { p with
    shared := { p.shared with logFilePath := some c.logFile }
    lineCounter := p.lineCounter + 1 } herrno
  refine ⟨q, ?_, hshared⟩
  unfold loggingLines
  exact Machine.foldlM_cons_eq_ok.mpr
    ⟨_, c.loggingBuffer_logFile hmalloc p, Machine.foldlM_cons_eq_ok.mpr ⟨q, hq, rfl⟩⟩

end Configuration

end Logging

/-! ## The file -/

/-- The text of a configuration and of its servers. -/
def configurationFile (c : Configuration build) (entries : List (ServerEntry build)) :
    List UInt8 :=
  (c.loggingLines ++ c.globalLines ++ entries.flatMap ServerEntry.lines).flatten

/-- Both passes read it line by line. -/
theorem buffers_configurationFile (c : Configuration build) {entries : List (ServerEntry build)}
    (hshort : ∀ e ∈ entries, e.maxl.length ≤ 88) {room : ℕ} (hroom : loggingRoom ≤ room) :
    buffers room (configurationFile c entries) =
      c.loggingLines ++ c.globalLines ++ entries.flatMap ServerEntry.lines := by
  have hlogging : loggingRoom = 99 := rfl
  refine buffers_flatten (by omega) fun line hline => ?_
  rcases List.mem_append.mp hline with hline | hline
  · have hfits := c.fits_lines hline
    exact ⟨hfits.isLine, hfits.newline, Nat.le_trans hfits.length hroom⟩
  · obtain ⟨e, hmem, he⟩ := List.mem_flatMap.mp hline
    have hlength := hshort e hmem
    exact e.fits_lines (by omega) line he

/-- The shared memory of a configuration, before its servers are created. -/
def Configuration.shared [IntCast L] (c : Configuration build) (args : MainArgs) : Shared L where
  balancer :=
    { initializeBalancer ((4 : ℤ) : L) (build.atof (ascii "0.1")) with
      algorithm := c.algorithm
      cloneMode := if c.cloneMode then .on else .off
      overloadMode := c.overloadMode
      sessionWeight := build.atof c.sessionWeight
      defaultMaxc := c.defaultMaxc
      defaultMaxl := build.atof c.defaultMaxl }
  monitorInterval := c.monitorInterval
  alive := 1
  snmpCommunityPw := if build.useSnmp then some c.snmpCommunityPw else none
  snmpStatus :=
    if build.useSnmp then if c.snmpEnable then .enabled else .disabled else .notIncluded
  bindingPort := c.bindingPort
  bindingIp := c.bindingIp
  memberOutboundIp := c.memberOutboundIp.getD 0
  cloneOutboundIp := c.cloneOutboundIp.getD 0
  connectTimeout := c.connectTimeout
  monitorPid := 0
  masterPid := 0
  logFilePath := some c.logFile
  hashRebalanceThreshold := c.hashRebalanceThreshold
  hashRebalanceSize := c.hashRebalanceSize
  hashRebalanceInterval := c.hashRebalanceInterval
  useMemberOutboundIp := c.memberOutboundIp.isSome
  useCloneOutboundIp := c.cloneOutboundIp.isSome
  shmRunDir := some c.shmRunDir
  fdLimit := c.fdLimit
  sessionLimit := c.sessionLimit
  useSyslog := c.useSyslog.toNat
  shmPerms := c.shmPerms
  debugLevel := if args.debugLevelOverride then args.debugLevel else c.debugLevel

section Reading

variable [IntCast L]

/-- The settings, one after the other, make it. -/
theorem Configuration.foldl_set (c : Configuration build) (args : MainArgs) :
    Configuration.order.foldl (fun s x => c.set x s)
      { initializeShared build args.debugLevel with
        logFilePath := some c.logFile
        debugLevel := if args.debugLevelOverride then args.debugLevel else c.debugLevel } =
      c.shared args := by
  unfold Configuration.shared initializeShared
  cases hsnmp : build.useSnmp <;> cases hmember : c.memberOutboundIp <;>
    cases hclone : c.cloneOutboundIp <;>
    simp [order, GlobalSetting.all, set, Shared.modifyBalancer, hsnmp, hmember, hclone]

/-- What the first pass leaves. -/
theorem loggingShared_configurationFile (hmalloc : ∀ line, build.malloc line = true)
    (args : MainArgs) (c : Configuration build) {entries : List (ServerEntry build)}
    (hshort : ∀ e ∈ entries, e.maxl.length ≤ 88) :
    loggingShared build args (configurationFile c entries) =
      .ok { initializeShared build args.debugLevel with
        logFilePath := some c.logFile
        debugLevel := if args.debugLevelOverride then args.debugLevel else c.debugLevel } := by
  have hothers : ∀ line ∈ c.globalLines ++ entries.flatMap ServerEntry.lines, Unlogged line := by
    intro line hline
    rcases List.mem_append.mp hline with hline | hline
    · exact c.unlogged_globalLines line hline
    · obtain ⟨e, -, he⟩ := List.mem_flatMap.mp hline
      exact e.unlogged_lines line he
  obtain ⟨p, hp, hfirst⟩ := @Configuration.logging_loggingLines L build args.debugLevelOverride c
    hmalloc ⟨initializeShared build args.debugLevel, args.foreground, 0, false⟩ rfl
  obtain ⟨q, hq, hsame⟩ := @logging_unlogged L build args.debugLevelOverride _ hothers p
  have hread : (buffers loggingRoom (configurationFile c entries)).foldlM
      (loggingBuffer build args.debugLevelOverride)
        ⟨initializeShared build args.debugLevel, args.foreground, 0, false⟩ = .ok q := by
    rw [buffers_configurationFile c hshort (Nat.le_refl _), List.append_assoc]
    exact Machine.foldlM_append_eq_ok.mpr ⟨p, hp, hq⟩
  have hshared := hsame.trans hfirst
  have hfile : q.shared.logFilePath ≠ none := by
    rw [hshared]
    exact Option.some_ne_none _
  unfold loggingShared initializeLogging
  rw [hread]
  show Except.map LogReader.shared (if q.shared.logFilePath = none then _ else .ok q) = _
  rw [if_neg hfile]
  exact congrArg Except.ok hshared

/-- **Round trip.**  Whatever the configuration and its servers, at most as many of each
kind as the tables have room for: `main` accepts the file, and goes on with the shared
memory of the configuration, in which the tables hold exactly these servers. -/
theorem configurationFile_read (hmalloc : ∀ line, build.malloc line = true) (args : MainArgs)
    (c : Configuration build) {entries : List (ServerEntry build)}
    (hshort : ∀ e ∈ entries, e.maxl.length ≤ 88)
    (hroom : ∀ kind, (ofKind kind entries).length ≤ maxServers) :
    ∃ s, mainConfig build args (configurationFile c entries) = .ok s ∧
      s.balancer.Lists entries ∧ OnlyTables (c.shared args) s := by
  have hlogged := loggingShared_configurationFile hmalloc args c hshort
  have hfold := c.foldl_set args
  generalize ({ initializeShared build args.debugLevel with
    logFilePath := some c.logFile
    debugLevel := if args.debugLevelOverride then args.debugLevel else c.debugLevel } :
      Shared L) = s₀ at hlogged hfold
  obtain ⟨p, hp, hbetween, herrno, hsame⟩ := c.parse_loggingLines
    (between_start s₀ args.serverIP args.serverName)
  obtain ⟨q, hq, hbetween', hshared⟩ := c.parse_globalLines hmalloc hbetween herrno
  have hsettings : q.shared = c.shared args := by
    rw [hshared, hsame]
    exact hfold
  have hempty : q.shared.balancer.Lists ([] : List (ServerEntry build)) := by
    rw [hsettings]
    exact lists_nil rfl rfl
  obtain ⟨r, hr, hlists, honly⟩ := foldlM_flatMap_lines hmalloc hbetween' hempty hroom
  rw [hsettings] at honly
  have hread : parseConfigFile build (configurationFile c entries)
      (Parser.start s₀ args.serverIP args.serverName) = .ok r := by
    unfold parseConfigFile
    rw [buffers_configurationFile c hshort (by decide)]
    exact Machine.foldlM_append_eq_ok.mpr
      ⟨q, Machine.foldlM_append_eq_ok.mpr ⟨p, hp, hq⟩, hr⟩
  refine ⟨r.shared, ?_, hlists, honly⟩
  unfold mainConfig
  rw [hlogged]
  show (parseConfigFile build (configurationFile c entries)
    (Parser.start s₀ args.serverIP args.serverName)).bind (fun p => .ok p.shared) = _
  rw [hread]
  rfl

end Reading

/-! ## A sample -/

/-- A configuration that hashes. -/
def hashConfiguration : Configuration sampleBuild where
  logFile := ascii "/var/log/octopuslb.log"
  debugLevel := 3
  snmpCommunityPw := ascii "public"
  snmpEnable := true
  shmRunDir := ascii "/var/run/octopuslb"
  sessionWeight := ascii "0"
  algorithm := .hash
  cloneMode := true
  overloadMode := .strict
  defaultMaxc := 500
  defaultMaxl := ascii "4"
  hashRebalanceThreshold := 30
  hashRebalanceSize := 5
  hashRebalanceInterval := 60
  shmPerms := 0o640
  monitorInterval := 5
  connectTimeout := 5
  sessionLimit := 1000
  fdLimit := 4096
  useSyslog := false
  bindingPort := 8080
  bindingIp := 0
  memberOutboundIp := some 0x0A000001
  cloneOutboundIp := none
  texts := by decide
  debugLevelFits := by decide
  weightNonneg := by decide
  maxlNonneg := by decide
  leastLoad := by decide
  percentages := by decide
  shmPermsFits := by decide
  monitorIntervalFits := by decide
  bindingPortFits := by decide
  connectTimeoutPos := by decide
  numbers := by decide

theorem configurationFile_read_hash : ∃ s,
    mainConfig sampleBuild ⟨false, 0, false, 0, []⟩
        (configurationFile hashConfiguration [webMember, spareClone]) = .ok s ∧
      s.balancer.Lists [webMember, spareClone] ∧
      OnlyTables (hashConfiguration.shared ⟨false, 0, false, 0, []⟩) s := by
  refine configurationFile_read (fun _ => rfl) _ hashConfiguration ?_ fun kind => ?_
  · exact List.forall_mem_cons.mpr ⟨by decide, List.forall_mem_singleton.mpr (by decide)⟩
  · cases kind <;> decide

end OctopusLB
