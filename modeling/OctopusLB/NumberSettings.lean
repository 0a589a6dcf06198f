/-
# The whole numbers in the configuration file

Thirteen settings are whole numbers.  Each is read by `strtol`, converted to an
`int` and tested by an `if` of its own, and some are converted once more when
they are stored.

* `apply_spec`: what a directive accepts, and what it stores;
* `inRange_iff`: the numbers accepted that are out of range are those that an
  `int` makes others, and those that the test leaves out;
* `convert_eq_iff`: a number in range is stored as it is exactly if it fits the
  type of the setting.
-/
import OctopusLB.SettingLimits
import OctopusLB.SectionIndependence

namespace OctopusLB

open CString

variable {L : Type}

/-! ## The settings -/

/-- The settings with a whole number, those of a server first. -/
inductive NumberSetting
  | port
  | maxc
  | defaultMaxc
  | hashRebalanceThreshold
  | hashRebalanceSize
  | hashRebalanceInterval
  | shmPerms
  | monitorInterval
  | connectTimeout
  | sessionLimit
  | fdLimit
  | useSyslog
  | bindingPort
  deriving DecidableEq

namespace NumberSetting

/-- The `if` of its chain. -/
def directive : NumberSetting → Directive (Parser L)
  | port => ServerSection.port
  | maxc => ServerSection.maxc
  | defaultMaxc => GlobalSection.defaultMaxc
  | hashRebalanceThreshold => GlobalSection.hashRebalanceThreshold
  | hashRebalanceSize => GlobalSection.hashRebalanceSize
  | hashRebalanceInterval => GlobalSection.hashRebalanceInterval
  | shmPerms => GlobalSection.shmPerms
  | monitorInterval => GlobalSection.monitorInterval
  | connectTimeout => GlobalSection.connectTimeout
  | sessionLimit => GlobalSection.sessionLimit
  | fdLimit => GlobalSection.fdLimit
  | useSyslog => GlobalSection.useSyslog
  | bindingPort => GlobalSection.bindingPort

/-- The part of the name that is compared. -/
def name : NumberSetting → String
  | port => "port"
  | maxc => "maxc"
  | defaultMaxc => "default_maxc"
  | hashRebalanceThreshold => "hash_rebalance_threshold"
  | hashRebalanceSize => "hash_rebalance_size"
  | hashRebalanceInterval => "hash_rebalance_interv"
  | shmPerms => "shm_perms"
  | monitorInterval => "monitor_interval"
  | connectTimeout => "connect_timeout"
  | sessionLimit => "session_limit"
  | fdLimit => "fd_limit"
  | useSyslog => "use_syslog"
  | bindingPort => "binding_port"

/-- It is one of a server section. -/
def OfSection : NumberSetting → Prop
  | port => True
  | maxc => True
  | _ => False

instance (x : NumberSetting) : Decidable x.OfSection :=
  match x with
  | port => isTrue trivial
  | maxc => isTrue trivial
  | defaultMaxc | hashRebalanceThreshold | hashRebalanceSize | hashRebalanceInterval | shmPerms
  | monitorInterval | connectTimeout | sessionLimit | fdLimit | useSyslog | bindingPort =>
      isFalse id

/-- The number in the shared memory or, for a server, in the variables. -/
def number (p : Parser L) : NumberSetting → ℤ
  | port => p.vars.serverPort
  | maxc => p.vars.serverMaxc
  | defaultMaxc => p.shared.balancer.defaultMaxc
  | hashRebalanceThreshold => p.shared.hashRebalanceThreshold
  | hashRebalanceSize => p.shared.hashRebalanceSize
  | hashRebalanceInterval => p.shared.hashRebalanceInterval
  | shmPerms => p.shared.shmPerms
  | monitorInterval => p.shared.monitorInterval
  | connectTimeout => p.shared.connectTimeout
  | sessionLimit => p.shared.sessionLimit
  | fdLimit => p.shared.fdLimit
  | useSyslog => p.shared.useSyslog
  | bindingPort => p.shared.bindingPort

/-! ## What is documented -/

/-- The digits of its numerals. -/
def digit : NumberSetting → UInt8 → Bool
  | shmPerms => fun b => 48 ≤ b && b ≤ 55
  | _ => isDigit

/-- The number in front of a value. -/
def value : NumberSetting → List UInt8 → ℤ
  | shmPerms => signedValue octalValue
  | _ => numberValue

/-- All of a value is a numeral. -/
def IsNumeral (x : NumberSetting) (v : List UInt8) : Prop :=
  (afterSign v).takeWhile x.digit ≠ [] ∧ (afterSign v).dropWhile x.digit = []

instance (x : NumberSetting) (v : List UInt8) : Decidable (x.IsNumeral v) := by
  unfold IsNumeral
  infer_instance

/-- The number that a value is. -/
def spells (x : NumberSetting) (v : List UInt8) : Option ℤ :=
  if x.IsNumeral v then some (x.value v) else none

/-- The least number of the range. -/
def lowest : NumberSetting → ℤ
  | port => 1
  | maxc => 1
  | defaultMaxc => 1
  | connectTimeout => 1
  | bindingPort => 1
  | _ => 0

/-- The greatest number of the range, where there is one: `777` is octal. -/
def highest : NumberSetting → Option ℤ
  | port => some 65535
  | hashRebalanceThreshold => some 99
  | hashRebalanceSize => some 99
  | shmPerms => some 511
  | useSyslog => some 1
  | bindingPort => some 65535
  | _ => none

/-- The range of the documentation and the messages. -/
def InRange (x : NumberSetting) (n : ℤ) : Prop := x.lowest ≤ n ∧ ∀ m ∈ x.highest, n ≤ m

/-! ## What is accepted -/

/-- What `strtol` reads. -/
def read : NumberSetting → List UInt8 → LongRead
  | shmPerms => readOctal
  | _ => readDecimal

/-- The test of the `int`; a default is not tested. -/
def test : NumberSetting → ℤ → Bool
  | port => fun v1 => 0 < v1 && v1 < 65536
  | maxc => fun v1 => 0 ≤ v1
  | defaultMaxc => fun _ => true
  | hashRebalanceThreshold => fun v1 => 0 ≤ v1 && v1 < 100
  | hashRebalanceSize => fun v1 => 0 ≤ v1 && v1 < 100
  | hashRebalanceInterval => fun v1 => 0 ≤ v1
  | shmPerms => fun v1 => 0 < v1 && v1 < 777
  | monitorInterval => fun v1 => 0 ≤ v1
  | connectTimeout => fun v1 => 0 < v1
  | sessionLimit => fun v1 => 0 ≤ v1
  | fdLimit => fun v1 => 0 ≤ v1
  | useSyslog => fun v1 => 0 ≤ v1 && v1 ≤ 1
  | bindingPort => fun v1 => 0 < v1

/-- The test of what `strtol` leaves behind: `errno` for three settings, for the
others that there are digits. -/
def complete : NumberSetting → LongRead → Bool
  | port => fun r => !r.erange
  | maxc => fun r => !r.erange
  | defaultMaxc => fun r => !r.erange
  | _ => LongRead.digits

/-- A value passes the tests. -/
def Accepts (x : NumberSetting) (v : List UInt8) : Prop :=
  x.complete (x.read v) = true ∧ x.test (toInt (x.read v).value) = true

/-- The conversion of the `int` to the type of the setting. -/
def convertInt : NumberSetting → ℤ → ℤ
  | monitorInterval => toUShort
  | _ => id

/-- The number that is stored. -/
def convert (x : NumberSetting) (v : List UInt8) : ℤ := x.convertInt (toInt (x.read v).value)

/-- Store an `int` in the shared memory, where a number is all that is stored. -/
def store (v1 : ℤ) (s : Shared L) : NumberSetting → Shared L
  | hashRebalanceThreshold => { s with hashRebalanceThreshold := v1 }
  | hashRebalanceSize => { s with hashRebalanceSize := v1 }
  | hashRebalanceInterval => { s with hashRebalanceInterval := v1 }
  | shmPerms => { s with shmPerms := v1 }
  | monitorInterval => { s with monitorInterval := toUShort v1 }
  | connectTimeout => { s with connectTimeout := v1 }
  | sessionLimit => { s with sessionLimit := v1 }
  | fdLimit => { s with fdLimit := v1 }
  | useSyslog => { s with useSyslog := v1 }
  | bindingPort => { s with bindingPort := v1 }
  | _ => s

/-- The numbers from this one on do not fit the type of the setting. -/
def limit : NumberSetting → ℤ
  | monitorInterval => 2 ^ 16
  | _ => 2 ^ 31

/-- The numbers of an `int` that are out of range and pass the test. -/
def Untested : NumberSetting → ℤ → Prop
  | maxc, n => n = 0
  | defaultMaxc, n => n ≤ 0
  | shmPerms, n => 512 ≤ n
  | bindingPort, n => 65536 ≤ n
  | _, _ => False

/-- No `int` that the test has a gap for, and none that becomes an `int` in range. -/
structure Tested (x : NumberSetting) (n : ℤ) : Prop where
  noGap : ¬ x.Untested n
  above : -2 ^ 31 ≤ n
  below : x.highest ≠ none → n < 2 ^ 31

/-! ## One value -/

theorem value_read (x : NumberSetting) (v : List UInt8) :
    (x.read v).value = clamp (x.value v) := by cases x <;> rfl

theorem spells_eq_some_iff {x : NumberSetting} {v : List UInt8} {n : ℤ} :
    x.spells v = some n ↔ x.IsNumeral v ∧ x.value v = n := by
  unfold spells
  split_ifs with h
  · rw [Option.some.injEq]
    exact ⟨fun heq => ⟨h, heq⟩, And.right⟩
  · exact ⟨nofun, fun hw => absurd hw.1 h⟩

/-- Where `errno` is tested, a number that is accepted is a `long`. -/
theorem range_of_not_erange {n : ℤ} {digits : Bool}
    (h : (!(LongRead.of n digits).erange) = true) : -2 ^ 63 ≤ n ∧ n < 2 ^ 63 := by
  unfold LongRead.of at h
  rw [Bool.not_not, Bool.and_eq_true, decide_eq_true_iff, decide_eq_true_iff] at h
  exact h

theorem Accepts.range {x : NumberSetting} {v : List UInt8} (h : x.Accepts v)
    (hx : x = port ∨ x = maxc ∨ x = defaultMaxc) : -2 ^ 63 ≤ x.value v ∧ x.value v < 2 ^ 63 := by
  rcases hx with rfl | rfl | rfl <;> exact range_of_not_erange h.1

theorem Accepts.test_clamp {x : NumberSetting} {v : List UInt8} (h : x.Accepts v) :
    x.test (toInt (clamp (x.value v))) = true := by
  rw [← value_read]
  exact h.2

theorem tested_iff {x : NumberSetting} {n : ℤ} :
    x.Tested n ↔ ¬ x.Untested n ∧ -2 ^ 31 ≤ n ∧ (x.highest ≠ none → n < 2 ^ 31) :=
  ⟨fun h => ⟨h.noGap, h.above, h.below⟩, fun h => ⟨h.1, h.2.1, h.2.2⟩⟩

/-- The numbers of an `int` are kept by the conversions. -/
theorem toInt_clamp {n : ℤ} (hlo : -2 ^ 31 ≤ n) (hhi : n < 2 ^ 31) : toInt (clamp n) = n := by
  rw [clamp_of_range (by omega)]
  exact toInt_of_range hlo hhi

/-- **What is let through**: of the values accepted, the numbers out of range are
those that the test does not cover. -/
theorem inRange_iff {x : NumberSetting} {v : List UInt8} (h : x.Accepts v) :
    x.InRange (x.value v) ↔ x.Tested (x.value v) := by
  have htest := h.test_clamp
  have hint := @toInt_clamp (x.value v)
  rw [tested_iff]
  unfold InRange
  generalize toInt (clamp (x.value v)) = v1 at htest hint
  generalize x.value v = n at hint ⊢
  cases x <;> simp [test, lowest, highest, Untested] at htest ⊢ <;> omega

theorem lowest_nonneg (x : NumberSetting) : 0 ≤ x.lowest := by cases x <;> decide

/-- **What is kept**: a number in range is stored as it is if it fits the type. -/
theorem convert_eq_iff {x : NumberSetting} {v : List UInt8} (h : x.InRange (x.value v)) :
    x.convert v = x.value v ↔ x.value v < x.limit := by
  have hnonneg : 0 ≤ x.value v := (lowest_nonneg x).trans h.1
  have hint : x.value v < 2 ^ 31 → toInt (clamp (x.value v)) = x.value v :=
    toInt_clamp (by omega)
  have hlt := toInt_lt (clamp (x.value v))
  unfold convert
  rw [value_read]
  generalize toInt (clamp (x.value v)) = v1 at hint hlt
  generalize x.value v = n at hnonneg hint ⊢
  cases x with
  | monitorInterval =>
      show v1 % 2 ^ 16 = n ↔ n < 2 ^ 16
      omega
  | _ => exact ⟨fun heq => lt_of_eq_of_lt heq.symm hlt, hint⟩

/-! ## One directive -/

/-- A directive with a number. -/
theorem numberDirective_apply {name message : String} {read : List UInt8 → LongRead}
    {accepts : ℤ → Bool} {set : ℤ → Shared L → Shared L} {v : List UInt8} {p q : Parser L}
    (h : (numberDirective name read accepts message set).apply v p = .ok q) :
    ((read v).digits = true ∧ accepts (toInt (read v).value) = true) ∧
      ∃ e, q = { p with shared := set (toInt (read v).value) p.shared, errno := e } := by
  unfold numberDirective globalDirective at h
  dsimp only at h
  split_ifs at h with htest
  · exact ⟨Bool.and_eq_true_iff.mp htest, _, (Except.ok.inj h).symm⟩
  · cases h

/-- The directive of a server section with what it sets. -/
theorem serverDirective_apply {name : String}
    {set : List UInt8 → ServerVars L → Bool → Except String (ServerVars L × Bool)} {v : List UInt8}
    {p q : Parser L} (h : (serverDirective name set).apply v p = .ok q) :
    ∃ vars e, set v p.vars p.errno = .ok (vars, e) ∧
      q = ({ p with vars := vars, errno := e } : Parser L).logged := by
  have hmap : (set v p.vars p.errno).map (fun r => { p with vars := r.1, errno := r.2 }.logged) =
      .ok q := h
  cases hset : set v p.vars p.errno with
  | error message =>
      rw [hset] at hmap
      cases hmap
  | ok r =>
      rw [hset] at hmap
      exact ⟨r.1, r.2, rfl, (Except.ok.inj hmap).symm⟩

theorem port_apply {v : List UInt8} {p q : Parser L}
    (h : (ServerSection.port (L := L)).apply v p = .ok q) :
    port.Accepts v ∧ ∃ e, q = { p with
      vars := { p.vars with serverPort := toInt (readDecimal v).value }, errno := e } := by
  obtain ⟨vars, e, hset, rfl⟩ := serverDirective_apply h
  dsimp only at hset
  split_ifs at hset with herange hport
  obtain ⟨rfl, rfl⟩ := Prod.mk.inj (Except.ok.inj hset)
  refine ⟨⟨?_, ?_⟩, _, rfl⟩
  · show (!(readDecimal v).erange) = true
    simpa using herange
  show (decide (0 < toInt (readDecimal v).value) &&
    decide (toInt (readDecimal v).value < 65536)) = _
  rw [Bool.and_eq_true, decide_eq_true_iff, decide_eq_true_iff]
  exact hport

theorem maxc_apply {v : List UInt8} {p q : Parser L}
    (h : (ServerSection.maxc (L := L)).apply v p = .ok q) :
    maxc.Accepts v ∧ ∃ e, q = { p with
      vars := { p.vars with serverMaxc := toInt (readDecimal v).value }, errno := e } := by
  obtain ⟨vars, e, hset, rfl⟩ := serverDirective_apply h
  dsimp only at hset
  split_ifs at hset with herange hmaxc
  obtain ⟨rfl, rfl⟩ := Prod.mk.inj (Except.ok.inj hset)
  refine ⟨⟨?_, decide_eq_true hmaxc⟩, _, rfl⟩
  show (!(readDecimal v).erange) = true
  simpa using herange

/-- A default is that of the section being read as well. -/
theorem defaultMaxc_apply {v : List UInt8} {p q : Parser L}
    (h : (GlobalSection.defaultMaxc (L := L)).apply v p = .ok q) :
    defaultMaxc.Accepts v ∧ ∃ e, q = { p with
      shared := p.shared.modifyBalancer fun b =>
        { b with defaultMaxc := toInt (readDecimal v).value }
      vars := { p.vars with serverMaxc := toInt (readDecimal v).value }
      errno := e } := by
  unfold GlobalSection.defaultMaxc globalDirective at h
  dsimp only at h
  split_ifs at h with herror
  · cases h
  · rw [Bool.or_eq_true, not_or] at herror
    refine ⟨⟨?_, rfl⟩, _, (Except.ok.inj h).symm⟩
    show (!(readDecimal v).erange) = true
    simpa using herror.2

/-- The ten that are written by a directive with a number. -/
theorem directive_eq {x : NumberSetting} (hport : x ≠ port) (hmaxc : x ≠ maxc)
    (hdefault : x ≠ defaultMaxc) : ∃ name message, x.directive (L := L) =
      numberDirective name x.read x.test message fun v1 s => x.store v1 s := by
  cases x with
  | port => exact absurd rfl hport
  | maxc => exact absurd rfl hmaxc
  | defaultMaxc => exact absurd rfl hdefault
  | _ => exact ⟨_, _, rfl⟩

/-- **A directive** accepts a value and stores its number, or reports an error. -/
theorem apply_spec {x : NumberSetting} {v : List UInt8} {p q : Parser L}
    (h : x.directive.apply v p = .ok q) : x.Accepts v ∧ x.number q = x.convert v := by
  by_cases hport : x = port
  · subst hport
    obtain ⟨haccepts, e, rfl⟩ := port_apply h
    exact ⟨haccepts, rfl⟩
  by_cases hmaxc : x = maxc
  · subst hmaxc
    obtain ⟨haccepts, e, rfl⟩ := maxc_apply h
    exact ⟨haccepts, rfl⟩
  by_cases hdefault : x = defaultMaxc
  · subst hdefault
    obtain ⟨haccepts, e, rfl⟩ := defaultMaxc_apply h
    exact ⟨haccepts, rfl⟩
  obtain ⟨name, message, hdirective⟩ := directive_eq (L := L) hport hmaxc hdefault
  rw [hdirective] at h
  obtain ⟨⟨hdigits, htest⟩, e, rfl⟩ := numberDirective_apply h
  refine ⟨⟨?_, htest⟩, ?_⟩
  · cases x <;> first | contradiction | exact hdigits
  · cases x <;> first | contradiction | rfl

theorem usesValue_directive (x : NumberSetting) : (x.directive (L := L)).usesValue = true := by
  cases x <;> rfl

theorem name_directive (x : NumberSetting) : (x.directive (L := L)).name = x.name := by
  cases x <;> rfl

/-- A number is stored in one place. -/
theorem number_store {x y : NumberSetting} (hne : y ≠ x) (v1 : ℤ) (p : Parser L) (e : Bool) :
    y.number { p with shared := x.store v1 p.shared, errno := e } = y.number p := by
  cases x <;> cases y <;> first | rfl | contradiction

/-! ## The other directives -/

/-- No number, and no state or kind of a server has changed. -/
structure SameNumbers (p q : Parser L) : Prop where
  number : ∀ x : NumberSetting, x.number q = x.number p
  status : q.vars.serverStatus = p.vars.serverStatus
  clone : q.vars.serverClone = p.vars.serverClone

/-- What a global directive may change of the numbers: its own, and with a default
that of the section being read. -/
structure OwnNumber (d : Directive (Parser L)) (p q : Parser L) : Prop where
  number : ∀ x : NumberSetting,
    (¬ x.OfSection ∧ d = x.directive) ∨ (d = defaultMaxc.directive ∧ x = maxc) ∨
      x.number q = x.number p
  status : q.vars.serverStatus = p.vars.serverStatus
  clone : q.vars.serverClone = p.vars.serverClone

theorem SameNumbers.ownNumber {d : Directive (Parser L)} {p q : Parser L} (h : SameNumbers p q) :
    OwnNumber d p q :=
  ⟨fun x => Or.inr (Or.inr (h.number x)), h.status, h.clone⟩

theorem sameNumbers_shmRunDir {build : Build L} {v : List UInt8} {p q : Parser L}
    (h : (GlobalSection.shmRunDir build).apply v p = .ok q) : SameNumbers p q := by
  obtain ⟨r, hr, rfl⟩ := globalDirective_ok h
  dsimp only at hr
  split_ifs at hr
  obtain rfl := Except.ok.inj hr
  exact ⟨fun x => by cases x <;> rfl, rfl, rfl⟩

theorem sameNumbers_snmp {build : Build L} {v : List UInt8} {p q : Parser L}
    (h : (GlobalSection.snmpCommunityPw build).apply v p = .ok q ∨
      (GlobalSection.snmpEnable build).apply v p = .ok q) : SameNumbers p q := by
  rcases h with h | h
  · rcases snmpDirective_ok h with ⟨r, hr, rfl⟩ | rfl
    · dsimp only at hr
      split_ifs at hr
      obtain rfl := Except.ok.inj hr
      exact ⟨fun x => by cases x <;> rfl, rfl, rfl⟩
    · exact ⟨fun x => by cases x <;> rfl, rfl, rfl⟩
  · rcases snmpDirective_ok h with ⟨r, hr, rfl⟩ | rfl
    · obtain rfl := Except.ok.inj hr
      exact ⟨fun x => by cases x <;> rfl, rfl, rfl⟩
    · exact ⟨fun x => by cases x <;> rfl, rfl, rfl⟩

theorem sameNumbers_algorithm {build : Build L} {v : List UInt8} {p q : Parser L}
    (h : (GlobalSection.algorithm build).apply v p = .ok q) : SameNumbers p q := by
  obtain ⟨r, hr, rfl⟩ := globalDirective_ok h
  cases halgorithm : GlobalSection.algorithmOf build v with
  | error message =>
      rw [halgorithm] at hr
      cases hr
  | ok value =>
      rw [halgorithm] at hr
      obtain rfl := Except.ok.inj hr
      exact ⟨fun x => by cases x <;> rfl, rfl, rfl⟩

/-- The modes. -/
theorem sameNumbers_modes {v : List UInt8} {p q : Parser L}
    (h : (GlobalSection.cloneMode (L := L)).apply v p = .ok q ∨
      (GlobalSection.overloadMode (L := L)).apply v p = .ok q) : SameNumbers p q := by
  rcases h with h | h <;>
    · obtain ⟨r, hr, rfl⟩ := globalDirective_ok h
      split_ifs at hr
      · obtain rfl := Except.ok.inj hr
        exact ⟨fun x => by cases x <;> rfl, rfl, rfl⟩
      · obtain rfl := Except.ok.inj hr
        exact ⟨fun x => by cases x <;> rfl, rfl, rfl⟩

/-- The numbers that `atof` reads. -/
theorem sameNumbers_atof {build : Build L} {v : List UInt8} {p q : Parser L}
    (h : (GlobalSection.sessionWeight build).apply v p = .ok q ∨
      (GlobalSection.defaultMaxl build).apply v p = .ok q) : SameNumbers p q := by
  rcases h with h | h <;>
    · obtain ⟨r, hr, rfl⟩ := globalDirective_ok h
      split_ifs at hr
      obtain rfl := Except.ok.inj hr
      exact ⟨fun x => by cases x <;> rfl, rfl, rfl⟩

theorem sameNumbers_address {name message : String} {set : UInt32 → Shared L → Shared L}
    (hset : ∀ a (p : Parser L) (x : NumberSetting),
      x.number { p with shared := set a p.shared } = x.number p) {v : List UInt8} {p q : Parser L}
    (h : (addressDirective name message set).apply v p = .ok q) : SameNumbers p q := by
  obtain ⟨a, rfl⟩ := addressDirective_ok h
  exact ⟨fun x => by rw [← hset a p x]; cases x <;> rfl, rfl, rfl⟩

theorem ownNumber_directive {x : NumberSetting} (hx : ¬ x.OfSection) {v : List UInt8}
    {p q : Parser L} (h : x.directive.apply v p = .ok q) : OwnNumber x.directive p q := by
  have hport : x ≠ port := fun heq => hx (heq ▸ trivial)
  have hmaxc : x ≠ maxc := fun heq => hx (heq ▸ trivial)
  by_cases hdefault : x = defaultMaxc
  · subst hdefault
    obtain ⟨-, e, rfl⟩ := defaultMaxc_apply h
    refine ⟨fun y => ?_, rfl, rfl⟩
    cases y with
    | defaultMaxc => exact Or.inl ⟨id, rfl⟩
    | maxc => exact Or.inr (Or.inl ⟨rfl, rfl⟩)
    | _ => exact Or.inr (Or.inr rfl)
  · obtain ⟨name, message, hdirective⟩ := directive_eq (L := L) hport hmaxc hdefault
    have happly := h
    rw [hdirective] at happly
    obtain ⟨-, e, rfl⟩ := numberDirective_apply happly
    refine ⟨fun y => ?_, rfl, rfl⟩
    by_cases hy : y = x
    · exact Or.inl ⟨hy ▸ hx, congrArg NumberSetting.directive hy.symm⟩
    · exact Or.inr (Or.inr (number_store hy _ p e))

/-- **The global directives** change no number but their own. -/
theorem ownNumber_global (build : Build L) : ∀ d ∈ GlobalSection.directives build,
    ∀ v p q, d.apply v p = .ok q → OwnNumber d p q := by
  unfold GlobalSection.directives
  simp only [List.forall_mem_cons]
  refine ⟨fun v p q h => (sameNumbers_snmp (Or.inl h)).ownNumber,
    fun v p q h => (sameNumbers_snmp (Or.inr h)).ownNumber,
    fun v p q h => (sameNumbers_shmRunDir h).ownNumber,
    fun v p q h => (sameNumbers_atof (Or.inl h)).ownNumber,
    fun v p q h => (sameNumbers_algorithm h).ownNumber,
    fun v p q h => (sameNumbers_modes (Or.inl h)).ownNumber,
    fun v p q h => (sameNumbers_modes (Or.inr h)).ownNumber,
    fun v p q h => ownNumber_directive (x := defaultMaxc) id h,
    fun v p q h => (sameNumbers_atof (Or.inr h)).ownNumber,
    fun v p q h => ownNumber_directive (x := hashRebalanceThreshold) id h,
    fun v p q h => ownNumber_directive (x := hashRebalanceSize) id h,
    fun v p q h => ownNumber_directive (x := hashRebalanceInterval) id h,
    fun v p q h => ownNumber_directive (x := shmPerms) id h,
    fun v p q h => ownNumber_directive (x := monitorInterval) id h,
    fun v p q h => ownNumber_directive (x := connectTimeout) id h,
    fun v p q h => ownNumber_directive (x := sessionLimit) id h,
    fun v p q h => ownNumber_directive (x := fdLimit) id h,
    fun v p q h => ownNumber_directive (x := useSyslog) id h,
    fun v p q h => ownNumber_directive (x := bindingPort) id h, ?_⟩
  refine ⟨fun v p q h => ?_, fun v p q h => ?_, fun v p q h => ?_, fun d hd => nomatch hd⟩
  all_goals exact (sameNumbers_address (fun a p x => by cases x <;> rfl) h).ownNumber

/-- What a directive of a section may change: its own setting. -/
structure OwnSetting (d : Directive (Parser L)) (p q : Parser L) : Prop where
  number : ∀ x : NumberSetting, (x.OfSection ∧ d = x.directive) ∨ x.number q = x.number p
  shared : q.shared = p.shared
  inServerSection : q.inServerSection = p.inServerSection
  live : p.vars.serverStatus ≠ .free → q.vars.serverStatus ≠ .free
  clone : d = ServerSection.clone ∨ q.vars.serverClone = p.vars.serverClone

/-- A directive of a section that leaves the numbers alone. -/
theorem ownSetting_of_vars {name : String}
    {set : List UInt8 → ServerVars L → Bool → Except String (ServerVars L × Bool)}
    (hset : ∀ v vars errno r, set v vars errno = .ok r →
      r.1.serverPort = vars.serverPort ∧ r.1.serverMaxc = vars.serverMaxc ∧
        (vars.serverStatus ≠ .free → r.1.serverStatus ≠ .free) ∧
          (serverDirective name set = ServerSection.clone ∨ r.1.serverClone = vars.serverClone))
    {v : List UInt8} {p q : Parser L}
    (h : (serverDirective name set).apply v p = .ok q) :
    OwnSetting (serverDirective name set) p q := by
  obtain ⟨vars, e, hok, rfl⟩ := serverDirective_apply h
  obtain ⟨hport, hmaxc, hlive, hclone⟩ := hset v p.vars p.errno _ hok
  refine ⟨fun x => Or.inr ?_, rfl, rfl, hlive, hclone⟩
  cases x with
  | port => exact hport
  | maxc => exact hmaxc
  | _ => rfl

/-- The settings with two values. -/
theorem ownSetting_state {d : Directive (Parser L)}
    (hd : d = ServerSection.status ∨ d = ServerSection.standby ∨ d = ServerSection.clone)
    {v : List UInt8} {p q : Parser L} (h : d.apply v p = .ok q) : OwnSetting d p q := by
  rcases hd with rfl | rfl | rfl <;>
    · refine ownSetting_of_vars (fun v vars errno r hr => ?_) h
      split_ifs at hr
      all_goals
        obtain rfl := Except.ok.inj hr
        exact ⟨rfl, rfl, by first | exact id | exact fun _ => nofun,
          by first | exact Or.inr rfl | exact Or.inl rfl⟩

theorem ownSetting_maxl {build : Build L} {v : List UInt8} {p q : Parser L}
    (h : (ServerSection.maxl build).apply v p = .ok q) :
    OwnSetting (ServerSection.maxl build) p q := by
  refine ownSetting_of_vars (fun v vars errno r hr => ?_) h
  split_ifs at hr
  obtain rfl := Except.ok.inj hr
  exact ⟨rfl, rfl, id, Or.inr rfl⟩

theorem ownSetting_ip {v : List UInt8} {p q : Parser L}
    (h : (ServerSection.ip (L := L)).apply v p = .ok q) : OwnSetting ServerSection.ip p q := by
  refine ownSetting_of_vars (fun v vars errno r hr => ?_) h
  cases ha : inetAton v with
  | none =>
      rw [ha] at hr
      cases hr
  | some a =>
      rw [ha] at hr
      obtain rfl := Except.ok.inj hr
      exact ⟨rfl, rfl, id, Or.inr rfl⟩

/-- **The directives of a section** change no number but their own. -/
theorem ownSetting_section (build : Build L) : ∀ d ∈ ServerSection.directives build,
    ∀ v p q, d.apply v p = .ok q → OwnSetting d p q := by
  unfold ServerSection.directives
  simp only [List.forall_mem_cons]
  refine ⟨fun v p q h => ?_, fun v p q h => ?_, fun v p q h => ownSetting_maxl h,
    fun v p q h => ownSetting_state (Or.inl rfl) h,
    fun v p q h => ownSetting_state (Or.inr (Or.inl rfl)) h, fun v p q h => ownSetting_ip h,
    fun v p q h => ownSetting_state (Or.inr (Or.inr rfl)) h, fun d hd => nomatch hd⟩
  · obtain ⟨-, e, rfl⟩ := port_apply h
    refine ⟨fun x => ?_, rfl, rfl, id, Or.inr rfl⟩
    cases x with
    | port => exact Or.inl ⟨trivial, rfl⟩
    | _ => exact Or.inr rfl
  · obtain ⟨-, e, rfl⟩ := maxc_apply h
    refine ⟨fun x => ?_, rfl, rfl, id, Or.inr rfl⟩
    cases x with
    | maxc => exact Or.inl ⟨trivial, rfl⟩
    | _ => exact Or.inr rfl

/-- A line for the kind of the server. -/
theorem clone_apply {v : List UInt8} {p q : Parser L}
    (h : (ServerSection.clone (L := L)).apply v p = .ok q) :
    q.vars.serverClone = (p.vars.serverClone || hasPrefix "true" v) := by
  obtain ⟨vars, e, hok, rfl⟩ := serverDirective_apply h
  show vars.serverClone = _
  split_ifs at hok with htrue
  all_goals obtain ⟨rfl, -⟩ := Prod.mk.inj (Except.ok.inj hok)
  · rw [htrue, Bool.or_true]
  all_goals
    rw [Bool.not_eq_true] at htrue
    rw [htrue, Bool.or_false]

/-- **The kind of a server** after a line of its section. -/
theorem clone_section {build : Build L} {n : ℕ} {directive : List UInt8}
    {value : Option (List UInt8)} {p q : Parser L}
    (h : Directive.runAll (ServerSection.directives build) n directive value p = .ok q) :
    q.vars.serverClone = (p.vars.serverClone ||
      (hasPrefix "clone" directive && value.any (hasPrefix "true"))) := by
  have hsplit : ServerSection.directives build =
      (ServerSection.directives build).dropLast ++ [ServerSection.clone] := rfl
  have hname : ∀ d ∈ (ServerSection.directives build).dropLast, d.name ≠ "clone" := by
    simp [ServerSection.directives, ServerSection.port, ServerSection.maxc, ServerSection.maxl,
      ServerSection.status, ServerSection.standby, ServerSection.ip, serverDirective]
  rw [hsplit] at h
  obtain ⟨r, hothers, hlast⟩ := Machine.foldlM_append_eq_ok.mp h
  have hr : r.vars.serverClone = p.vars.serverClone := by
    refine Directive.runAll_keeps (P := fun s => s.vars.serverClone = p.vars.serverClone) ?_
      hothers rfl
    intro d hd _ v s t _ happly hs
    rcases (ownSetting_section build d (hsplit ▸ List.mem_append_left _ hd) v s t happly).clone with
      rfl | hsame
    · exact absurd rfl (hname _ hd)
    · exact hsame.trans hs
  obtain ⟨s, hrun, hnil⟩ := Machine.foldlM_cons_eq_ok.mp hlast
  obtain rfl := Except.ok.inj hnil
  rcases Directive.run_cases hrun with ⟨hno, rfl⟩ | ⟨hname, v, hvalue, happly⟩
  · have hno' : hasPrefix "clone" directive = false := hno
    rw [hr, hno', Bool.false_and, Bool.or_false]
  · have hname' : hasPrefix "clone" directive = true := hname
    rw [clone_apply happly, hr, hname', hvalue rfl]
    rfl

/-! ## Chains -/

section Chain

variable {x : NumberSetting} {chain : List (Directive (Parser L))} {n : ℕ}
  {directive : List UInt8} {value : Option (List UInt8)} {p q : Parser L} {Own : Prop}

/-- A value that is accepted, and is what is stored. -/
def Stores (x : NumberSetting) (value : Option (List UInt8)) (q : Parser L) : Prop :=
  ∃ v, value = some v ∧ x.Accepts v ∧ x.number q = x.convert v

/-- **A line for a setting** stores its number, whatever the directives behind do. -/
theorem stores_runAll (hx : x.directive ∈ chain) (hname : hasPrefix x.name directive = true)
    (hchain : ∀ d ∈ chain, ∀ v p q, d.apply v p = .ok q →
      (Own ∧ d = x.directive) ∨ x.number q = x.number p)
    (h : Directive.runAll chain n directive value p = .ok q) : x.Stores value q := by
  have hsets : ∀ v (p q : Parser L),
      ((x.directive (L := L)).usesValue = true → value = some v) →
        x.directive.apply v p = .ok q → x.Stores value q := by
    intro v p q hvalue happly
    obtain ⟨haccepts, hnumber⟩ := apply_spec happly
    exact ⟨v, hvalue (usesValue_directive x), haccepts, hnumber⟩
  refine Directive.runAll_sets hx ((name_directive (L := L) x).symm ▸ hname) hsets ?_ h
  intro d hd _ v r s hvalue happly hstores
  rcases hchain d hd v r s happly with ⟨-, rfl⟩ | hsame
  · exact hsets v r s hvalue happly
  · obtain ⟨w, hw, haccepts, hnumber⟩ := hstores
    exact ⟨w, hw, haccepts, hsame.trans hnumber⟩

/-- Another line does not change it. -/
theorem number_runAll (hno : ¬ (Own ∧ hasPrefix x.name directive = true))
    (hchain : ∀ d ∈ chain, ∀ v p q, d.apply v p = .ok q →
      (Own ∧ d = x.directive) ∨ x.number q = x.number p)
    (h : Directive.runAll chain n directive value p = .ok q) : x.number q = x.number p := by
  refine Directive.runAll_keeps (P := fun s => x.number s = x.number p) ?_ h rfl
  intro d hd hname v r s _ happly hnumber
  rcases hchain d hd v r s happly with ⟨hown, rfl⟩ | hsame
  · rw [name_directive] at hname
    exact absurd ⟨hown, hname⟩ hno
  · exact hsame.trans hnumber

end Chain

end NumberSetting

end OctopusLB
