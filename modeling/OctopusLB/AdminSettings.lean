/-
# Admin commands for the settings (`admin.c`)

`cmd_hri`, `cmd_hrs`, `cmd_hrt` and `cmd_monitor` read a whole number with
`strtol`, test `errno` as it was left by whatever ran before, and store the
number; `cmd_debug` has a test of its own, and `cmd_snmp` knows two words.  All
return 0, or -1 with an error message.
-/
import OctopusLB.Settings

namespace OctopusLB

open CString

variable {L : Type}

/-- `errno`: cleared, `ERANGE`, or another error. -/
inductive Errno
  | none
  | erange
  | other
  deriving DecidableEq, Repr

/-- `errno` after a call of `strtol`, which does not clear it. -/
def Errno.after (errno : Errno) (r : LongRead) : Errno := if r.erange then .erange else errno

/-- The test for an error of `strtol`. -/
def invalidParameter (errno : Errno) (v1 : ℤ) : Bool :=
  (errno = .erange && (v1 = 2 ^ 63 - 1 || v1 = -2 ^ 63)) || (errno ≠ .none && v1 = 0)

/-- A command that sets a number, with its return value. -/
def numberCommand (accepts : ℤ → Bool) (set : ℤ → Shared L → Shared L) (readonly : Bool)
    (errno : Errno) (value : List UInt8) (s : Shared L) : Shared L × ℤ :=
  if readonly then (s, -1)
  else
    let r := readDecimal value
    if invalidParameter (errno.after r) r.value then (s, -1)
    else if accepts r.value then (set r.value s, 0)
    else (s, -1)

/-- `cmd_hri`. -/
def cmdHri : Bool → Errno → List UInt8 → Shared L → Shared L × ℤ :=
  numberCommand (fun v1 => 0 ≤ v1) fun v1 s => { s with hashRebalanceInterval := toInt v1 }

/-- `cmd_hrs`. -/
def cmdHrs : Bool → Errno → List UInt8 → Shared L → Shared L × ℤ :=
  numberCommand (fun v1 => 0 ≤ v1 && v1 ≤ 100) fun v1 s => { s with hashRebalanceSize := toInt v1 }

/-- `cmd_hrt`. -/
def cmdHrt : Bool → Errno → List UInt8 → Shared L → Shared L × ℤ :=
  numberCommand (fun v1 => 0 ≤ v1 && v1 ≤ 100)
    fun v1 s => { s with hashRebalanceThreshold := toInt v1 }

/-- `cmd_monitor`. -/
def cmdMonitor : Bool → Errno → List UInt8 → Shared L → Shared L × ℤ :=
  numberCommand (fun _ => true) fun v1 s => { s with monitorInterval := toUShort v1 }

/-- `cmd_debug`; any error counts. -/
def cmdDebug (readonly : Bool) (errno : Errno) (value : List UInt8) (s : Shared L) :
    Shared L × ℤ :=
  if readonly then (s, -1)
  else
    let r := readDecimal value
    if errno.after r ≠ .none then (s, -1)
    else ({ s with debugLevel := toInt r.value }, 0)

/-- `cmd_snmp`; other words than the two are accepted as well. -/
def cmdSnmp (readonly : Bool) (value : Option (List UInt8)) (s : Shared L) : Shared L × ℤ :=
  if readonly then (s, -1)
  else if s.snmpStatus = .notIncluded then (s, -1)
  else
    match value with
    | none => (s, -1)
    | some value =>
        let s := if hasPrefix "on" value then { s with snmpStatus := .enabled } else s
        (if hasPrefix "off" value then { s with snmpStatus := .disabled } else s, 0)

/-! ## Read-only mode -/

section Readonly

variable (errno : Errno) (value : List UInt8) (s : Shared L)

@[simp] theorem numberCommand_readonly (accepts : ℤ → Bool) (set : ℤ → Shared L → Shared L) :
    numberCommand accepts set true errno value s = (s, -1) := rfl

@[simp] theorem cmdDebug_readonly : cmdDebug true errno value s = (s, -1) := rfl

@[simp] theorem cmdSnmp_readonly (value : Option (List UInt8)) :
    cmdSnmp true value s = (s, -1) := rfl

end Readonly

end OctopusLB
