/-
# The configuration file (`config.c`, `initialize_logging`)

`parse_config_file` reads the file line by line, splits each line into a
directive and a value, and runs it through a chain of `if`s, one for each
directive that it knows; the variables of the server section being read are
kept across lines.  `initialize_logging` has read the same file before, through
a smaller buffer, for the two directives of its own.

A directive of either chain is one `Directive`; the ways in which reading can
end before the end of the file are those of `Halt`.
-/
import Mathlib.Data.List.DropRight
import OctopusLB.Machine
import OctopusLB.Settings
import OctopusLB.TextLines

namespace OctopusLB

open CString TextLines

variable {L : Type}

/-! ## Lines -/

/-- `trim_white_space`. -/
def trimWhiteSpace (str : List UInt8) : List UInt8 := (str.dropWhile isSpace).rdropWhile isSpace

/-- What a line is split into; `none` for `NULL`. -/
structure ConfigLine where
  directive : Option (List UInt8)
  value : Option (List UInt8)
  deriving DecidableEq

/-- The delimiters of the value, `" ="`. -/
def valueDelimiter (b : UInt8) : Bool := b = 32 || b = 61

/-- The two calls of `strtok` on the buffer that `fgets` has filled. -/
def splitLine (buffer : List UInt8) : ConfigLine :=
  match nextToken (· = 61) (buffer.takeWhile (· ≠ 0)) with
  | none => ⟨none, none⟩
  | some (directive, rest) =>
      ⟨some (trimWhiteSpace directive),
        (nextToken valueDelimiter rest).map fun t => trimWhiteSpace t.1⟩

/-- The room for bytes in the buffer of `parse_config_file`. -/
def configRoom : ℕ := 999

/-- The room in that of `initialize_logging`, `MAX_CONF_LINE_LEN - 1`. -/
def loggingRoom : ℕ := 99

/-- The contents of a buffer with that room, one call of `fgets` after the
other. -/
def buffers (room : ℕ) (file : List UInt8) : List (List UInt8) := (located room file).map Prod.snd

/-! ## Directives -/

/-- Reading ends: an error is reported for a line, a null pointer is followed,
a section name of a length out of range is copied, or a server is written behind
both tables. -/
inductive Halt
  | exit (line : ℕ) (message : String)
  | null
  | badLength (length : ℤ)
  | overrun

/-- One `if` of a chain: the prefix that the directive must have, whether the
value is looked at, and what is done. -/
structure Directive (σ : Type) where
  name : String
  usesValue : Bool
  apply : List UInt8 → σ → Except String σ

namespace Directive

/-- Run one `if` of a chain. -/
def run {σ : Type} (lineCounter : ℕ) (directive : List UInt8) (value : Option (List UInt8))
    (s : σ) (d : Directive σ) : Except Halt σ :=
  if hasPrefix d.name directive then
    match if d.usesValue then value else some [] with
    | none => .error .null
    | some v => (d.apply v s).mapError (.exit lineCounter)
  else .ok s

/-- Run a chain. -/
def runAll {σ : Type} (chain : List (Directive σ)) (lineCounter : ℕ) (directive : List UInt8)
    (value : Option (List UInt8)) (s : σ) : Except Halt σ :=
  chain.foldlM (run lineCounter directive value) s

end Directive

/-! ## The state of `parse_config_file` -/

/-- The variables that a server section is collected in. -/
structure ServerVars (L : Type) where
  serverStatus : ServerStatus
  serverClone : Bool
  standbyState : Bool
  serverPort : ℤ
  serverMaxc : ℤ
  serverMaxl : L
  serverIP : UInt32
  serverName : List UInt8

/-- The local variables of `parse_config_file`, the shared memory, and whether
`errno` is set. -/
structure Parser (L : Type) where
  shared : Shared L
  vars : ServerVars L
  inServerSection : Bool
  lineCounter : ℕ
  errno : Bool

namespace Parser

/-- Every directive ends with a call of `write_log` if `debug_level` is positive,
which clears `errno`. -/
def logged (p : Parser L) : Parser L :=
  { p with errno := p.errno && p.shared.debugLevel ≤ 0 }

/-- The variables at the start, and again after a section. -/
def freshVars (shared : Shared L) (serverIP : UInt32) (serverName : List UInt8) :
    ServerVars L where
  serverStatus := .enabled
  serverClone := false
  standbyState := false
  serverPort := 80
  serverMaxc := shared.balancer.defaultMaxc
  serverMaxl := shared.balancer.defaultMaxl
  serverIP := serverIP
  serverName := serverName

/-- The start of `parse_config_file`; address and name are not initialised. -/
def start (shared : Shared L) (serverIP : UInt32) (serverName : List UInt8) : Parser L where
  shared := shared
  vars := freshVars shared serverIP serverName
  inServerSection := false
  lineCounter := 0
  errno := false

end Parser

/-! ## The directives of a server section -/

/-- A directive of a server section: what it does to the variables and to
`errno`. -/
def serverDirective (name : String)
    (set : List UInt8 → ServerVars L → Bool → Except String (ServerVars L × Bool)) :
    Directive (Parser L) where
  name := name
  usesValue := true
  apply v p := (set v p.vars p.errno).map fun r => { p with vars := r.1, errno := r.2 }.logged

namespace ServerSection

def port : Directive (Parser L) :=
  serverDirective "port" fun v vars _ =>
    let r := readDecimal v
    if r.erange then .error "port value invalid"
    else if 0 < toInt r.value ∧ toInt r.value < 65536 then
      .ok ({ vars with serverPort := toInt r.value }, false)
    else .error ""

def maxc : Directive (Parser L) :=
  serverDirective "maxc" fun v vars _ =>
    let r := readDecimal v
    if r.erange then .error "maxc value invalid"
    else if 0 ≤ toInt r.value then .ok ({ vars with serverMaxc := toInt r.value }, false)
    else .error "maxc value invalid"

def maxl (build : Build L) : Directive (Parser L) :=
  serverDirective "maxl" fun v vars errno =>
    if build.positive (build.atof v) then
      .ok ({ vars with serverMaxl := build.atof v }, errno || build.atofRange v)
    else .error "maxl value invalid"

/-- Only five characters of `status` are compared. -/
def status : Directive (Parser L) :=
  serverDirective "statu" fun v vars errno =>
    if hasPrefix "enabled" v then .ok ({ vars with serverStatus := .enabled }, errno)
    else if hasPrefix "disabled" v then .ok ({ vars with serverStatus := .disabled }, errno)
    else if errno then .error "status value invalid"
    else .ok (vars, errno)

def standby : Directive (Parser L) :=
  serverDirective "standby" fun v vars errno =>
    if hasPrefix "true" v then .ok ({ vars with standbyState := true }, errno)
    else if hasPrefix "false" v then .ok ({ vars with standbyState := false }, errno)
    else if errno then .error "standby state value invalid"
    else .ok (vars, errno)

def ip : Directive (Parser L) :=
  serverDirective "ip" fun v vars errno =>
    match inetAton v with
    | some serverIP => .ok ({ vars with serverIP := serverIP }, errno)
    | none => .error "IP invalid"

/-- The value `false` goes to `standbyState`. -/
def clone : Directive (Parser L) :=
  serverDirective "clone" fun v vars errno =>
    if hasPrefix "true" v then .ok ({ vars with serverClone := true }, errno)
    else if hasPrefix "false" v then .ok ({ vars with standbyState := false }, errno)
    else if errno then .error "server type value invalid"
    else .ok (vars, errno)

/-- The chain, in the order of the source. -/
def directives (build : Build L) : List (Directive (Parser L)) :=
  [port, maxc, maxl build, status, standby, ip, clone]

end ServerSection

/-! ## Global directives -/

/-- A global directive. -/
def globalDirective (name : String) (apply : List UInt8 → Parser L → Except String (Parser L)) :
    Directive (Parser L) where
  name := name
  usesValue := true
  apply v p := (apply v p).map Parser.logged

/-- A directive that only SNMP builds act on; others log that it has no effect. -/
def snmpDirective (name : String) (build : Build L)
    (apply : List UInt8 → Parser L → Except String (Parser L)) : Directive (Parser L) where
  name := name
  usesValue := build.useSnmp
  apply v p := if build.useSnmp then (apply v p).map Parser.logged else .ok { p with errno := false }

/-- A directive with a whole number, which is read into an `int`. -/
def numberDirective (name : String) (read : List UInt8 → LongRead) (accepts : ℤ → Bool)
    (message : String) (set : ℤ → Shared L → Shared L) : Directive (Parser L) :=
  globalDirective name fun v p =>
    let r := read v
    if r.digits && accepts (toInt r.value) then
      .ok { p with shared := set (toInt r.value) p.shared, errno := p.errno || r.erange }
    else .error message

/-- A directive with an address. -/
def addressDirective (name message : String) (set : UInt32 → Shared L → Shared L) :
    Directive (Parser L) :=
  globalDirective name fun v p =>
    match inetAton v with
    | some a => .ok { p with shared := set a p.shared }
    | none => .error message

namespace GlobalSection

def snmpCommunityPw (build : Build L) : Directive (Parser L) :=
  snmpDirective "snmp_community_pw" build fun v p =>
    if build.malloc p.lineCounter then
      .ok { p with shared := { p.shared with snmpCommunityPw := some v } }
    else .error "Unable to allocate memory for snmp_community_pw buffer!"

def snmpEnable (build : Build L) : Directive (Parser L) :=
  snmpDirective "snmp_enable" build fun v p =>
    .ok { p with shared :=
      { p.shared with snmpStatus := if hasPrefix "on" v then .enabled else .disabled } }

def shmRunDir (build : Build L) : Directive (Parser L) :=
  globalDirective "shm_run_dir" fun v p =>
    if build.malloc p.lineCounter then
      .ok { p with shared := { p.shared with shmRunDir := some v } }
    else .error "Unable to allocate memory for shm_run_dir buffer!"

def sessionWeight (build : Build L) : Directive (Parser L) :=
  globalDirective "session_weight" fun v p =>
    if build.nonneg (build.atof v) then
      .ok { p with
        shared := p.shared.modifyBalancer fun b => { b with sessionWeight := build.atof v }
        errno := p.errno || build.atofRange v }
    else .error "session_weight value invalid"

/-- The algorithm that a value names; `LL` needs an SNMP build. -/
def algorithmOf (build : Build L) (v : List UInt8) : Except String Algorithm :=
  if hasPrefix "RR" v then .ok .rr
  else if hasPrefix "LC" v then .ok .lc
  else if hasPrefix "LL" v then
    if build.useSnmp then .ok .ll
    else .error "Cannot use algoritithm Least Load unless compiled with SNMP developlment libraries"
  else if hasPrefix "HASH" v then .ok .hash
  else if hasPrefix "STATIC" v then .ok .static
  else .error "unsupported allocation algorithm!!"

def algorithm (build : Build L) : Directive (Parser L) :=
  globalDirective "algorithm" fun v p =>
    (algorithmOf build v).map fun value =>
      { p with shared := p.shared.modifyBalancer fun b => { b with algorithm := value } }

def cloneMode : Directive (Parser L) :=
  globalDirective "clone_mode" fun v p =>
    if hasPrefix "disabled" v then
      .ok { p with shared := p.shared.modifyBalancer fun b => { b with cloneMode := .off } }
    else if hasPrefix "enabled" v then
      .ok { p with shared := p.shared.modifyBalancer fun b => { b with cloneMode := .on } }
    else .error "clone_mode value invalid"

/-- Only five characters of `STRICT` and `RELAXED` are compared. -/
def overloadMode : Directive (Parser L) :=
  globalDirective "overload_mode" fun v p =>
    if hasPrefix "STRIC" v then
      .ok { p with shared := p.shared.modifyBalancer fun b => { b with overloadMode := .strict } }
    else if hasPrefix "RELAX" v then
      .ok { p with shared := p.shared.modifyBalancer fun b => { b with overloadMode := .relaxed } }
    else .error "overload_mode value invalid"

/-- `errno` is tested without having been cleared before. -/
def defaultMaxc : Directive (Parser L) :=
  globalDirective "default_maxc" fun v p =>
    let r := readDecimal v
    if p.errno || r.erange then .error "default_maxc value invalid"
    else
      .ok { p with
        shared := p.shared.modifyBalancer fun b => { b with defaultMaxc := toInt r.value }
        vars := { p.vars with serverMaxc := toInt r.value } }

def defaultMaxl (build : Build L) : Directive (Parser L) :=
  globalDirective "default_maxl" fun v p =>
    if build.nonneg (build.atof v) then
      .ok { p with
        shared := p.shared.modifyBalancer fun b => { b with defaultMaxl := build.atof v }
        vars := { p.vars with serverMaxl := build.atof v }
        errno := p.errno || build.atofRange v }
    else .error "default_maxl must be greater than or equal to zero"

def hashRebalanceThreshold : Directive (Parser L) :=
  numberDirective "hash_rebalance_threshold" readDecimal (fun v1 => 0 ≤ v1 && v1 < 100)
    "hash_rebalance_threshold value invalid, must be greater than or equal to 0 and less than 100"
    fun v1 s => { s with hashRebalanceThreshold := v1 }

def hashRebalanceSize : Directive (Parser L) :=
  numberDirective "hash_rebalance_size" readDecimal (fun v1 => 0 ≤ v1 && v1 < 100)
    "hash_rebalance_size value invalid, must be greater than or equal to 0 and less than 100"
    fun v1 s => { s with hashRebalanceSize := v1 }

/-- Two characters less than the name has are compared. -/
def hashRebalanceInterval : Directive (Parser L) :=
  numberDirective "hash_rebalance_interv" readDecimal (fun v1 => 0 ≤ v1)
    "hash_rebalance_interval value invalid, must be greater than or equal to zero"
    fun v1 s => { s with hashRebalanceInterval := v1 }

/-- The bound is decimal, the value octal. -/
def shmPerms : Directive (Parser L) :=
  numberDirective "shm_perms" readOctal (fun v1 => 0 < v1 && v1 < 777)
    "shm_perms value invalid, must be between 0 and 777" fun v1 s => { s with shmPerms := v1 }

def monitorInterval : Directive (Parser L) :=
  numberDirective "monitor_interval" readDecimal (fun v1 => 0 ≤ v1)
    "monitor_interval value invalid, must be greater than or equal to 0"
    fun v1 s => { s with monitorInterval := toUShort v1 }

def connectTimeout : Directive (Parser L) :=
  numberDirective "connect_timeout" readDecimal (fun v1 => 0 < v1)
    "connect_timeout value invalid, must be greater than zero"
    fun v1 s => { s with connectTimeout := v1 }

def sessionLimit : Directive (Parser L) :=
  numberDirective "session_limit" readDecimal (fun v1 => 0 ≤ v1)
    "session_limit value invalid, must be greater than or equal to 0 "
    fun v1 s => { s with sessionLimit := v1 }

def fdLimit : Directive (Parser L) :=
  numberDirective "fd_limit" readDecimal (fun v1 => 0 ≤ v1)
    "fd_limit value invalid, must be greater than or equal to 0" fun v1 s => { s with fdLimit := v1 }

def useSyslog : Directive (Parser L) :=
  numberDirective "use_syslog" readDecimal (fun v1 => 0 ≤ v1 && v1 ≤ 1)
    "use_syslog value invalid, must be either 0 or 1" fun v1 s => { s with useSyslog := v1 }

def bindingPort : Directive (Parser L) :=
  numberDirective "binding_port" readDecimal (fun v1 => 0 < v1)
    "binding_port value invalid, must be greater than 0" fun v1 s => { s with bindingPort := v1 }

def bindingIp : Directive (Parser L) :=
  addressDirective "binding_ip" "binding IP value invalid" fun a s => { s with bindingIp := a }

def memberOutboundIp : Directive (Parser L) :=
  addressDirective "member_outbound_ip" "member_outbound_ip value invalid"
    fun a s => { s with memberOutboundIp := a, useMemberOutboundIp := true }

def cloneOutboundIp : Directive (Parser L) :=
  addressDirective "clone_outbound_ip" "clone_outbound_ip value invalid"
    fun a s => { s with cloneOutboundIp := a, useCloneOutboundIp := true }

/-- The chain, in the order of the source. -/
def directives (build : Build L) : List (Directive (Parser L)) :=
  [snmpCommunityPw build, snmpEnable build, shmRunDir build, sessionWeight build, algorithm build,
    cloneMode, overloadMode, defaultMaxc, defaultMaxl build, hashRebalanceThreshold,
    hashRebalanceSize, hashRebalanceInterval, shmPerms, monitorInterval, connectTimeout,
    sessionLimit, fdLimit, useSyslog, bindingPort, bindingIp, memberOutboundIp, cloneOutboundIp]

end GlobalSection

/-! ## `parse_config_file` -/

/-- The server kind and the arguments with which `create_balancer_server` is
called at the end of a section. -/
def ServerVars.request (vars : ServerVars L) : ServerKind × CreateRequest L :=
  (if vars.serverClone then .clone else .member,
    { serverName := vars.serverName
      serverStatus := vars.serverStatus
      standbyState := vars.standbyState
      serverPort := vars.serverPort
      serverIP := vars.serverIP
      serverMaxc := vars.serverMaxc
      servermaxl := vars.serverMaxl })

/-- The end of a section; all variables but the address and the name are reset. -/
def endSection [IntCast L] (build : Build L) (p : Parser L) : Except Halt (Parser L) :=
  let p := p.logged
  if Overruns p.shared.balancer (some (build.malloc p.lineCounter, p.vars.request)) then
    .error .overrun
  else
    let created := createBalancerServer (build.malloc p.lineCounter) p.vars.request.1
      p.vars.request.2 p.shared.balancer
    if created.2 < 0 then .error (.exit p.lineCounter "unable to create server")
    else
      let shared := { p.shared with balancer := created.1 }
      .ok { p with
        shared := shared
        vars := Parser.freshVars shared p.vars.serverIP p.vars.serverName
        inServerSection := false }

/-- The length of the section name: `strlen(directive)-2`. -/
def nameLength (directive : List UInt8) : ℤ := (directive.length : ℤ) - 2

/-- The start of a section: `nameLength` bytes of the directive are copied into
the zeroed array. -/
def startSection (directive : List UInt8) (p : Parser L) : Except Halt (Parser L) :=
  if 0 ≤ nameLength directive ∧ nameLength directive ≤ serverNameMaxLength then
    let name := (directive.drop 1).take (directive.length - 2)
    let serverName := name ++ List.replicate (serverNameMaxLength - name.length) 0
    .ok { p with inServerSection := true, vars := { p.vars with serverName := serverName } }.logged
  else .error (.badLength (nameLength directive))

/-- The first half of a round: the directives of a section. -/
def sectionPart (build : Build L) (directive : List UInt8) (value : Option (List UInt8))
    (p : Parser L) : Except Halt (Parser L) :=
  if p.inServerSection then
    Directive.runAll (ServerSection.directives build) p.lineCounter directive value p
  else .ok p

/-- The second half: the end or the start of a section, or a global directive. -/
def globalPart [IntCast L] (build : Build L) (directive : List UInt8)
    (value : Option (List UInt8)) (p : Parser L) : Except Halt (Parser L) :=
  if hasPrefix "[/" directive then endSection build p
  else if hasPrefix "[" directive then startSection directive p
  else Directive.runAll (GlobalSection.directives build) p.lineCounter directive value p

/-- What one round of the loop does with its line. -/
def parseLine [IntCast L] (build : Build L) (p : Parser L) (line : ConfigLine) :
    Except Halt (Parser L) :=
  let p := { p with lineCounter := p.lineCounter + 1 }
  match line.directive with
  | none => .error .null
  | some directive =>
      sectionPart build directive line.value p >>= globalPart build directive line.value

/-- One round of the loop. -/
def parseBuffer [IntCast L] (build : Build L) (p : Parser L) (buffer : List UInt8) :
    Except Halt (Parser L) := parseLine build p (splitLine buffer)

/-- `parse_config_file`. -/
def parseConfigFile [IntCast L] (build : Build L) (file : List UInt8) (p : Parser L) :
    Except Halt (Parser L) :=
  (buffers configRoom file).foldlM (parseBuffer build) p

/-- The loop as a machine, which is stuck once reading has ended. -/
def configMachine [IntCast L] (build : Build L) : Machine (Parser L) (List UInt8) :=
  .ofFold (parseBuffer build)

/-! ## `initialize_logging` -/

/-- Its local variables, and the shared memory; `foreground` is whether
`FOREGROUND_ON` is set. -/
structure LogReader (L : Type) where
  shared : Shared L
  foreground : Bool
  lineCounter : ℕ
  errno : Bool

namespace Logging

def logFile (build : Build L) : Directive (LogReader L) where
  name := "log_file"
  usesValue := true
  apply v p :=
    if build.malloc p.lineCounter then
      .ok { p with shared := { p.shared with logFilePath := some v } }
    else .error "Unable to allocate memory for logfile string"

/-- Nothing is done if the command line has set the level. -/
def debugLevel (debugLevelOverride : Bool) : Directive (LogReader L) where
  name := "debug_level"
  usesValue := !debugLevelOverride
  apply v p :=
    if debugLevelOverride then .ok p
    else
      let r := readDecimal v
      let level := toInt r.value
      if p.errno || r.erange then .error "balancer->debug_level value invalid"
      else if 0 ≤ level ∧ level ≤ 6 then
        .ok { p with
          shared := { p.shared with debugLevel := level }
          errno := p.errno && !(0 < level && p.foreground) }
      else .error "balancer->debug_level value invalid"

/-- The chain, in the order of the source. -/
def directives (build : Build L) (debugLevelOverride : Bool) : List (Directive (LogReader L)) :=
  [logFile build, debugLevel debugLevelOverride]

end Logging

/-- What one round of the loop does with its line. -/
def loggingLine (build : Build L) (debugLevelOverride : Bool) (p : LogReader L)
    (line : ConfigLine) : Except Halt (LogReader L) :=
  let p := { p with lineCounter := p.lineCounter + 1 }
  match line.directive with
  | none => .error .null
  | some directive =>
      Directive.runAll (Logging.directives build debugLevelOverride) p.lineCounter directive
        line.value p

/-- One round of the loop. -/
def loggingBuffer (build : Build L) (debugLevelOverride : Bool) (p : LogReader L)
    (buffer : List UInt8) : Except Halt (LogReader L) :=
  loggingLine build debugLevelOverride p (splitLine buffer)

/-- `initialize_logging`, up to opening the log file. -/
def initializeLogging (build : Build L) (debugLevelOverride : Bool) (file : List UInt8)
    (p : LogReader L) : Except Halt (LogReader L) := do
  let p ← (buffers loggingRoom file).foldlM (loggingBuffer build debugLevelOverride) p
  if p.shared.logFilePath = none then
    .error (.exit p.lineCounter "log_file directive not found in conf file")
  else .ok p

/-- Its loop as a machine. -/
def loggingMachine (build : Build L) (debugLevelOverride : Bool) :
    Machine (LogReader L) (List UInt8) :=
  .ofFold (loggingBuffer build debugLevelOverride)

end OctopusLB
