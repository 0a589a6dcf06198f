/-
# The shared memory as a whole (`BALANCER`)

The tables and modes of the balancer, which the requests are served from, and
beside them the settings that the configuration file and the admin tool write.
-/
import OctopusLB.Numerals
import OctopusLB.ServerTables

namespace OctopusLB

/-- `SNMP_NOT_INCLUDED`, `SNMP_DISABLED` and `SNMP_ENABLED`. -/
inductive SnmpStatus
  | notIncluded
  | disabled
  | enabled
  deriving DecidableEq, Repr

/-- `BALANCER`: the fields of `Balancer`, and the settings.  A string is `none`
while its pointer is zero. -/
structure Shared (L : Type) where
  balancer : Balancer L
  monitorInterval : ℤ
  alive : ℤ
  snmpCommunityPw : Option (List UInt8)
  snmpStatus : SnmpStatus
  bindingPort : ℤ
  bindingIp : UInt32
  memberOutboundIp : UInt32
  cloneOutboundIp : UInt32
  connectTimeout : ℤ
  monitorPid : ℤ
  masterPid : ℤ
  logFilePath : Option (List UInt8)
  hashRebalanceThreshold : ℤ
  hashRebalanceSize : ℤ
  hashRebalanceInterval : ℤ
  useMemberOutboundIp : Bool
  useCloneOutboundIp : Bool
  shmRunDir : Option (List UInt8)
  fdLimit : ℤ
  sessionLimit : ℤ
  useSyslog : ℤ
  shmPerms : ℤ
  debugLevel : ℤ

/-- What the programs get from outside their source: whether they are compiled
with `USE_SNMP`; `atof`, with the range error it may set, and the comparisons of
its results with zero; and whether the `malloc` made for a given line succeeds. -/
structure Build (L : Type) where
  useSnmp : Bool
  atof : List UInt8 → L
  atofRange : List UInt8 → Bool
  positive : L → Bool
  nonneg : L → Bool
  malloc : ℕ → Bool

variable {L : Type}

/-- Change the tables and modes. -/
def Shared.modifyBalancer (s : Shared L) (f : Balancer L → Balancer L) : Shared L :=
  { s with balancer := f s.balancer }

/-- A sample: what `initialize_balancer` leaves of the settings used. -/
def sampleShared : Shared ℤ where
  balancer := initializeBalancer 4 0
  monitorInterval := 5
  alive := 1
  snmpCommunityPw := none
  snmpStatus := .notIncluded
  bindingPort := 1080
  bindingIp := 0
  memberOutboundIp := 0
  cloneOutboundIp := 0
  connectTimeout := 5
  monitorPid := 0
  masterPid := 0
  logFilePath := none
  hashRebalanceThreshold := 30
  hashRebalanceSize := 5
  hashRebalanceInterval := 30
  useMemberOutboundIp := false
  useCloneOutboundIp := false
  shmRunDir := none
  fdLimit := 0
  sessionLimit := 0
  useSyslog := 0
  shmPerms := 420
  debugLevel := 0

/-- A sample: a build without SNMP in which loads are whole numbers. -/
def sampleBuild : Build ℤ where
  useSnmp := false
  atof := fun str => (readDecimal str).value
  atofRange := fun str => (readDecimal str).erange
  positive := fun v => 0 < v
  nonneg := fun v => 0 ≤ v
  malloc := fun _ => true

end OctopusLB
