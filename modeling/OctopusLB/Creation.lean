/-
# Creating a server (`octopus.h`, `cmd_create`)

The port of a server is an `int`; TCP gets it as an `unsigned short`, and it is
after this conversion that `create_balancer_server` asks whether it is a port.

* `creation_iff`: a creation succeeds for the ports from 1 to 65535 only, leaves
  the port given in use and is all or nothing, exactly if it is not for another
  number that is converted to a port; the same for the text of a port that
  `cmd_create` gets;
* `createCalls_port`: the parser of the configuration file, which compares the
  number before any conversion, asks for nothing but ports.
-/
import OctopusLB.AdminPrompt
import OctopusLB.SectionIndependence

namespace OctopusLB

open Balancer CString

variable {L : Type}

/-! ## Ports -/

/-- A TCP port that can be connected to. -/
def IsPort (v : ℤ) : Prop := 1 ≤ v ∧ v ≤ 65535

instance (v : ℤ) : Decidable (IsPort v) := by
  unfold IsPort
  infer_instance

/-- The `sin_port` of the address that `connect_server` and `check_server_state`
connect to. -/
def Server.connectPort (s : Server L) : UInt16 := htons (.ofInt s.port)

/-- The number of the port in an address, which `htons` gives back. -/
def tcpPort (sinPort : UInt16) : ℕ := (htons sinPort).toNat

/-- The bytes are swapped back. -/
@[simp] theorem htons_htons (port : UInt16) : htons (htons port) = port := by
  unfold htons
  apply UInt16.toBitVec_inj.mp
  simp
  grind

theorem htons_eq_zero_iff (port : UInt16) : htons port = 0 ↔ port = 0 := by
  constructor
  · intro h
    have hback : htons (htons port) = htons 0 := congrArg htons h
    rwa [htons_htons] at hback
  · rintro rfl
    rfl

theorem toNat_ofInt (v : ℤ) : ((UInt16.ofInt v).toNat : ℤ) = v % 65536 := by
  have hnonneg : 0 ≤ v % 65536 := Int.emod_nonneg v (by decide)
  have hlt : v % 65536 < 65536 := Int.emod_lt_of_pos v (by decide)
  show ((UInt16.ofNat (v % 2 ^ 16).toNat).toNat : ℤ) = v % 65536
  rw [UInt16.toNat_ofNat']
  omega

/-- What an `int` becomes as a port. -/
theorem tcpPort_ofInt (v : ℤ) : (tcpPort (htons (.ofInt v)) : ℤ) = v % 65536 := by
  rw [tcpPort, htons_htons, toNat_ofInt]

/-- A port is converted to itself. -/
theorem tcpPort_of_isPort {v : ℤ} (h : IsPort v) : (tcpPort (htons (.ofInt v)) : ℤ) = v := by
  rw [tcpPort_ofInt]
  exact Int.emod_eq_of_lt (by have := h.1; omega) (by have := h.2; omega)

/-- The test in `create_balancer_server`: only the multiples of 65536 fail it. -/
theorem htons_ofInt_eq_zero_iff (v : ℤ) : htons (.ofInt v) = 0 ↔ (65536 : ℤ) ∣ v := by
  rw [htons_eq_zero_iff, ← UInt16.toNat_inj, Int.dvd_iff_emod_eq_zero, ← toNat_ofInt]
  exact Int.natCast_eq_zero.symm

theorem not_dvd_of_isPort {v : ℤ} (h : IsPort v) : ¬ (65536 : ℤ) ∣ v := by
  obtain ⟨hpos, hle⟩ := h
  omega

/-! ## `create_balancer_server` -/

/-- The table has a position for another server. -/
structure FreePosition (kind : ServerKind) (b : Balancer L) : Prop where
  within : b.count kind ≤ maxServers
  free : (∃ i < b.count kind, (b.table kind i).status = .free) ∨ b.count kind < maxServers

/-- Slot `i` and no other is written: the first free one, or without a free one
that at the end, with the count raised by one. -/
structure OneSlotWritten (kind : ServerKind) (i : ℕ) (b b' : Balancer L) : Prop where
  inTable : i < maxServers
  position :
    (i < b.count kind ∧ (b.table kind i).status = .free ∧
        (∀ j < i, (b.table kind j).status ≠ .free) ∧ b'.count kind = b.count kind) ∨
      ((∀ j < b.count kind, (b.table kind j).status ≠ .free) ∧ i = b.count kind ∧
        b'.count kind = b.count kind + 1)
  others : ∀ p, p ≠ slot kind i → b'.servers p = b.servers p
  otherCount : ∀ kind', kind' ≠ kind → b'.count kind' = b.count kind'
  otherFields :
    { b' with servers := b.servers, nmembers := b.nmembers, nclones := b.nclones } = b

/-- Server `i` has the values of the request, its counters are zero, and
connections go to the port that is stored. -/
structure Holds [IntCast L] (r : CreateRequest L) (i : ℕ) (s : Server L) : Prop where
  id : s.id = i
  name : s.name = strncpy serverNameMaxLength r.serverName
  status : s.status = r.serverStatus
  standbyState : s.standbyState = r.standbyState
  port : s.port = r.serverPort
  sinAddr : s.sinAddr = r.serverIP
  maxc : s.maxc = r.serverMaxc
  maxl : s.maxl = r.servermaxl
  load : s.load = ((-1 : ℤ) : L)
  c : s.c = 0
  completedC : s.completedC = 0
  bsent : s.bsent = 0
  brecv : s.brecv = 0
  eLoad : s.eLoad = 0
  hashTableUsage : s.hashTableUsage = 0
  sinPort : s.sinPort = s.connectPort
  tcpPort : (tcpPort s.connectPort : ℤ) = s.port

/-- **All or nothing.**  Ports are accepted and nothing else; then one slot is
written with what was given, and otherwise nothing. -/
structure AllOrNothing [IntCast L] (malloc : Bool) (kind : ServerKind) (r : CreateRequest L)
    (b : Balancer L) : Prop where
  succeeds : (createBalancerServer malloc kind r b).2 = 0 ↔ malloc = true ∧ IsPort r.serverPort
  success : (createBalancerServer malloc kind r b).2 = 0 →
    ∃ i, OneSlotWritten kind i b (createBalancerServer malloc kind r b).1 ∧
      Holds r i ((createBalancerServer malloc kind r b).1.table kind i)
  failure : (createBalancerServer malloc kind r b).2 ≠ 0 →
    ((createBalancerServer malloc kind r b).2 = -1 ∨
        (createBalancerServer malloc kind r b).2 = -2) ∧
      (createBalancerServer malloc kind r b).1 = b

/-- A number other than a port that the conversion makes one. -/
def TakenForPort (v : ℤ) : Prop := ¬ IsPort v ∧ ¬ (65536 : ℤ) ∣ v

instance (v : ℤ) : Decidable (TakenForPort v) := by
  unfold TakenForPort
  infer_instance

theorem CreateRequest.valid_iff (malloc : Bool) (r : CreateRequest L) :
    r.Valid malloc ↔ malloc = true ∧ ¬ (65536 : ℤ) ∣ r.serverPort := by
  unfold CreateRequest.Valid
  rw [Ne, htons_ofInt_eq_zero_iff]

section Create

variable [IntCast L] (malloc : Bool) (kind : ServerKind) (r : CreateRequest L) (b : Balancer L)

/-- Creation succeeds as soon as the number is no multiple of 65536. -/
theorem creates_iff : (createBalancerServer malloc kind r b).2 = 0 ↔
    malloc = true ∧ ¬ (65536 : ℤ) ∣ r.serverPort := by
  rw [← r.valid_iff]
  rcases createBalancerServer_cases malloc kind r b with ⟨hv, -, hneg⟩ | ⟨hv, hret, -⟩
  · constructor
    · intro hret
      omega
    · exact fun h => absurd h hv
  · exact ⟨fun _ => hv, fun _ => hret⟩

/-- The two errors, and what they leave. -/
theorem create_fails (h : (createBalancerServer malloc kind r b).2 ≠ 0) :
    ((createBalancerServer malloc kind r b).2 = -1 ∨
        (createBalancerServer malloc kind r b).2 = -2) ∧
      (createBalancerServer malloc kind r b).1 = b := by
  unfold createBalancerServer at h ⊢
  split_ifs at h ⊢
  · exact ⟨Or.inl rfl, rfl⟩
  · exact ⟨Or.inr rfl, rfl⟩
  · exfalso
    apply h
    cases firstFree kind b <;> rfl

/-- Nothing but the two tables and their counts is written. -/
theorem create_otherFields :
    { (createBalancerServer malloc kind r b).1 with
      servers := b.servers, nmembers := b.nmembers, nclones := b.nclones } = b := by
  unfold createBalancerServer
  split_ifs
  · rfl
  · rfl
  · cases firstFree kind b with
    | none => cases kind <;> rfl
    | some i => rfl

end Create

/-- The first free slot, or the one at the end. -/
theorem newIndex_spec (kind : ServerKind) (b : Balancer L) :
    (newIndex kind b < b.count kind ∧ (b.table kind (newIndex kind b)).status = .free ∧
        ∀ j < newIndex kind b, (b.table kind j).status ≠ .free) ∨
      ((∀ j < b.count kind, (b.table kind j).status ≠ .free) ∧ newIndex kind b = b.count kind) := by
  unfold newIndex
  cases hf : firstFree kind b with
  | none => exact Or.inr ⟨firstFree_eq_none_iff.mp hf, rfl⟩
  | some i =>
      obtain ⟨hlt, hfree⟩ := firstFree_spec hf
      refine Or.inl ⟨hlt, hfree, fun j hj hjfree => ?_⟩
      have hearlier := (List.find?_range_eq_some.mp hf).2.2 j hj
      rw [decide_eq_true hjfree] at hearlier
      cases hearlier

/-- A slot past the end is one of the table. -/
theorem newIndex_lt_maxServers {kind : ServerKind} {b : Balancer L} (h : FreePosition kind b) :
    newIndex kind b < maxServers := by
  have hwithin := h.within
  rcases newIndex_spec kind b with ⟨hlt, -, -⟩ | ⟨hnone, heq⟩
  · exact Nat.lt_of_lt_of_le hlt hwithin
  · rw [heq]
    rcases h.free with ⟨i, hi, hfree⟩ | hroom
    · exact absurd hfree (hnone i hi)
    · exact hroom

theorem Creates.oneSlotWritten [IntCast L] {kind : ServerKind} {r : CreateRequest L}
    {b b' : Balancer L} (h : Creates kind r b b') (hfree : FreePosition kind b)
    (hother : { b' with servers := b.servers, nmembers := b.nmembers, nclones := b.nclones } = b) :
    OneSlotWritten kind (newIndex kind b) b b' := by
  have hcount := h.count
  refine ⟨newIndex_lt_maxServers hfree, ?_, h.others, h.otherCount, hother⟩
  rcases newIndex_spec kind b with ⟨hlt, hstatus, hfirst⟩ | ⟨hnone, heq⟩
  · exact Or.inl ⟨hlt, hstatus, hfirst, by omega⟩
  · exact Or.inr ⟨hnone, heq, by omega⟩

/-- The record that is filled in holds a port as it is. -/
theorem holds_record [IntCast L] {r : CreateRequest L} (h : IsPort r.serverPort) (i : ℕ) :
    Holds r i { r.record with id := i } where
  id := rfl
  name := rfl
  status := rfl
  standbyState := rfl
  port := rfl
  sinAddr := rfl
  maxc := rfl
  maxl := rfl
  load := rfl
  c := rfl
  completedC := rfl
  bsent := rfl
  brecv := rfl
  eLoad := rfl
  hashTableUsage := rfl
  sinPort := rfl
  tcpPort := tcpPort_of_isPort h

/-- One creation meets all that, unless a number is taken for a port. -/
theorem allOrNothing_iff [IntCast L] {kind : ServerKind} {b : Balancer L}
    (hfree : FreePosition kind b) (malloc : Bool) (r : CreateRequest L) :
    AllOrNothing malloc kind r b ↔ ¬ (malloc = true ∧ TakenForPort r.serverPort) := by
  have hret := creates_iff malloc kind r b
  constructor
  · rintro h ⟨hmalloc, hport, hdvd⟩
    exact hport (h.succeeds.mp (hret.mpr ⟨hmalloc, hdvd⟩)).2
  · intro h
    have hport : malloc = true ∧ ¬ (65536 : ℤ) ∣ r.serverPort →
        malloc = true ∧ IsPort r.serverPort := by
      rintro ⟨hmalloc, hdvd⟩
      by_contra hnot
      exact h ⟨hmalloc, fun hisPort => hnot ⟨hmalloc, hisPort⟩, hdvd⟩
    refine ⟨?_, fun hsuccess => ?_, create_fails malloc kind r b⟩
    · rw [hret]
      exact ⟨hport, fun ⟨hmalloc, hisPort⟩ => ⟨hmalloc, not_dvd_of_isPort hisPort⟩⟩
    · rcases createBalancerServer_cases malloc kind r b with ⟨-, -, hneg⟩ | ⟨-, -, hcreates⟩
      · omega
      · refine ⟨newIndex kind b,
          hcreates.oneSlotWritten hfree (create_otherFields malloc kind r b), ?_⟩
        rw [hcreates.written]
        exact holds_record (hport (hret.mp hsuccess)).2 _

/-! ## `cmd_create` -/

/-- Nothing is wrong with a command line but perhaps the port. -/
structure WellFormed (type ip : List UInt8) (malloc : Bool) (t : AdminTool) : Prop where
  writable : t.readonly = false
  type : typeKind type ≠ none
  ip : addressArg ip ≠ none
  malloc : malloc = true

/-- The text of a number other than a port that `atoi` and the conversion make
one. -/
structure TextTakenForPort (port : List UInt8) : Prop where
  notPort : ¬ IsPort (numberValue port)
  positive : 0 < atoi port
  noMultiple : ¬ (65536 : ℤ) ∣ atoi port

/-- `cmd_create` leaves the balancer alone unless the text of the port starts
with the number of one. -/
def RejectsOthers [IntCast L] (type name ip port : List UInt8) (malloc : Bool) (b : Balancer L)
    (t : AdminTool) : Prop :=
  ¬ IsPort (numberValue port) →
    (cmdCreate type name (addressArg ip) (atoi port) malloc b t).2 = b

/-- A creation is seen. -/
theorem Creates.ne [IntCast L] {kind : ServerKind} {r : CreateRequest L} {b b' : Balancer L}
    (h : Creates kind r b b') (hstatus : r.serverStatus ≠ .free) : b' ≠ b := by
  rintro rfl
  rcases newIndex_spec kind b' with ⟨-, hfree, -⟩ | ⟨-, heq⟩
  · rw [h.written] at hfree
    exact hstatus hfree
  · have hcount := h.count
    omega

theorem cmdCreate_eq_iff [IntCast L] (type name ip port : List UInt8) (malloc : Bool)
    (b : Balancer L) (t : AdminTool) :
    (cmdCreate type name (addressArg ip) (atoi port) malloc b t).2 = b ↔
      ¬ (WellFormed type ip malloc t ∧ 0 < atoi port ∧ ¬ (65536 : ℤ) ∣ atoi port) := by
  unfold cmdCreate
  by_cases hro : t.readonly = true
  · rw [if_pos hro]
    exact ⟨fun _ h => absurd (hro.symm.trans h.1.writable) (by decide), fun _ => rfl⟩
  rw [if_neg hro]
  unfold parseCreate
  cases htype : typeKind type with
  | none => exact ⟨fun _ h => h.1.type htype, fun _ => rfl⟩
  | some kind =>
      cases hip : addressArg ip with
      | none => exact ⟨fun _ h => h.1.ip hip, fun _ => rfl⟩
      | some serverIP =>
          dsimp only
          by_cases hpos : 0 < atoi port
          · rw [if_pos hpos]
            dsimp only
            have hvalid := (createRequest name serverIP (atoi port) b).valid_iff malloc
            rcases createBalancerServer_cases malloc kind
              (createRequest name serverIP (atoi port) b) b with ⟨hno, heq, -⟩ | ⟨hv, -, hc⟩
            · rw [hvalid] at hno
              exact ⟨fun _ h => hno ⟨h.1.malloc, h.2.2⟩, fun _ => heq⟩
            · obtain ⟨hmalloc, hdvd⟩ := hvalid.mp hv
              have hwell : WellFormed type ip malloc t :=
                ⟨by simpa using hro, by rw [htype]; nofun, by rw [hip]; nofun, hmalloc⟩
              exact ⟨fun heq => absurd heq (hc.ne nofun), fun h => absurd ⟨hwell, hpos, hdvd⟩ h⟩
          · rw [if_neg hpos]
            exact ⟨fun _ h => hpos h.2.1, fun _ => rfl⟩

/-- One command rejects other numbers, unless the text of one is taken for a port. -/
theorem rejectsOthers_iff [IntCast L] (type name ip port : List UInt8) (malloc : Bool)
    (b : Balancer L) (t : AdminTool) : RejectsOthers type name ip port malloc b t ↔
      ¬ (WellFormed type ip malloc t ∧ TextTakenForPort port) := by
  unfold RejectsOthers
  rw [cmdCreate_eq_iff]
  constructor
  · rintro h ⟨hwell, hnot, hpos, hdvd⟩
    exact h hnot ⟨hwell, hpos, hdvd⟩
  · rintro h hnot ⟨hwell, hpos, hdvd⟩
    exact h ⟨hwell, hnot, hpos, hdvd⟩

/-- **Creation.**  It is all or nothing and the port is the one given, exactly if
the number given is not taken for a port; and `cmd_create` rejects all other
numbers, exactly if that of the text is not. -/
theorem creation_iff [IntCast L] {kind : ServerKind} {b : Balancer L}
    (hfree : FreePosition kind b) :
    (∀ malloc r, AllOrNothing malloc kind r b ↔ ¬ (malloc = true ∧ TakenForPort r.serverPort)) ∧
      ∀ type name ip port malloc t, RejectsOthers type name ip port malloc b t ↔
        ¬ (WellFormed type ip malloc t ∧ TextTakenForPort port) :=
  ⟨allOrNothing_iff hfree, fun type name ip port malloc t =>
    rejectsOthers_iff type name ip port malloc b t⟩

/-- A balancer without servers. -/
def emptyBalancer : Balancer ℤ := initializeBalancer 4 0

/-- A request for a disabled server. -/
def webRequest (port : ℤ) : CreateRequest ℤ := createRequest (ascii "web") 1 port emptyBalancer

/-- A balancer with a free slot between two members. -/
def gapBalancer : Balancer ℤ :=
  { emptyBalancer with
    nmembers := 3
    servers := fun p => if p = 0 ∨ p = 2 then sampleServer p false else Server.zero ℤ }

theorem freePosition_gapBalancer : FreePosition .member gapBalancer :=
  ⟨by decide, Or.inl ⟨1, by decide, by decide⟩⟩

/-- Port 80 is fine, and the free slot is written; port 65536 is rejected. -/
theorem creation_gap : AllOrNothing true .member (webRequest 80) gapBalancer ∧
    ((createBalancerServer true .member (webRequest 80) gapBalancer).1.members 1).port = 80 ∧
    RejectsOthers (ascii "m") (ascii "web") (ascii "10.0.0.1") (ascii "65536") true gapBalancer
      .initial := by
  have hcreate := (creation_iff freePosition_gapBalancer).1 true (webRequest 80)
  have hcommand := (creation_iff freePosition_gapBalancer).2 (ascii "m") (ascii "web")
    (ascii "10.0.0.1") (ascii "65536") true .initial
  exact ⟨hcreate.mpr (by decide), by decide, hcommand.mpr fun h => h.2.noMultiple (by decide)⟩

/-- The server that is created for port 65616. -/
def wideServer : Server ℤ :=
  (createBalancerServer true .member (webRequest 65616) emptyBalancer).1.members 0

/-- Port 65616 is accepted, by both functions: the server is shown with this port
and connected to on port 80. -/
theorem wide_port_accepted :
    ¬ AllOrNothing true .member (webRequest 65616) emptyBalancer ∧
      ¬ RejectsOthers (ascii "m") (ascii "web") (ascii "10.0.0.1") (ascii "65616") true
        emptyBalancer .initial ∧
      wideServer.port = 65616 ∧ tcpPort wideServer.connectPort = 80 := by
  refine ⟨fun h => ?_, fun h => ?_, by decide, by decide⟩
  · exact absurd (h.succeeds.mp rfl).2 (by decide)
  · exact absurd (congrArg Balancer.nmembers (h (by decide))) (by decide)

/-! ## Configured servers -/

/-- An accepted port is one. -/
theorem isPort_assign (build : Build L) {s : Setting} {v : List UInt8} (h : s.Accepted build v)
    {vars : ServerVars L} (hvars : IsPort vars.serverPort) :
    IsPort (s.assign build vars v).serverPort := by
  cases s with
  | port =>
      obtain ⟨-, hpos, hlt⟩ := h
      exact ⟨hpos, Int.le_of_lt_add_one hlt⟩
  | clone =>
      cases htrue : hasPrefix "true" v with
      | true => rwa [Setting.assign_clone_of_true build htrue]
      | false => rwa [Setting.assign_clone_of_false build htrue]
  | _ => exact hvars

theorem isPort_collect (build : Build L) {settings : List (Setting × List UInt8)}
    (h : ∀ a ∈ settings, a.1.Accepted build a.2) {vars : ServerVars L}
    (hvars : IsPort vars.serverPort) : IsPort (collect build vars settings).serverPort := by
  unfold collect
  induction settings generalizing vars with
  | nil => exact hvars
  | cons a settings ih =>
      rw [List.forall_mem_cons] at h
      rw [List.foldl_cons]
      exact ih h.2 (isPort_assign build h.1 hvars)

/-- **A section of the configuration file** asks for a server once, and its port
is one. -/
theorem createCalls_port [IntCast L] {build : Build L} (sec : SectionText build) {p : Parser L}
    (hp : Between p) : ∀ call ∈ createCalls build p sec.lines,
      IsPort call.2.serverPort := by
  intro call hcall
  rw [createCalls_section, List.mem_singleton] at hcall
  subst hcall
  refine isPort_collect build (fun a ha => accepted_of_mem_assignments ha) ?_
  rw [hp.2]
  show IsPort 80
  decide

end OctopusLB
