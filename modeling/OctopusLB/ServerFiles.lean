/-
# Servers written to a file and read back

A list of servers is written as a configuration file, a section for each with one
line for each setting (`serverFile`).  The line for the kind comes first: `clone = false`
would take back what `standby` has said.

`serverFile_read`: whatever the servers are, the file is accepted and the two tables
hold exactly these servers, in this order.
-/
import OctopusLB.PrintedNumbers
import OctopusLB.ServerNames
import OctopusLB.SectionIndependence

namespace OctopusLB

open Balancer CString TextLines

variable {L : Type} {build : Build L}

/-- A byte of a word: no whitespace, no equals sign, and no end of the string. -/
def PlainByte (b : UInt8) : Prop := b ≠ 0 ∧ b ≠ 61 ∧ isSpace b = false

instance (b : UInt8) : Decidable (PlainByte b) :=
  inferInstanceAs (Decidable (b ≠ 0 ∧ b ≠ 61 ∧ isSpace b = false))

/-- A text of such bytes. -/
def PlainText (v : List UInt8) : Prop := ∀ b ∈ v, PlainByte b

instance (v : List UInt8) : Decidable (PlainText v) := List.decidableBAll PlainByte v

theorem plain_dotted (a : UInt32) : PlainText (dotted a) := by
  intro b hb
  rcases mem_dotted hb with hdigit | rfl
  · exact plain_of_isDigit hdigit
  · decide

/-! ## The line of a setting -/

/-- A line `word = v`. -/
def settingText (word : String) (v : List UInt8) : List UInt8 :=
  ascii word ++ 32 :: 61 :: 32 :: (v ++ [10])

/-- The word and the value of such a line. -/
structure IsSetting (word : String) (v : List UInt8) : Prop where
  named : ascii word ≠ []
  word : PlainText (ascii word)
  value : PlainText v

/-- A line that the parser reads in one piece. -/
structure FitsBuffer (room : ℕ) (line : List UInt8) : Prop where
  isLine : IsLine line
  newline : line.getLast? = some 10
  length : line.length ≤ room

/-- Lines that fit are read one by one. -/
theorem buffers_flatten {room : ℕ} (hroom : 0 < room) {lines : List (List UInt8)}
    (h : ∀ line ∈ lines, FitsBuffer room line) : buffers room lines.flatten = lines := by
  induction lines with
  | nil => rfl
  | cons line lines ih =>
      obtain ⟨hline, hlines⟩ := List.forall_mem_cons.mp h
      rw [List.flatten_cons,
        buffers_append hroom hline.isLine hline.newline hline.length, ih hlines]

namespace IsSetting

variable {word : String} {v : List UInt8}

/-- The line has one blank on each side of the equals sign. -/
def line (h : IsSetting word v) : SpacedLine where
  w1 := []
  directive := ascii word
  w2 := [32]
  w3 := [32]
  value := v
  w4 := []
  blanks := by simp
  plain := by
    intro b hb
    rcases List.mem_append.mp hb with hb | hb
    · exact h.word b hb
    · exact h.value b hb
  named := h.named

theorem text_line (h : IsSetting word v) : h.line.text = settingText word v := by
  simp [line, SpacedLine.text, SpacedLine.rest, settingText]

/-- **The two parts** are found. -/
theorem splitLine_eq (h : IsSetting word v) :
    splitLine (settingText word v) = ⟨some (ascii word), some v⟩ := by
  rw [← h.text_line]
  exact h.line.splitLine_eq_split_iff.mpr (Or.inr (List.pairwise_singleton _ _))

theorem fits (h : IsSetting word v) {room : ℕ}
    (hroom : (ascii word).length + v.length + 4 ≤ room) :
    FitsBuffer room (settingText word v) := by
  refine ⟨h.text_line ▸ h.line.isLine, h.text_line ▸ h.line.getLast?_text, ?_⟩
  simp only [settingText, List.length_append, List.length_cons, List.length_nil]
  omega

end IsSetting

namespace Setting

/-- The name of a setting, all of it. -/
def word : Setting → String
  | port => "port"
  | maxc => "maxc"
  | maxl => "maxl"
  | status => "status"
  | standby => "standby"
  | ip => "ip"
  | clone => "clone"

theorem hasPrefix_word (s : Setting) : hasPrefix s.name (ascii s.word) = true := by
  cases s <;> decide

theorem noBracket_word (s : Setting) : hasPrefix "[" (ascii s.word) = false := by
  cases s <;> decide

theorem length_word (s : Setting) : (ascii s.word).length ≤ 7 := by
  cases s <;> decide

theorem isSetting (s : Setting) {v : List UInt8} (hv : PlainText v) :
    IsSetting s.word v :=
  ⟨by cases s <;> decide, by cases s <;> decide, hv⟩

/-- No setting of a section has the name of a global one. -/
theorem noGlobal_word (s : Setting) :
    ∀ d ∈ GlobalSection.directives build, hasPrefix d.name (ascii s.word) = false := by
  have hnames : (GlobalSection.directives build).map Directive.name =
      (GlobalSection.directives sampleBuild).map Directive.name := rfl
  have hall : ∀ name ∈ (GlobalSection.directives sampleBuild).map Directive.name,
      hasPrefix name (ascii s.word) = false := by
    cases s <;> decide +kernel
  exact fun d hd => hall d.name (hnames ▸ List.mem_map_of_mem hd)

/-- The parser sets it. -/
def bodyLine (s : Setting) (v : List UInt8) (hv : PlainText v)
    (haccepted : s.Accepted build v) : BodyLine build where
  text := settingText s.word v
  directive := ascii s.word
  value := some v
  sets := some (s, v)
  splits := (s.isSetting hv).splitLine_eq
  means := ⟨s.hasPrefix_word, rfl, haccepted⟩
  noBracket := s.noBracket_word
  noGlobal := s.noGlobal_word

end Setting

/-! ## A server -/

/-- A server that can be written. -/
structure ServerEntry (build : Build L) where
  kind : ServerKind
  name : List UInt8
  enabled : Bool
  standby : Bool
  port : ℕ
  ip : UInt32
  maxc : ℕ
  maxl : List UInt8
  isName : IsName name
  noSlash : name.head? ≠ some 47
  nameFits : name.length < serverNameMaxLength
  isPort : 0 < port ∧ port < 65536
  maxcFits : maxc < 2 ^ 31
  maxlPlain : PlainText maxl
  maxlFits : maxl.length ≤ 900
  maxlPositive : build.positive (build.atof maxl) = true

namespace ServerEntry

/-- The settings in the order of the lines. -/
def order : List Setting := [.clone, .port, .maxc, .maxl, .status, .standby, .ip]

/-- The text of a value. -/
def value (e : ServerEntry build) : Setting → List UInt8
  | .port => decimal e.port
  | .maxc => decimal e.maxc
  | .maxl => e.maxl
  | .status => ascii (if e.enabled then "enabled" else "disabled")
  | .standby => ascii (if e.standby then "true" else "false")
  | .ip => dotted e.ip
  | .clone => ascii (if e.kind = .clone then "true" else "false")

theorem plain_value (e : ServerEntry build) (s : Setting) : PlainText (e.value s) := by
  cases s with
  | port => exact fun b hb => plain_of_isDigit (isDigit_of_mem_decimal b hb)
  | maxc => exact fun b hb => plain_of_isDigit (isDigit_of_mem_decimal b hb)
  | maxl => exact e.maxlPlain
  | status =>
      show PlainText (ascii (if e.enabled then "enabled" else "disabled"))
      cases e.enabled <;> decide
  | standby =>
      show PlainText (ascii (if e.standby then "true" else "false"))
      cases e.standby <;> decide
  | ip => exact plain_dotted e.ip
  | clone =>
      show PlainText (ascii (if e.kind = .clone then "true" else "false"))
      cases e.kind <;> decide

/-- The text of the load limit may be the longest one. -/
theorem length_value (e : ServerEntry build) (s : Setting) :
    (e.value s).length ≤ max 15 e.maxl.length := by
  have hnumber : ∀ n < 2 ^ 31, (decimal n).length ≤ 10 := fun n hn =>
    length_decimal_le (by decide) (by omega)
  cases s with
  | port =>
      have hlt := e.isPort
      exact le_max_of_le_left (Nat.le_trans (hnumber _ (by omega)) (by decide))
  | maxc => exact le_max_of_le_left (Nat.le_trans (hnumber _ e.maxcFits) (by decide))
  | maxl => exact le_max_right _ _
  | status =>
      refine le_max_of_le_left ?_
      show (ascii (if e.enabled then "enabled" else "disabled")).length ≤ 15
      cases e.enabled <;> decide
  | standby =>
      refine le_max_of_le_left ?_
      show (ascii (if e.standby then "true" else "false")).length ≤ 15
      cases e.standby <;> decide
  | ip => exact le_max_of_le_left (length_dotted_le e.ip)
  | clone =>
      refine le_max_of_le_left ?_
      show (ascii (if e.kind = .clone then "true" else "false")).length ≤ 15
      cases e.kind <;> decide

theorem isPort_port (e : ServerEntry build) : IsPort (e.port : ℤ) := by
  have hport := e.isPort
  exact ⟨by omega, by omega⟩

/-- **Every value is accepted.** -/
theorem accepted_value (e : ServerEntry build) (s : Setting) :
    s.Accepted build (e.value s) := by
  cases s with
  | port =>
      have hport := e.isPort
      have hread := readDecimal_decimal (n := e.port) (by omega) (show EndsNumber [] from rfl)
      rw [List.append_nil] at hread
      simp only [value, Setting.Accepted, hread, toInt_natCast (n := e.port) (by omega)]
      exact ⟨trivial, by omega, by omega⟩
  | maxc =>
      have hmaxc := e.maxcFits
      have hread := readDecimal_decimal (n := e.maxc) (by omega) (show EndsNumber [] from rfl)
      rw [List.append_nil] at hread
      simp only [value, Setting.Accepted, hread, toInt_natCast hmaxc]
      exact ⟨trivial, by omega⟩
  | maxl => exact e.maxlPositive
  | status =>
      show hasPrefix _ (ascii (if e.enabled then "enabled" else "disabled")) = true ∨
        hasPrefix _ (ascii (if e.enabled then "enabled" else "disabled")) = true
      cases e.enabled <;> decide
  | standby =>
      show hasPrefix _ (ascii (if e.standby then "true" else "false")) = true ∨
        hasPrefix _ (ascii (if e.standby then "true" else "false")) = true
      cases e.standby <;> decide
  | ip =>
      show (inetAton (dotted e.ip)).isSome = true
      rw [inetAton_dotted]
      rfl
  | clone =>
      show hasPrefix _ (ascii (if e.kind = .clone then "true" else "false")) = true ∨
        hasPrefix _ (ascii (if e.kind = .clone then "true" else "false")) = true
      cases e.kind <;> decide

/-- The lines between header and footer. -/
def body (e : ServerEntry build) : List (BodyLine build) :=
  order.map fun s => s.bodyLine (e.value s) (e.plain_value s) (e.accepted_value s)

/-- The section of a server. -/
def sectionText (e : ServerEntry build) : SectionText build :=
  sectionNamed e.isName e.noSlash (Nat.le_of_lt e.nameFits) e.body (ascii "[/]\n")
    sampleFooter_closes

/-- The server that it asks for. -/
def request (e : ServerEntry build) : CreateRequest L where
  serverName := e.sectionText.serverName
  serverStatus := if e.enabled then .enabled else .disabled
  standbyState := e.standby
  serverPort := e.port
  serverIP := e.ip
  serverMaxc := e.maxc
  servermaxl := build.atof e.maxl

/-- The line for the kind. -/
theorem assign_clone (e : ServerEntry build) (vars : ServerVars L) : ∃ standbyState,
    Setting.assign build vars .clone (e.value .clone) =
      { vars with
        serverClone := vars.serverClone || e.kind = .clone
        standbyState := standbyState } := by
  show ∃ standbyState, Setting.assign build vars .clone
    (ascii (if e.kind = .clone then "true" else "false")) = _
  cases e.kind with
  | clone =>
      refine ⟨vars.standbyState, ?_⟩
      rw [Setting.assign_clone_of_true build (by decide)]
      simp
  | member =>
      refine ⟨false, ?_⟩
      rw [Setting.assign_clone_of_false build (by decide)]
      simp

/-- **What the section collects** is the server. -/
theorem request_collected (e : ServerEntry build) {vars : ServerVars L}
    (hvars : vars.serverClone = false) :
    (e.sectionText.collected vars).request = (e.kind, e.request) := by
  have hport : toInt (readDecimal (e.value .port)).value = e.port := by
    have hlt := e.isPort
    have hread := toInt_decimal (n := e.port) (by omega) (show EndsNumber [] from rfl)
    rwa [List.append_nil] at hread
  have hmaxc : toInt (readDecimal (e.value .maxc)).value = e.maxc := by
    have hread := toInt_decimal e.maxcFits (show EndsNumber [] from rfl)
    rwa [List.append_nil] at hread
  have hip : inetAton (e.value .ip) = some e.ip := inetAton_dotted e.ip
  have hstatus : (if hasPrefix "enabled" (e.value .status) then ServerStatus.enabled
      else .disabled) = if e.enabled then .enabled else .disabled := by
    show (if hasPrefix "enabled" (ascii (if e.enabled then "enabled" else "disabled")) then
      ServerStatus.enabled else .disabled) = _
    cases e.enabled <;> decide
  have hstandby : hasPrefix "true" (e.value .standby) = e.standby := by
    show hasPrefix "true" (ascii (if e.standby then "true" else "false")) = _
    cases e.standby <;> decide
  have hkind : (if (false || decide (e.kind = .clone)) = true then ServerKind.clone else .member) =
      e.kind := by
    cases e.kind <;> rfl
  obtain ⟨standbyState, hclone⟩ :=
    e.assign_clone { vars with serverName := e.sectionText.serverName }
  have hcollected : e.sectionText.collected vars =
      { serverStatus := if e.enabled then .enabled else .disabled
        serverClone := false || decide (e.kind = .clone)
        standbyState := e.standby
        serverPort := e.port
        serverMaxc := e.maxc
        serverMaxl := build.atof e.maxl
        serverIP := e.ip
        serverName := e.sectionText.serverName } := by
    show [Setting.port, .maxc, .maxl, .status, .standby, .ip].foldl
      (fun vars s => s.assign build vars (e.value s))
        (Setting.assign build { vars with serverName := e.sectionText.serverName } .clone
          (e.value .clone)) = _
    rw [hclone]
    simp only [List.foldl_cons, List.foldl_nil, Setting.assign, hport, hmaxc, hip, hstatus,
      hstandby, hvars, Option.getD_some]
    rfl
  rw [hcollected]
  exact congrArg (fun kind => (kind, e.request)) hkind

/-! ### Its lines in the file -/

theorem header_eq (e : ServerEntry build) :
    e.sectionText.header = 91 :: (e.name ++ [93, 10]) := by
  have hfits := e.nameFits
  have hmax : serverNameMaxLength = 16 := rfl
  show fgets configRoom (91 :: (e.name ++ [93, 10])) = _
  rw [fgets_eq_take (isLine_header e.isName), List.take_of_length_le]
  simp [configRoom]
  omega

/-- What is written for a server. -/
def lines (e : ServerEntry build) : List (List UInt8) := e.sectionText.lines

theorem fits_lines (e : ServerEntry build) {room : ℕ}
    (hroom : max 15 e.maxl.length + 11 ≤ room) : ∀ line ∈ e.lines, FitsBuffer room line := by
  intro line hline
  have hmax : serverNameMaxLength = 16 := rfl
  rcases List.mem_cons.mp hline with rfl | hline
  · rw [header_eq]
    have hfits := e.nameFits
    refine ⟨isLine_header e.isName, ?_, ?_⟩
    · rw [List.getLast?_cons, List.getLast?_append]
      rfl
    · simp only [List.length_cons, List.length_append, List.length_nil]
      omega
  rcases List.mem_append.mp hline with hline | hline
  · obtain ⟨l, hl, rfl⟩ := List.mem_map.mp hline
    obtain ⟨s, -, rfl⟩ := List.mem_map.mp hl
    have hvalue := e.length_value s
    have hword := s.length_word
    exact (s.isSetting (e.plain_value s)).fits (by omega)
  · obtain rfl := List.mem_singleton.mp hline
    have hlength : (ascii "[/]\n").length ≤ 4 := by decide
    show FitsBuffer room (ascii "[/]\n")
    exact ⟨⟨by decide, by decide⟩, by decide, by omega⟩

end ServerEntry

/-! ## The file -/

/-- The text of a list of servers. -/
def serverFile (entries : List (ServerEntry build)) : List UInt8 :=
  (entries.flatMap ServerEntry.lines).flatten

theorem buffers_serverFile (entries : List (ServerEntry build)) :
    buffers configRoom (serverFile entries) = entries.flatMap ServerEntry.lines := by
  refine buffers_flatten (by decide) fun line hline => ?_
  obtain ⟨e, -, he⟩ := List.mem_flatMap.mp hline
  have hroom : configRoom = 999 := rfl
  have hmaxl := e.maxlFits
  exact e.fits_lines (by omega) line he

/-! ## What is in the tables -/

/-- The settings of a server. -/
structure ServerSettings (L : Type) where
  /-- the string in the field; `none` if it does not end -/
  name : Option (List UInt8)
  status : ServerStatus
  standbyState : Bool
  port : ℤ
  /-- where its connections go -/
  tcpPort : ℕ
  address : UInt32
  maxc : ℤ
  maxl : L

/-- The settings of a record. -/
def Server.settings (s : Server L) : ServerSettings L where
  name := fieldString s.name
  status := s.status
  standbyState := s.standbyState
  port := s.port
  tcpPort := tcpPort s.sinPort
  address := s.sinAddr
  maxc := s.maxc
  maxl := s.maxl

/-- The settings of the servers of a table. -/
def Balancer.listing (b : Balancer L) (kind : ServerKind) : List (ServerSettings L) :=
  (List.range (b.count kind)).map fun i => (b.table kind i).settings

/-- The settings that are to be written. -/
def ServerEntry.settings (e : ServerEntry build) : ServerSettings L where
  name := some e.name
  status := if e.enabled then .enabled else .disabled
  standbyState := e.standby
  port := e.port
  tcpPort := e.port
  address := e.ip
  maxc := e.maxc
  maxl := build.atof e.maxl

/-- The servers of one kind. -/
def ofKind (kind : ServerKind) (entries : List (ServerEntry build)) : List (ServerEntry build) :=
  entries.filter fun e => e.kind = kind

theorem ofKind_concat (kind : ServerKind) (entries : List (ServerEntry build))
    (e : ServerEntry build) : ofKind kind (entries ++ [e]) =
      ofKind kind entries ++ if e.kind = kind then [e] else [] := by
  simp [ofKind, List.filter_append, List.filter_singleton]

/-- The tables hold exactly these servers, in this order. -/
def Balancer.Lists (b : Balancer L) (entries : List (ServerEntry build)) : Prop :=
  ∀ kind, b.listing kind = (ofKind kind entries).map ServerEntry.settings

theorem lists_nil {b : Balancer L} (hmembers : b.nmembers = 0) (hclones : b.nclones = 0) :
    b.Lists ([] : List (ServerEntry build)) := by
  intro kind
  cases kind with
  | member =>
      show (List.range b.nmembers).map _ = []
      rw [hmembers]
      rfl
  | clone =>
      show (List.range b.nclones).map _ = []
      rw [hclones]
      rfl

/-- The field of a record holds the name. -/
theorem ServerEntry.fieldString_name (e : ServerEntry build) :
    fieldString (strncpy serverNameMaxLength (strncpy serverNameMaxLength e.name)) =
      some e.name := by
  have hfits := e.nameFits
  have hplain : ∀ b ∈ e.name, b ≠ 0 := fun b hb => (e.isName.2 b hb).1
  rw [strncpy_strncpy, strncpy_name hplain, List.take_of_length_le (Nat.le_of_lt hfits),
    fieldString_pad_iff hplain (Nat.le_of_lt hfits)]
  exact hfits

theorem ServerEntry.tcpPort_port (e : ServerEntry build) :
    tcpPort (htons (.ofInt (e.port : ℤ))) = e.port :=
  Int.ofNat_inj.mp (tcpPort_of_isPort e.isPort_port)

section Creation

variable [IntCast L]

/-- The record of a server has its settings. -/
theorem ServerEntry.settings_record (e : ServerEntry build) (i : ℕ) :
    ({ e.request.record with id := i } : Server L).settings = e.settings := by
  have hcopy : e.sectionText.serverName = strncpy serverNameMaxLength e.name := by
    rw [strncpy_name fun b hb => (e.isName.2 b hb).1,
      List.take_of_length_le (Nat.le_of_lt e.nameFits)]
    rfl
  have hname : fieldString (strncpy serverNameMaxLength e.sectionText.serverName) =
      some e.name := by
    rw [hcopy, e.fieldString_name]
  have hport := e.tcpPort_port
  unfold Server.settings ServerEntry.settings
  congr 1

omit [IntCast L] in
theorem Balancer.Lists.count {b : Balancer L} {entries : List (ServerEntry build)}
    (h : b.Lists entries) (kind : ServerKind) : b.count kind = (ofKind kind entries).length := by
  have hlength := congrArg List.length (h kind)
  simpa [Balancer.listing] using hlength

omit [IntCast L] in
/-- The tables have no gaps. -/
theorem Balancer.Lists.not_free {b : Balancer L} {entries : List (ServerEntry build)}
    (h : b.Lists entries) (kind : ServerKind) :
    ∀ i < b.count kind, (b.table kind i).status ≠ .free := by
  intro i hi
  have hmem : (b.table kind i).settings ∈ b.listing kind :=
    List.mem_map_of_mem (List.mem_range.mpr hi)
  rw [h kind] at hmem
  obtain ⟨e, -, he⟩ := List.mem_map.mp hmem
  have hstatus : (if e.enabled then ServerStatus.enabled else .disabled) =
      (b.table kind i).status := congrArg ServerSettings.status he
  rw [← hstatus]
  cases e.enabled <;> decide

/-- **A server is created** behind the others, if the tables have no gaps. -/
theorem listing_create {r : CreateRequest L} {kind : ServerKind} {b : Balancer L}
    (hport : IsPort r.serverPort)
    (hlive : ∀ i < b.count kind, (b.table kind i).status ≠ .free)
    (hlt : b.count kind < maxServers) (hle : ∀ kind, b.count kind ≤ maxServers) :
    (createBalancerServer true kind r b).2 = 0 ∧ ∀ kind',
      (createBalancerServer true kind r b).1.listing kind' = b.listing kind' ++
        if kind = kind' then [({ r.record with id := b.count kind } : Server L).settings]
        else [] := by
  have hzero : (createBalancerServer true kind r b).2 = 0 :=
    (creates_iff true kind r b).mpr ⟨rfl, not_dvd_of_isPort hport⟩
  refine ⟨hzero, fun kind' => ?_⟩
  rcases createBalancerServer_cases true kind r b with ⟨-, -, hneg⟩ | ⟨-, -, hc⟩
  · omega
  have hnew : newIndex kind b = b.count kind := by
    rcases newIndex_spec kind b with ⟨hin, hfree, -⟩ | ⟨-, heq⟩
    · exact absurd hfree (hlive _ hin)
    · exact heq
  have hwritten := hc.written
  have hothers := hc.others
  have hcount := hc.count
  rw [hnew] at hwritten hothers hcount
  generalize (createBalancerServer true kind r b).1 = b' at *
  unfold Balancer.listing
  by_cases hkind : kind = kind'
  · subst hkind
    have hsame : ∀ i ∈ List.range (b.count kind),
        (b'.table kind i).settings = (b.table kind i).settings := by
      intro i hi
      have hslot : slot kind i ≠ slot kind (b.count kind) := fun heq =>
        absurd (slot_injective kind heq) (Nat.ne_of_lt (List.mem_range.mp hi))
      exact congrArg Server.settings (hothers _ hslot)
    rw [if_pos rfl, hcount, Nat.max_eq_right (Nat.le_succ _), List.range_succ, List.map_append,
      List.map_congr_left hsame, List.map_singleton, hwritten]
  · have hsame : ∀ i ∈ List.range (b.count kind'),
        (b'.table kind' i).settings = (b.table kind' i).settings := by
      intro i hi
      have hi' : i < maxServers := Nat.lt_of_lt_of_le (List.mem_range.mp hi) (hle kind')
      exact congrArg Server.settings
        (hothers _ fun heq => hkind (slot_inj hi' hlt heq).1.symm)
    rw [if_neg hkind, List.append_nil, hc.otherCount kind' (Ne.symm hkind),
      List.map_congr_left hsame]

omit [IntCast L] in
/-- There is room for another server. -/
theorem Balancer.Lists.room {b : Balancer L} {entries : List (ServerEntry build)}
    (h : b.Lists entries) {e : ServerEntry build}
    (hroom : ∀ kind, (ofKind kind (entries ++ [e])).length ≤ maxServers) :
    b.count e.kind < maxServers ∧ ∀ kind, b.count kind ≤ maxServers := by
  refine ⟨?_, fun kind => ?_⟩
  · have hle := hroom e.kind
    rw [ofKind_concat, if_pos rfl, List.length_append, ← h.count] at hle
    exact hle
  · have hle := hroom kind
    rw [ofKind_concat, List.length_append, ← h.count] at hle
    omega

/-- The server of a section is created. -/
theorem Balancer.Lists.create {b : Balancer L} {entries : List (ServerEntry build)}
    (h : b.Lists entries) (e : ServerEntry build)
    (hroom : ∀ kind, (ofKind kind (entries ++ [e])).length ≤ maxServers) :
    (createBalancerServer true e.kind e.request b).2 = 0 ∧
      (createBalancerServer true e.kind e.request b).1.Lists (entries ++ [e]) := by
  obtain ⟨hlt, hle⟩ := h.room hroom
  obtain ⟨hzero, hlisting⟩ := listing_create (r := e.request) e.isPort_port
    (h.not_free e.kind) hlt hle
  refine ⟨hzero, fun kind => ?_⟩
  rw [hlisting kind, h kind, ofKind_concat, List.map_append, e.settings_record]
  split_ifs
  · rfl
  · rfl

end Creation

/-! ## Reading the file -/

section Reading

variable [IntCast L]

/-- Of what the processes share only the tables differ. -/
structure OnlyTables (s s' : Shared L) : Prop where
  settings : { s' with balancer := s.balancer } = s
  modes : { s'.balancer with
    servers := s.balancer.servers, nmembers := s.balancer.nmembers,
    nclones := s.balancer.nclones } = s.balancer

/-- **A section is read.** -/
theorem foldlM_lines (hmalloc : ∀ line, build.malloc line = true) (e : ServerEntry build)
    {p : Parser L} (hp : Between p) {entries : List (ServerEntry build)}
    (h : p.shared.balancer.Lists entries)
    (hroom : ∀ kind, (ofKind kind (entries ++ [e])).length ≤ maxServers) :
    ∃ q, e.lines.foldlM (parseBuffer build) p = .ok q ∧ Between q ∧
      q.shared.balancer.Lists (entries ++ [e]) ∧ OnlyTables p.shared q.shared := by
  have hclone : p.vars.serverClone = false := by
    rw [hp.2]
    rfl
  obtain ⟨hzero, hlists⟩ := h.create e hroom
  have hother := create_otherFields true e.kind e.request p.shared.balancer
  have hrequest := e.request_collected hclone
  obtain ⟨err, hsection⟩ := foldlM_section e.sectionText p
  generalize e.sectionText.collected p.vars = vars at hrequest hsection
  unfold ServerEntry.lines
  rw [hsection]
  unfold endSection
  simp only [Parser.logged, hmalloc, hrequest]
  rw [if_neg (not_overruns_of_count_lt (h.room hroom).1 _ _), if_neg (by rw [hzero]; decide)]
  generalize (createBalancerServer true e.kind e.request p.shared.balancer).1 = b at *
  exact ⟨_, rfl, ⟨rfl, rfl⟩, hlists, rfl, hother⟩

omit [IntCast L] in
theorem OnlyTables.trans {s s' s'' : Shared L} (h : OnlyTables s s') (h' : OnlyTables s' s'') :
    OnlyTables s s'' where
  settings := by
    rw [← h.settings, ← h'.settings]
  modes := by
    rw [← h.modes, ← h'.modes]

/-- The sections are read, one after the other. -/
theorem foldlM_flatMap_lines (hmalloc : ∀ line, build.malloc line = true)
    {rest entries : List (ServerEntry build)} {p : Parser L} (hp : Between p)
    (h : p.shared.balancer.Lists entries)
    (hroom : ∀ kind, (ofKind kind (entries ++ rest)).length ≤ maxServers) :
    ∃ q, (rest.flatMap ServerEntry.lines).foldlM (parseBuffer build) p = .ok q ∧
      q.shared.balancer.Lists (entries ++ rest) ∧ OnlyTables p.shared q.shared := by
  induction rest generalizing entries p with
  | nil =>
      rw [List.append_nil]
      exact ⟨p, rfl, h, rfl, rfl⟩
  | cons e rest ih =>
      rw [List.append_cons] at hroom ⊢
      have hfirst : ∀ kind, (ofKind kind (entries ++ [e])).length ≤ maxServers := by
        intro kind
        refine Nat.le_trans (List.Sublist.length_le ?_) (hroom kind)
        exact (List.sublist_append_left _ _).filter _
      obtain ⟨r, hr, hbetween, hlists, honly⟩ := foldlM_lines hmalloc e hp h hfirst
      obtain ⟨q, hq, hall, honly'⟩ := ih hbetween hlists hroom
      refine ⟨q, ?_, hall, honly.trans honly'⟩
      rw [List.flatMap_cons]
      exact Machine.foldlM_append_eq_ok.mpr ⟨r, hr, hq⟩

/-- **Round trip.**  Whatever servers are written to a file, at most as many of each kind
as the tables have room for: the file is accepted, and the tables hold exactly these
servers, in their order. -/
theorem serverFile_read (hmalloc : ∀ line, build.malloc line = true) {shared : Shared L}
    (hmembers : shared.balancer.nmembers = 0) (hclones : shared.balancer.nclones = 0)
    (serverIP : UInt32) (serverName : List UInt8) (entries : List (ServerEntry build))
    (hroom : ∀ kind, (ofKind kind entries).length ≤ maxServers) :
    ∃ q, parseConfigFile build (serverFile entries) (.start shared serverIP serverName) = .ok q ∧
      q.shared.balancer.Lists entries ∧ OnlyTables shared q.shared := by
  unfold parseConfigFile
  rw [buffers_serverFile]
  exact foldlM_flatMap_lines hmalloc (between_start shared serverIP serverName)
    (lists_nil hmembers hclones) hroom

end Reading

/-! ## Samples -/

/-- A member. -/
def webMember : ServerEntry sampleBuild where
  kind := .member
  name := ascii "web-1"
  enabled := true
  standby := false
  port := 8080
  ip := 0x0A000001
  maxc := 250
  maxl := ascii "4"
  isName := isName_web
  noSlash := by decide
  nameFits := by decide
  isPort := by decide
  maxcFits := by decide
  maxlPlain := by decide
  maxlFits := by decide
  maxlPositive := by decide

/-- A clone that stands by. -/
def spareClone : ServerEntry sampleBuild :=
  { webMember with kind := .clone, enabled := false, standby := true, ip := 0xC0A80102 }

theorem serverFile_read_pair : ∃ q,
    parseConfigFile sampleBuild (serverFile [webMember, spareClone]) (.start sampleShared 0 []) =
        .ok q ∧
      q.shared.balancer.Lists [webMember, spareClone] ∧ OnlyTables sampleShared q.shared :=
  serverFile_read (fun _ => rfl) rfl rfl 0 [] [webMember, spareClone] fun kind => by
    cases kind <;> decide

end OctopusLB
