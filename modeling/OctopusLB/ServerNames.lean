/-
# The names of servers

A name is copied three times, from the header `[name]` or the command line into a
buffer of 16 bytes, and from there into the record.  The copy from the header is
made with the length of the line, which nothing compares with the buffer.

`serverName_iff`: a name is stored as it is given, or is truncated, exactly if it
leaves room for the zero byte, is not too long for a header, and does not make the
header a footer.
-/
import Mathlib.Data.Bool.AllAny
import OctopusLB.Creation
import OctopusLB.LineSpacing

namespace OctopusLB

open Balancer CString TextLines

variable {L : Type}

/-! ## Fields -/

/-- What a field holds as a string: none if it has no zero byte. -/
def fieldString (field : List UInt8) : Option (List UInt8) :=
  if (0 : UInt8) ∈ field then some (field.takeWhile (· ≠ 0)) else none

/-- The bytes of a name: no whitespace, no equals sign, and no end of the string. -/
def IsName (name : List UInt8) : Prop :=
  name ≠ [] ∧ ∀ b ∈ name, b ≠ 0 ∧ b ≠ 61 ∧ isSpace b = false

section Field

variable {name : List UInt8}

theorem takeWhile_name (hname : ∀ b ∈ name, b ≠ 0) (rest : List UInt8) :
    (name ++ 0 :: rest).takeWhile (· ≠ 0) = name := by
  have hall : ∀ b ∈ name, decide (b ≠ 0) = true := fun b hb => decide_eq_true (hname b hb)
  rw [List.takeWhile_append_of_pos hall, List.takeWhile_cons_of_neg (by decide), List.append_nil]

/-- **A field** of `n` bytes holds exactly the names shorter than it. -/
theorem fieldString_pad_iff (hname : ∀ b ∈ name, b ≠ 0) {n : ℕ} (hle : name.length ≤ n) :
    fieldString (name ++ List.replicate (n - name.length) 0) = some name ↔ name.length < n := by
  unfold fieldString
  rcases Nat.lt_or_eq_of_le hle with hlt | heq
  · obtain ⟨k, hk⟩ : ∃ k, n - name.length = k + 1 := ⟨n - name.length - 1, by omega⟩
    rw [hk, List.replicate_succ, takeWhile_name hname, if_pos (by simp)]
    exact iff_of_true rfl hlt
  · rw [heq, Nat.sub_self, List.replicate_zero, List.append_nil, if_neg fun h => hname 0 h rfl]
    exact iff_of_false nofun (Nat.lt_irrefl n)

/-- `strncpy` pads a name, or cuts it. -/
theorem strncpy_name (hname : ∀ b ∈ name, b ≠ 0) (n : ℕ) :
    strncpy n name = name.take n ++ List.replicate (n - (name.take n).length) 0 := by
  have hall : (name.take n).takeWhile (· ≠ 0) = name.take n := by
    rw [List.takeWhile_eq_self_iff]
    exact fun b hb => decide_eq_true (hname b (List.mem_of_mem_take hb))
  unfold strncpy
  rw [hall]

/-- A copy of a copy is the copy. -/
theorem strncpy_strncpy (n : ℕ) (src : List UInt8) : strncpy n (strncpy n src) = strncpy n src := by
  have hcopy := (strncpy_eq_self_iff (strncpy n src)).mpr ?_
  · rwa [length_strncpy] at hcopy
  · unfold ZeroPadded strncpy
    dsimp only
    intro b hb
    rw [List.dropWhile_append_of_pos] at hb
    · exact List.eq_of_mem_replicate ((List.dropWhile_sublist _).subset hb)
    · intro c hc
      exact List.mem_takeWhile_imp (p := fun b => decide (b ≠ 0)) hc

end Field

/-! ## What is expected -/

/-- The server that a call of `create_balancer_server` creates, in whatever balancer,
has the name in its field. -/
def CreatesNamed [IntCast L] (name : List UInt8) (call : ServerKind × CreateRequest L) : Prop :=
  ∀ malloc b, (createBalancerServer malloc call.1 call.2 b).2 = 0 →
    fieldString ((createBalancerServer malloc call.1 call.2 b).1.table call.1
      (newIndex call.1 b)).name = some name

/-- A name of up to 16 bytes or the front of a longer one, in a buffer of 16. -/
def Truncated (name buffer : List UInt8) : Prop :=
  ∃ k ≤ serverNameMaxLength,
    buffer = name.take k ++ List.replicate (serverNameMaxLength - (name.take k).length) 0

/-- The line `[name]` as the parser gets it. -/
def headerBuffer (name : List UInt8) : List UInt8 := fgets configRoom (91 :: (name ++ [93, 10]))

/-- The malloc of a build replaced. -/
def Build.withMalloc (build : Build L) (malloc : ℕ → Bool) : Build L :=
  { build with malloc := malloc }

/-- A round on a header: it is rejected, or begins a section with the name, cut if
need be; nothing is written outside the buffer. -/
def HeaderTaken (name : List UInt8) : Except Halt (Parser L) → Prop
  | .ok q => q.inServerSection = true ∧ Truncated name q.vars.serverName
  | .error (.exit _ _) => True
  | .error .null => False
  | .error (.badLength _) => False
  | .error .overrun => False

/-- Wherever in a configuration file a header stands, and whatever `malloc` does: a
short name is that of the server created at the end of the section, if its lines are
of the usual kind; a long one is rejected or truncated. -/
structure HeaderFaithful [IntCast L] (build : Build L) (start : Parser L) (name : List UInt8) :
    Prop where
  stored : name.length ≤ serverNameMaxLength → ∀ malloc (before : List (List UInt8)) p,
    before.foldlM (parseBuffer (build.withMalloc malloc)) start = .ok p →
    ∀ (body : List (BodyLine (build.withMalloc malloc))) footer,
      (splitLine footer).directive.any (hasPrefix "[/") = true →
      ∃ call, createCalls (build.withMalloc malloc) p
        (headerBuffer name :: (body.map BodyLine.text ++ [footer])) = [call] ∧
        CreatesNamed name call
  bounded : serverNameMaxLength < name.length → ∀ malloc (before : List (List UInt8)) p,
    before.foldlM (parseBuffer (build.withMalloc malloc)) start = .ok p →
    HeaderTaken name (parseBuffer (build.withMalloc malloc) p (headerBuffer name))

/-- The same for a call of `cmd_create`: the buffer and the field have 16 bytes. -/
structure CommandFaithful [IntCast L] (b : Balancer L) (name : List UInt8) : Prop where
  stored : name.length ≤ serverNameMaxLength → ∀ type ip port call,
    parseCreate type name ip port b = some call → CreatesNamed name call
  bounded : serverNameMaxLength < name.length → ∀ type ip port call,
    parseCreate type name ip port b = some call → Truncated name call.2.serverName

/-- The two ways in which a name is given. -/
inductive NameSource
  | header
  | command

/-- What is expected of a name that is given in one of them, before any server has
been read or created. -/
def NameFaithful [IntCast L] (build : Build L) (start : Parser L) (name : List UInt8) :
    NameSource → Prop
  | .header => HeaderFaithful build start name
  | .command => CommandFaithful start.shared.balancer name

/-- There is room for a zero byte behind the name, and a header is none of a longer
name, nor a footer. -/
def NameFits (name : List UInt8) : NameSource → Prop
  | .header => name.length < serverNameMaxLength ∧ name.head? ≠ some 47
  | .command => name.length ≠ serverNameMaxLength

instance (name : List UInt8) (source : NameSource) : Decidable (NameFits name source) := by
  unfold NameFits
  cases source <;> infer_instance

/-! ## The record -/

section Record

variable [IntCast L] {name : List UInt8} {kind : ServerKind} {r : CreateRequest L}

/-- The name in the record of a creation that may succeed. -/
theorem createsNamed_iff (hport : ¬ (65536 : ℤ) ∣ r.serverPort) (b : Balancer L) :
    CreatesNamed name (kind, r) ↔
      fieldString (strncpy serverNameMaxLength r.serverName) = some name := by
  have hvalid : r.Valid true := (r.valid_iff true).mpr ⟨rfl, hport⟩
  constructor
  · intro h
    rcases createBalancerServer_cases true kind r b with ⟨hno, -⟩ | ⟨-, hret, hcreates⟩
    · exact absurd hvalid hno
    · have hnamed := h true b hret
      rwa [hcreates.written] at hnamed
  · intro h malloc b' hret
    rcases createBalancerServer_cases malloc kind r b' with ⟨-, -, hneg⟩ | ⟨-, -, hcreates⟩
    · exact absurd hneg (not_lt.mpr (le_of_eq hret.symm))
    · dsimp only
      rw [hcreates.written]
      exact h

/-- A creation that cannot succeed has no name to keep. -/
theorem createsNamed_of_field
    (h : fieldString (strncpy serverNameMaxLength r.serverName) = some name) :
    CreatesNamed name (kind, r) := by
  intro malloc b hret
  rcases createBalancerServer_cases malloc kind r b with ⟨-, -, hneg⟩ | ⟨-, -, hcreates⟩
  · exact absurd hneg (not_lt.mpr (le_of_eq hret.symm))
  · dsimp only
    rw [hcreates.written]
    exact h

end Record

/-! ## `cmd_create` -/

/-- **The command** cuts long names, and has no room for the zero byte behind those
of 16 bytes. -/
theorem commandFaithful_iff [IntCast L] {name : List UInt8} (hname : IsName name)
    (b : Balancer L) : CommandFaithful b name ↔ name.length ≠ serverNameMaxLength := by
  have hzero : ∀ c ∈ name, c ≠ 0 := fun c hc => (hname.2 c hc).1
  have hcall : ∀ type ip port call, parseCreate type name ip port b = some call →
      call.2.serverName = strncpy serverNameMaxLength name := by
    intro type ip port call hparse
    unfold parseCreate at hparse
    split at hparse
    · split_ifs at hparse
      rw [← Option.some.inj hparse]
      rfl
    · cases hparse
  constructor
  · intro h heq
    have hnamed := h.stored (le_of_eq heq) [109] (some 0) 80 _ rfl
    have hport : ¬ (65536 : ℤ) ∣ (createRequest name 0 80 b).serverPort := by
      show ¬ (65536 : ℤ) ∣ 80
      decide
    rw [createsNamed_iff hport b] at hnamed
    rw [show (createRequest name 0 80 b).serverName = strncpy serverNameMaxLength name from rfl,
      strncpy_strncpy, strncpy_name hzero, ← heq, List.take_length,
      fieldString_pad_iff hzero (Nat.le_refl _)] at hnamed
    exact absurd hnamed (Nat.lt_irrefl _)
  · intro hne
    refine ⟨fun hle type ip port call hparse => ?_, fun _ type ip port call hparse => ?_⟩
    · refine createsNamed_of_field ?_
      rw [hcall type ip port call hparse, strncpy_strncpy, strncpy_name hzero,
        List.take_of_length_le hle, fieldString_pad_iff hzero hle]
      exact Nat.lt_of_le_of_ne hle hne
    · rw [hcall type ip port call hparse, strncpy_name hzero]
      exact ⟨serverNameMaxLength, Nat.le_refl _, rfl⟩

/-! ## Headers -/

section Header

variable {name : List UInt8}

theorem isLine_header (hname : IsName name) : IsLine (91 :: (name ++ [93, 10])) := by
  refine ⟨List.cons_ne_nil _ _, ?_⟩
  rw [show (91 :: (name ++ [93, 10]) : List UInt8) = (91 :: (name ++ [93])) ++ [10] by simp,
    List.dropLast_concat]
  intro hmem
  simp only [List.mem_cons, List.mem_append, List.not_mem_nil, or_false] at hmem
  rcases hmem with h | h | h
  · cases h
  · exact absurd (hname.2 10 h).2.2 (by decide)
  · cases h

/-- What is left of a header: the name, or as much of it as there is room for, and
the bracket if there is. -/
theorem headerBuffer_eq (hname : IsName name) : ∃ bracket newline,
    headerBuffer name = (91 :: (name.take 998 ++ bracket)) ++ newline ∧
      (∀ b ∈ bracket, b = 93) ∧ (∀ b ∈ newline, b = 10) ∧
      (name.length ≤ 996 → bracket = [93]) := by
  have htake : headerBuffer name = 91 :: (name.take 998 ++ [93, 10].take (998 - name.length)) := by
    unfold headerBuffer
    rw [fgets_eq_take (isLine_header hname)]
    show (91 :: (name ++ [93, 10])).take (998 + 1) = _
    rw [List.take_succ_cons, List.take_append]
  rw [htake]
  obtain hzero | hone | ⟨k, htwo⟩ : 998 - name.length = 0 ∨ 998 - name.length = 1 ∨
      ∃ k, 998 - name.length = k + 2 := by
    rcases Nat.lt_or_ge (998 - name.length) 2 with h | h
    · omega
    · exact Or.inr (Or.inr ⟨998 - name.length - 2, by omega⟩)
  · exact ⟨[], [], by simp [hzero], nofun, nofun, fun hle => by omega⟩
  · exact ⟨[93], [], by simp [hone], by simp, nofun, fun _ => rfl⟩
  · exact ⟨[93], [10], by simp [htwo], by simp, by simp, fun _ => rfl⟩

/-- How a header is split. -/
theorem splitLine_header (hname : IsName name) : ∃ bracket,
    (splitLine (headerBuffer name)).directive = some (91 :: (name.take 998 ++ bracket)) ∧
      (name.length ≤ 996 → bracket = [93]) := by
  obtain ⟨bracket, newline, hbuffer, hbracket, hnewline, hfits⟩ := headerBuffer_eq hname
  refine ⟨bracket, ?_, hfits⟩
  have hplain : ∀ b ∈ 91 :: (name.take 998 ++ bracket), b ≠ 0 ∧ b ≠ 61 ∧ isSpace b = false := by
    intro b hb
    simp only [List.mem_cons, List.mem_append] at hb
    rcases hb with rfl | hb | hb
    · decide
    · exact hname.2 b (List.mem_of_mem_take hb)
    · rw [hbracket b hb]
      decide
  have hall : ∀ b ∈ headerBuffer name, b ≠ 0 ∧ b ≠ 61 := by
    intro b hb
    rw [hbuffer] at hb
    rcases List.mem_append.mp hb with hb | hb
    · exact ⟨(hplain b hb).1, (hplain b hb).2.1⟩
    · rw [hnewline b hb]
      decide
  have hstring : cstr (headerBuffer name) = headerBuffer name := by
    unfold cstr
    rw [List.takeWhile_eq_self_iff]
    exact fun b hb => decide_eq_true (hall b hb).1
  have hhead : ¬ NoDirective (headerBuffer name) := by
    unfold NoDirective
    rw [hstring, hbuffer]
    intro h
    exact absurd (h 91 List.mem_cons_self) (by decide)
  have hskip : (headerBuffer name).dropWhile (· = 61) = headerBuffer name := by
    rw [hbuffer]
    exact List.dropWhile_cons_of_neg (by decide)
  have htoken : (headerBuffer name).takeWhile (· ≠ 61) = headerBuffer name := by
    rw [List.takeWhile_eq_self_iff]
    exact fun b hb => decide_eq_true (hall b hb).2
  have htrim : trimWhiteSpace ([] ++ (91 :: (name.take 998 ++ bracket) ++ newline)) =
      91 :: (name.take 998 ++ bracket) := by
    apply trimWhiteSpace_pad
    · exact nofun
    · exact fun b hb => (hplain b hb).2.2
    · intro b hb
      rw [hnewline b hb]
      rfl
  rw [splitLine_of_directive hhead]
  unfold directiveOf
  rw [hstring, hskip, htoken, hbuffer]
  exact congrArg some htrim

/-- A header is a footer if the name starts with a slash. -/
theorem hasPrefix_footer (rest : List UInt8) :
    hasPrefix "[/" (91 :: rest) = true ↔ rest.head? = some 47 := by
  cases rest with
  | nil => exact ⟨nofun, nofun⟩
  | cons b bs =>
      have hb : hasPrefix "[/" (91 :: b :: bs) = decide (b = 47) := by
        show (47 == b && true) = _
        rw [Bool.and_true, Bool.eq_iff_iff, beq_iff_eq, decide_eq_true_iff]
        exact eq_comm
      rw [hb, decide_eq_true_iff, List.head?_cons, Option.some.injEq]

theorem head?_take_append (hname : IsName name) (bracket : List UInt8) :
    (name.take 998 ++ bracket).head? = name.head? := by
  obtain ⟨c, cs, rfl⟩ := List.exists_cons_of_ne_nil hname.1
  rfl

variable [IntCast L] {build : Build L} {p : Parser L}

/-- A footer, or the start of a section. -/
theorem parseBuffer_headerBuffer (build : Build L) (p : Parser L) (hname : IsName name) : ∃ bracket,
    (splitLine (headerBuffer name)).directive = some (91 :: (name.take 998 ++ bracket)) ∧
      (name.length ≤ 996 → bracket = [93]) ∧
      parseBuffer build p (headerBuffer name) =
        if name.head? = some 47 then
          endSection build { p with lineCounter := p.lineCounter + 1 }
        else
          startSection (91 :: (name.take 998 ++ bracket))
            { p with lineCounter := p.lineCounter + 1 } := by
  obtain ⟨bracket, hsplit, hfits⟩ := splitLine_header hname
  refine ⟨bracket, hsplit, hfits, ?_⟩
  rw [parseBuffer_bracket hsplit rfl]
  unfold globalPart
  simp only [hasPrefix_footer, head?_take_append hname]
  split_ifs with hslash hbracket
  · rfl
  · rfl
  · exact absurd rfl hbracket

/-- A header of a name that is too long writes outside the buffer, if it is no
footer. -/
theorem parseBuffer_long (build : Build L) (p : Parser L) (hname : IsName name)
    (hlong : serverNameMaxLength < name.length) (hslash : name.head? ≠ some 47) :
    ∃ n, parseBuffer build p (headerBuffer name) = .error (.badLength n) := by
  obtain ⟨bracket, -, hfits, hparse⟩ := parseBuffer_headerBuffer build p hname
  have hmax : serverNameMaxLength = 16 := rfl
  have hlength : (91 :: (name.take 998 ++ bracket)).length =
      min 998 name.length + bracket.length + 1 := by
    rw [List.length_cons, List.length_append, List.length_take]
  have hover : 16 < nameLength (91 :: (name.take 998 ++ bracket)) := by
    unfold nameLength
    rw [hlength]
    rcases Nat.lt_or_ge 996 name.length with h | h
    · omega
    · rw [hfits h, List.length_singleton]
      omega
  rw [hparse, if_neg hslash]
  unfold startSection
  rw [if_neg fun h => absurd h.2 (by rw [hmax]; exact not_le.mpr hover)]
  exact ⟨_, rfl⟩

/-- A section with a name that fits the buffer. -/
def sectionNamed (hname : IsName name) (hslash : name.head? ≠ some 47)
    (hle : name.length ≤ serverNameMaxLength) (body : List (BodyLine build)) (footer : List UInt8)
    (hfooter : (splitLine footer).directive.any (hasPrefix "[/") = true) : SectionText build where
  header := headerBuffer name
  name := name
  body := body
  footer := footer
  opens := by
    obtain ⟨bracket, hsplit, hfits⟩ := splitLine_header hname
    have hmax : serverNameMaxLength = 16 := rfl
    rw [hsplit, hfits (by omega), List.take_of_length_le (by omega)]
  noSlash := hslash
  fits := hle
  closes := hfooter

/-- The section creates a server of that name if there is room for the zero byte. -/
theorem createsNamed_section (hname : IsName name) (sec : SectionText build)
    (hsec : sec.name = name) (hlt : name.length < serverNameMaxLength) :
    CreatesNamed name (sec.collected p.vars).request := by
  have hzero : ∀ c ∈ name, c ≠ 0 := fun c hc => (hname.2 c hc).1
  have hfield : (sec.collected p.vars).serverName =
      name ++ List.replicate (serverNameMaxLength - name.length) 0 := by
    unfold SectionText.collected
    rw [serverName_collect]
    unfold SectionText.serverName
    rw [hsec]
  have hcopy : name ++ List.replicate (serverNameMaxLength - name.length) 0 =
      strncpy serverNameMaxLength name := by
    rw [strncpy_name hzero, List.take_of_length_le (Nat.le_of_lt hlt)]
  apply createsNamed_of_field
  show fieldString (strncpy serverNameMaxLength (sec.collected p.vars).serverName) = some name
  rw [hfield, hcopy, strncpy_strncpy, ← hcopy, fieldString_pad_iff hzero (Nat.le_of_lt hlt)]
  exact hlt

end Header

/-! ## Both ways -/

section Both

variable [IntCast L] {name : List UInt8}

/-- A name that fills the buffer has no zero byte behind it in the record. -/
theorem HeaderFaithful.length_ne {build : Build L} {start : Parser L} (hname : IsName name)
    (hslash : name.head? ≠ some 47) (hport : start.vars.serverPort = 80)
    (h : HeaderFaithful build start name) : name.length ≠ serverNameMaxLength := by
  intro heq
  have hzero : ∀ c ∈ name, c ≠ 0 := fun c hc => (hname.2 c hc).1
  obtain ⟨call, hcalls, hnamed⟩ := h.stored (Nat.le_of_eq heq) build.malloc [] start rfl []
    (ascii "[/]\n") sampleFooter_closes
  let sec : SectionText build := sectionNamed hname hslash (Nat.le_of_eq heq) [] (ascii "[/]\n")
    sampleFooter_closes
  have hcall : createCalls build start sec.lines = [call] := hcalls
  rw [createCalls_section] at hcall
  rw [← List.singleton_inj.mp hcall] at hnamed
  have hdvd : ¬ (65536 : ℤ) ∣ (sec.collected start.vars).request.2.serverPort := by
    show ¬ (65536 : ℤ) ∣ start.vars.serverPort
    rw [hport]
    decide
  have hfield : fieldString (strncpy serverNameMaxLength
      (name ++ List.replicate (serverNameMaxLength - name.length) 0)) = some name :=
    (createsNamed_iff hdvd start.shared.balancer).mp hnamed
  have hcopy : name ++ List.replicate (serverNameMaxLength - name.length) 0 =
      strncpy serverNameMaxLength name := by
    rw [strncpy_name hzero, List.take_of_length_le (Nat.le_of_eq heq)]
  rw [hcopy, strncpy_strncpy, ← hcopy, fieldString_pad_iff hzero (Nat.le_of_eq heq)] at hfield
  exact absurd heq (Nat.ne_of_lt hfield)

/-- The end of a section is no header of a long name. -/
theorem not_headerTaken_endSection {build : Build L} {p : Parser L} (hport : p.vars.serverPort = 80)
    (hmalloc : build.malloc p.lineCounter = true) :
    ¬ HeaderTaken name (endSection build p) := by
  have hret : (createBalancerServer (build.malloc p.lineCounter) p.vars.request.1
      p.vars.request.2 p.shared.balancer).2 = 0 := by
    refine (creates_iff _ _ _ _).mpr ⟨hmalloc, ?_⟩
    show ¬ (65536 : ℤ) ∣ p.vars.serverPort
    rw [hport]
    decide
  unfold endSection
  dsimp only [Parser.logged]
  split_ifs with hover hneg
  · exact id
  · rw [hret] at hneg
    exact absurd hneg (by decide)
  · exact fun htaken => Bool.false_ne_true htaken.1

/-- A name that starts with a slash ends a section where its own starts: the server
that is created there has the name of the header before. -/
theorem HeaderFaithful.head?_ne {build : Build L} {start : Parser L} (hname : IsName name)
    (hport : start.vars.serverPort = 80) (h : HeaderFaithful build start name) :
    name.head? ≠ some 47 := by
  intro hslash
  rcases Nat.lt_or_ge serverNameMaxLength name.length with hlong | hle
  · obtain ⟨bracket, -, -, hparse⟩ :=
      parseBuffer_headerBuffer (build.withMalloc fun _ => true) start hname
    have htaken := h.bounded hlong (fun _ => true) [] start rfl
    rw [hparse, if_pos hslash] at htaken
    exact not_headerTaken_endSection (p := { start with lineCounter := start.lineCounter + 1 })
      hport rfl htaken
  · obtain ⟨bracket, hsplit, -⟩ := splitLine_header hname
    have hcloses : (splitLine (headerBuffer name)).directive.any (hasPrefix "[/") = true := by
      rw [hsplit]
      exact (hasPrefix_footer _).mpr ((head?_take_append hname bracket).trans hslash)
    -- the state behind another header
    obtain ⟨p, hbefore, hport', hother⟩ : ∃ p, [headerBuffer (ascii "a")].foldlM
        (parseBuffer (build.withMalloc fun _ => true)) start = .ok p ∧ p.vars.serverPort = 80 ∧
          p.vars.serverName = ascii "a" ++ List.replicate 15 0 := by
      have ha : IsName (ascii "a") := ⟨by decide, List.all_iff_forall_prop.mp (by decide)⟩
      obtain ⟨e, hopened⟩ := parseBuffer_header (sectionNamed ha (by decide) (by decide) []
        (ascii "[/]\n") sampleFooter_closes : SectionText (build.withMalloc fun _ => true)) start
      exact ⟨_, Machine.foldlM_cons_eq_ok.mpr ⟨_, hopened, rfl⟩, hport, rfl⟩
    obtain ⟨call, hcalls, hnamed⟩ := h.stored hle (fun _ => true) _ p hbefore [] (ascii "[/]\n")
      sampleFooter_closes
    obtain ⟨rest, hrest⟩ : ∃ rest, createCalls (build.withMalloc fun _ => true) p
        (headerBuffer name :: (([] : List (BodyLine (build.withMalloc fun _ => true))).map
          BodyLine.text ++ [ascii "[/]\n"])) = p.vars.request :: rest :=
      createCalls_cons_footer hcloses p _
    rw [hrest] at hcalls
    rw [← (List.cons.inj hcalls).1] at hnamed
    have hdvd : ¬ (65536 : ℤ) ∣ p.vars.request.2.serverPort := by
      show ¬ (65536 : ℤ) ∣ p.vars.serverPort
      rw [hport']
      decide
    have hfield : fieldString (strncpy serverNameMaxLength p.vars.serverName) = some name :=
      (createsNamed_iff hdvd start.shared.balancer).mp hnamed
    have ha : fieldString (strncpy serverNameMaxLength (ascii "a" ++ List.replicate 15 0)) =
        some (ascii "a") := by decide
    rw [hother, ha] at hfield
    rw [← Option.some.inj hfield] at hslash
    exact absurd hslash (by decide)

/-- **A header** stores the names that it is not too long for and that make it no
footer. -/
theorem headerFaithful_iff (build : Build L) (hname : IsName name) {start : Parser L}
    (hport : start.vars.serverPort = 80) : HeaderFaithful build start name ↔
      name.length < serverNameMaxLength ∧ name.head? ≠ some 47 := by
  constructor
  · intro h
    have hslash := h.head?_ne hname hport
    refine ⟨lt_of_le_of_ne ?_ (h.length_ne hname hslash hport), hslash⟩
    by_contra hlong
    obtain ⟨n, hover⟩ := parseBuffer_long (build.withMalloc build.malloc) start hname
      (not_le.mp hlong) hslash
    have htaken := h.bounded (not_le.mp hlong) build.malloc [] start rfl
    rw [hover] at htaken
    exact htaken
  · rintro ⟨hlt, hslash⟩
    refine ⟨fun hle malloc before p _ body footer hfooter => ?_,
      fun hlong => absurd hlong (Nat.lt_asymm hlt)⟩
    let sec := sectionNamed hname hslash hle body footer hfooter
    exact ⟨(sec.collected p.vars).request, createCalls_section sec p,
      createsNamed_section hname sec rfl hlt⟩

/-- **Names** are stored faithfully if they fit, and not otherwise. -/
theorem serverName_iff (build : Build L) (shared : Shared L) (serverIP : UInt32)
    (garbage : List UInt8) (hname : IsName name) (source : NameSource) :
    NameFaithful build (.start shared serverIP garbage) name source ↔ NameFits name source := by
  cases source with
  | header => exact headerFaithful_iff build hname rfl
  | command => exact commandFaithful_iff hname shared.balancer

end Both

theorem isName_web : IsName (ascii "web-1") :=
  ⟨by decide, List.all_iff_forall_prop.mp (by decide)⟩

/-- Names of the usual length are stored. -/
theorem serverName_web : IsName (ascii "web-1") ∧
    NameFaithful sampleBuild (.start sampleShared 0 []) (ascii "web-1") .header ∧
    NameFaithful sampleBuild (.start sampleShared 0 []) (ascii "web-1") .command := by
  have hstored := serverName_iff sampleBuild sampleShared 0 [] isName_web
  exact ⟨isName_web, (hstored .header).mpr (by decide), (hstored .command).mpr (by decide)⟩

/-- A name of 16 bytes. -/
def longName : List UInt8 := ascii "abcdefghijklmnop"

/-- The longest name is stored without the zero byte, either way. -/
theorem longest_unterminated : longName.length = 16 ∧
    ¬ NameFaithful sampleBuild (.start sampleShared 0 []) longName .header ∧
    ¬ NameFaithful sampleBuild (.start sampleShared 0 []) longName .command := by
  have hname : IsName longName := ⟨by decide, List.all_iff_forall_prop.mp (by decide)⟩
  refine ⟨by decide, fun h => ?_, fun h => ?_⟩
  · exact HeaderFaithful.length_ne hname (by decide) rfl h (by decide)
  · exact (commandFaithful_iff hname _).mp h (by decide)

end OctopusLB
