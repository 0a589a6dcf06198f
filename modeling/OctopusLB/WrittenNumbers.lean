/-
# Which numbers of the configuration file are stored as they are written

The lines of a file say which values are written for a setting: those of the
balancer anywhere, those of a server behind the header of its section, as
`openSection` tells.  The parser is followed line by line (`round_of_ok`,
`followed`): what it holds of a setting is what the last line for it stores.

`storedAsWritten_iff`: in a file that is accepted, every number is stored as it is
written and is in its range exactly if every value is a numeral and a number
that the tests cover, the last one fits its type, no default is written behind the
`maxc` of a server, and the members do not reach into the table of the clones.
-/
import OctopusLB.Creation
import OctopusLB.NumberSettings

namespace OctopusLB

open Balancer CString TextLines NumberSetting

variable {L : Type}

/-! ## What is written -/

/-- The start of a section. -/
def isHeader (l : List UInt8) : Bool := !isFooter l && (splitLine l).directive.any (hasPrefix "[")

/-- The lines behind the header of the section being read, if one is. -/
def openSection (lines : List (List UInt8)) : Option (List (List UInt8)) :=
  lines.foldl (fun own l =>
    if isFooter l then none else if isHeader l then some [] else own.map (· ++ [l])) none

/-- The same, none outside of the sections. -/
def ownLines (lines : List (List UInt8)) : List (List UInt8) := (openSection lines).getD []

namespace NumberSetting

/-- The value of a line for a setting. -/
def valueFor (x : NumberSetting) (l : List UInt8) : Option (List UInt8) :=
  if (splitLine l).directive.any (hasPrefix x.name) then (splitLine l).value else none

/-- The last value that lines have for a setting. -/
def lastValue (x : NumberSetting) (lines : List (List UInt8)) : Option (List UInt8) :=
  (lines.filterMap x.valueFor).getLast?

/-- A value is written for a setting, for one of a server in a section. -/
def Written (x : NumberSetting) (v : List UInt8) (lines : List (List UInt8)) : Prop :=
  ∃ before l after, lines = before ++ l :: after ∧
    (x.OfSection → (openSection before).isSome = true) ∧ x.valueFor l = some v

end NumberSetting

/-- The value of a line that sets the connections of the server being read. -/
def maxcValue (l : List UInt8) : Option (List UInt8) :=
  (maxc.valueFor l).or (NumberSetting.defaultMaxc.valueFor l)

/-- The last of these values. -/
def lastMaxc (lines : List (List UInt8)) : Option (List UInt8) :=
  (lines.filterMap maxcValue).getLast?

/-- What a part of the file says about servers: if a section is being read, if its
server is a clone, and how many servers of a kind the footers so far have created. -/
structure Outline where
  inSection : Bool
  clone : Bool
  members : ℕ
  clones : ℕ

namespace Outline

/-- The kind of the server being read. -/
def kind (o : Outline) : ServerKind := if o.clone then .clone else .member

/-- The servers of a kind. -/
def count (o : Outline) : ServerKind → ℕ
  | .member => o.members
  | .clone => o.clones

/-- One more server of the kind being read. -/
def close (o : Outline) : Outline where
  inSection := false
  clone := false
  members := o.members + if o.kind = .member then 1 else 0
  clones := o.clones + if o.kind = .clone then 1 else 0

end Outline

/-- The line makes the server being read a clone. -/
def saysClone (l : List UInt8) : Bool :=
  (splitLine l).directive.any (hasPrefix "clone") && (splitLine l).value.any (hasPrefix "true")

/-- One line more. -/
def Outline.line (o : Outline) (l : List UInt8) : Outline :=
  if isFooter l then o.close else if isHeader l then { o with inSection := true }
    else { o with clone := o.clone || (o.inSection && saysClone l) }

/-- The outline of a file. -/
def outline (lines : List (List UInt8)) : Outline := lines.foldl Outline.line ⟨false, false, 0, 0⟩

/-! ## What is expected -/

/-- The parser comes to a footer behind some lines, and goes from `p` to `r`. -/
def Closes [IntCast L] (build : Build L) (start : Parser L) (lines before : List (List UInt8))
    (p r : Parser L) : Prop :=
  ∃ footer after, lines = before ++ footer :: after ∧ isFooter footer = true ∧
    before.foldlM (parseBuffer build) start = .ok p ∧ parseBuffer build p footer = .ok r

/-- The server that the parser creates at a footer, as it is in some balancer. -/
def createdServer (p : Parser L) (b : Balancer L) : Server L :=
  b.table p.vars.request.1 (newIndex p.vars.request.1 p.shared.balancer)

/-- **Settings are stored as written**: every value that is written is a number in
the range; what the balancer has in the end is the last one, or what it had; a
server is created with the last ones of its section, and keeps them to the end. -/
structure StoredAsWritten [IntCast L] (build : Build L) (start : Parser L)
    (lines : List (List UInt8)) (q : Parser L) : Prop where
  inRange : ∀ (x : NumberSetting) v, x.Written v lines → ∃ n, x.spells v = some n ∧ x.InRange n
  last : ∀ x : NumberSetting, ¬ x.OfSection → ∀ v, x.lastValue lines = some v →
    x.spells v = some (x.number q)
  others : ∀ x : NumberSetting, ¬ x.OfSection → x.lastValue lines = none →
    x.number q = x.number start
  port : ∀ before p r, Closes build start lines before p r → ∀ v,
    port.lastValue (ownLines before) = some v →
      port.spells v = some (createdServer p r.shared.balancer).port
  maxc : ∀ before p r, Closes build start lines before p r → ∀ v,
    maxc.lastValue (ownLines before) = some v →
      maxc.spells v = some (createdServer p r.shared.balancer).maxc
  kept : ∀ before p r, Closes build start lines before p r →
    createdServer p q.shared.balancer = createdServer p r.shared.balancer

/-- Nothing but numerals is written, of numbers that the tests cover; the last
number for a setting of the balancer fits its type; the last line of a section
that sets the connections of its server has what its last `maxc` line has; and
there are no more members than their table has slots, or no clones. -/
structure WrittenProperly (lines : List (List UInt8)) : Prop where
  numeral : ∀ (x : NumberSetting) v, x.Written v lines → x.IsNumeral v
  tested : ∀ (x : NumberSetting) v, x.Written v lines → x.Tested (x.value v)
  fits : ∀ x : NumberSetting, ¬ x.OfSection → ∀ v, x.lastValue lines = some v →
    x.value v < x.limit
  maxc : ∀ before footer after, lines = before ++ footer :: after → isFooter footer = true →
    ∀ v u, maxc.lastValue (ownLines before) = some v → lastMaxc (ownLines before) = some u →
      toInt (numberValue u) = numberValue v
  room : (outline lines).members ≤ maxServers ∨ (outline lines).clones = 0

/-! ## One more line -/

section Lines

variable {x : NumberSetting} {v : List UInt8} {lines : List (List UInt8)} {l : List UInt8}

theorem openSection_concat (lines : List (List UInt8)) (l : List UInt8) :
    openSection (lines ++ [l]) = if isFooter l then none else if isHeader l then some []
      else (openSection lines).map (· ++ [l]) := by
  unfold openSection
  rw [List.foldl_append]
  rfl

theorem outline_concat (lines : List (List UInt8)) (l : List UInt8) :
    outline (lines ++ [l]) = (outline lines).line l := by
  unfold outline
  rw [List.foldl_append]
  rfl

/-- Both say if a section is being read. -/
theorem outline_inSection (lines : List (List UInt8)) :
    (outline lines).inSection = (openSection lines).isSome := by
  induction lines using List.reverseRecOn with
  | nil => rfl
  | append_singleton lines l ih =>
      rw [outline_concat, openSection_concat, Outline.line]
      split_ifs
      · rfl
      · rfl
      · rw [Option.isSome_map]
        exact ih

/-- A footer is one server more, of the kind being read. -/
theorem Outline.count_line (o : Outline) (l : List UInt8) (kind : ServerKind) :
    (o.line l).count kind =
      o.count kind + if isFooter l = true ∧ o.kind = kind then 1 else 0 := by
  unfold Outline.line
  by_cases hfooter : isFooter l = true
  · rw [if_pos hfooter]
    cases kind <;> simp [Outline.count, Outline.close, hfooter]
  · rw [if_neg hfooter]
    split_ifs <;> first | rfl | simp_all

theorem ownLines_of_bracket (h : isFooter l = true ∨ isHeader l = true) :
    ownLines (lines ++ [l]) = [] := by
  unfold ownLines
  rw [openSection_concat]
  rcases h with h | h
  · rw [if_pos h]
    rfl
  · rw [if_pos h]
    split_ifs <;> rfl

/-- In a section, another line is one of it. -/
theorem ownLines_concat (hfooter : isFooter l = false) (hheader : isHeader l = false) :
    ownLines (lines ++ [l]) = if (openSection lines).isSome then ownLines lines ++ [l] else [] := by
  unfold ownLines
  rw [openSection_concat, hfooter, hheader, if_neg (by decide), if_neg (by decide)]
  cases openSection lines <;> rfl

/-- The last value of some lines and another one. -/
theorem getLast?_filterMap_concat {α β : Type*} (f : α → Option β) (xs : List α) (a : α) :
    ((xs ++ [a]).filterMap f).getLast? = (f a).or (xs.filterMap f).getLast? := by
  rw [List.filterMap_append, List.getLast?_append]
  cases hf : f a <;> simp [hf]

theorem lastValue_concat (x : NumberSetting) (lines : List (List UInt8)) (l : List UInt8) :
    x.lastValue (lines ++ [l]) = (x.valueFor l).or (x.lastValue lines) :=
  getLast?_filterMap_concat _ _ _

theorem lastMaxc_concat (lines : List (List UInt8)) (l : List UInt8) :
    lastMaxc (lines ++ [l]) = (maxcValue l).or (lastMaxc lines) :=
  getLast?_filterMap_concat _ _ _

/-- What is written is written in the lines so far, or by the last one. -/
theorem written_concat (x : NumberSetting) (v : List UInt8) (lines : List (List UInt8))
    (l : List UInt8) : x.Written v (lines ++ [l]) ↔ x.Written v lines ∨
      ((x.OfSection → (openSection lines).isSome = true) ∧ x.valueFor l = some v) := by
  constructor
  · rintro ⟨before, m, after, heq, hsection, hvalue⟩
    rcases List.eq_nil_or_concat after with rfl | ⟨after, k, rfl⟩
    · obtain ⟨rfl, hm⟩ := List.append_inj' heq rfl
      obtain rfl := (List.singleton_inj.mp hm).symm
      exact Or.inr ⟨hsection, hvalue⟩
    · rw [List.concat_eq_append, ← List.cons_append, ← List.append_assoc] at heq
      obtain ⟨rfl, -⟩ := List.append_inj' heq rfl
      exact Or.inl ⟨before, m, after, rfl, hsection, hvalue⟩
  · rintro (⟨before, m, after, rfl, hsection, hvalue⟩ | ⟨hsection, hvalue⟩)
    · exact ⟨before, m, after ++ [l], by simp, hsection, hvalue⟩
    · exact ⟨lines, l, [], rfl, hsection, hvalue⟩

/-- What is written in a part of a file is written in the file. -/
theorem NumberSetting.Written.append (h : x.Written v lines) (more : List (List UInt8)) :
    x.Written v (lines ++ more) := by
  obtain ⟨before, m, after, rfl, hsection, hvalue⟩ := h
  exact ⟨before, m, after ++ more, by simp, hsection, hvalue⟩

/-- The lines of the section being read are of the file. -/
theorem written_of_mem_ownLines (hl : l ∈ ownLines lines) (hvalue : x.valueFor l = some v) :
    x.Written v lines := by
  induction lines using List.reverseRecOn with
  | nil => exact absurd hl List.not_mem_nil
  | append_singleton lines k ih =>
      cases hfooter : isFooter k with
      | true =>
          rw [ownLines_of_bracket (Or.inl hfooter)] at hl
          exact absurd hl List.not_mem_nil
      | false =>
          cases hheader : isHeader k with
          | true =>
              rw [ownLines_of_bracket (Or.inr hheader)] at hl
              exact absurd hl List.not_mem_nil
          | false =>
              rw [ownLines_concat hfooter hheader] at hl
              rw [written_concat]
              split_ifs at hl with hopen
              · rcases List.mem_append.mp hl with hl | hl
                · exact Or.inl (ih hl)
                · obtain rfl := List.mem_singleton.mp hl
                  exact Or.inr ⟨fun _ => hopen, hvalue⟩
              · exact absurd hl List.not_mem_nil

theorem written_of_lastValue (h : x.lastValue (ownLines lines) = some v) : x.Written v lines := by
  obtain ⟨l, hl, hvalue⟩ := List.mem_filterMap.mp (List.mem_of_getLast? h)
  exact written_of_mem_ownLines hl hvalue

theorem written_of_lastMaxc (h : lastMaxc (ownLines lines) = some v) :
    maxc.Written v lines ∨ NumberSetting.defaultMaxc.Written v lines := by
  obtain ⟨l, hl, hvalue⟩ := List.mem_filterMap.mp (List.mem_of_getLast? h)
  rcases Option.or_eq_some_iff.mp hvalue with hvalue | ⟨-, hvalue⟩
  · exact Or.inl (written_of_mem_ownLines hl hvalue)
  · exact Or.inr (written_of_mem_ownLines hl hvalue)

/-- A section with a `maxc` line has a line that sets the connections. -/
theorem exists_lastMaxc (h : maxc.lastValue lines = some v) : ∃ u, lastMaxc lines = some u := by
  obtain ⟨l, hl, hvalue⟩ := List.mem_filterMap.mp (List.mem_of_getLast? h)
  have hmem : v ∈ lines.filterMap maxcValue :=
    List.mem_filterMap.mpr ⟨l, hl, Option.or_eq_some_iff.mpr (Or.inl hvalue)⟩
  exact ⟨_, List.getLast?_eq_some_getLast (List.ne_nil_of_mem hmem)⟩

/-- Outside of the sections too, for the balancer. -/
theorem written_of_lastValue_balancer (hx : ¬ x.OfSection) (h : x.lastValue lines = some v) :
    x.Written v lines := by
  obtain ⟨l, hl, hvalue⟩ := List.mem_filterMap.mp (List.mem_of_getLast? h)
  obtain ⟨before, after, rfl⟩ := List.append_of_mem hl
  exact ⟨before, l, after, rfl, fun hsection => absurd hsection hx, hvalue⟩

end Lines

/-! ## One round of the parser -/

/-- What a line does that is not the start or the end of a section. -/
structure LineStep (directive : List UInt8) (value : Option (List UInt8)) (p q : Parser L) :
    Prop where
  inServerSection : q.inServerSection = p.inServerSection
  tables : SameTables p.shared.balancer q.shared.balancer
  live : p.vars.serverStatus ≠ .free → q.vars.serverStatus ≠ .free
  clone : q.vars.serverClone = (p.vars.serverClone ||
    (p.inServerSection && (hasPrefix "clone" directive && value.any (hasPrefix "true"))))
  stores : ∀ x : NumberSetting, (x.OfSection → p.inServerSection = true) →
    hasPrefix x.name directive = true → x.Stores value q
  others : ∀ x : NumberSetting,
    ¬ ((x.OfSection → p.inServerSection = true) ∧ hasPrefix x.name directive = true) →
      ¬ (x = .maxc ∧ hasPrefix "default_maxc" directive = true) → x.number q = x.number p
  default : hasPrefix "default_maxc" directive = true →
    NumberSetting.maxc.number q = NumberSetting.defaultMaxc.number q

/-- A line is not one for both. -/
theorem not_default_of_maxc {d : List UInt8} (h : hasPrefix "maxc" d = true) :
    ¬ hasPrefix "default_maxc" d = true := by
  intro hdefault
  rcases List.prefix_or_prefix_of_prefix (List.isPrefixOf_iff_prefix.mp h)
    (List.isPrefixOf_iff_prefix.mp hdefault) with hprefix | hprefix
  · exact absurd hprefix (by decide)
  · exact absurd hprefix (by decide)

theorem mem_section (build : Build L) {x : NumberSetting} (hx : x.OfSection) :
    x.directive ∈ ServerSection.directives build := by
  cases x with
  | port => exact List.mem_cons_self
  | maxc => exact List.mem_cons_of_mem _ List.mem_cons_self
  | _ => exact hx.elim

theorem mem_global (build : Build L) {x : NumberSetting} (hx : ¬ x.OfSection) :
    x.directive ∈ GlobalSection.directives build := by
  cases x with
  | port => exact absurd trivial hx
  | maxc => exact absurd trivial hx
  | _ => simp [GlobalSection.directives, NumberSetting.directive]

/-- **The first half** of a round. -/
theorem sectionPart_numbers {build : Build L} {directive : List UInt8} {value : Option (List UInt8)}
    {p r : Parser L} (h : sectionPart build directive value p = .ok r) :
    (r.shared = p.shared ∧ r.inServerSection = p.inServerSection ∧
        (p.vars.serverStatus ≠ .free → r.vars.serverStatus ≠ .free) ∧
        r.vars.serverClone = (p.vars.serverClone ||
          (p.inServerSection && (hasPrefix "clone" directive && value.any (hasPrefix "true"))))) ∧
      (∀ x : NumberSetting, x.OfSection → p.inServerSection = true →
        hasPrefix x.name directive = true → x.Stores value r) ∧
      ∀ x : NumberSetting, ¬ (x.OfSection ∧ p.inServerSection = true ∧
        hasPrefix x.name directive = true) → x.number r = x.number p := by
  unfold sectionPart at h
  split_ifs at h with hin
  · have hown := ownSetting_section build
    refine ⟨?_, fun x hx _ hname => ?_, fun x hno => ?_⟩
    · have hclone := clone_section h
      have hkept : r.shared = p.shared ∧ r.inServerSection = p.inServerSection ∧
          (p.vars.serverStatus ≠ .free → r.vars.serverStatus ≠ .free) := by
        refine Directive.runAll_keeps (P := fun s => s.shared = p.shared ∧
          s.inServerSection = p.inServerSection ∧
            (p.vars.serverStatus ≠ .free → s.vars.serverStatus ≠ .free)) ?_ h ⟨rfl, rfl, id⟩
        rintro d hd - v s t - happly ⟨hshared, hsection, hlive⟩
        have hd' := hown d hd v s t happly
        exact ⟨hd'.shared.trans hshared, hd'.inServerSection.trans hsection, hd'.live ∘ hlive⟩
      rw [hin, Bool.true_and]
      exact ⟨hkept.1, hkept.2.1.trans hin, hkept.2.2, hclone⟩
    · exact stores_runAll (mem_section build hx) hname
        (fun d hd v s t happly => (hown d hd v s t happly).number x) h
    · exact number_runAll (fun hc => hno ⟨hc.1, hin, hc.2⟩)
        (fun d hd v s t happly => (hown d hd v s t happly).number x) h
  · obtain rfl := Except.ok.inj h
    refine ⟨⟨rfl, rfl, id, ?_⟩, fun x _ hc => absurd hc hin, fun _ _ => rfl⟩
    rw [Bool.eq_false_of_not_eq_true hin, Bool.false_and, Bool.or_false]

/-- **The second half** on a global directive. -/
theorem globalChain_numbers {build : Build L} {n : ℕ} {directive : List UInt8}
    {value : Option (List UInt8)} {r q : Parser L}
    (h : Directive.runAll (GlobalSection.directives build) n directive value r = .ok q) :
    (q.vars.serverStatus = r.vars.serverStatus ∧ q.vars.serverClone = r.vars.serverClone) ∧
      (∀ x : NumberSetting, ¬ x.OfSection → hasPrefix x.name directive = true →
        x.Stores value q) ∧
      (∀ x : NumberSetting, ¬ (¬ x.OfSection ∧ hasPrefix x.name directive = true) →
        ¬ (x = .maxc ∧ hasPrefix "default_maxc" directive = true) → x.number q = x.number r) ∧
      (hasPrefix "default_maxc" directive = true →
        NumberSetting.maxc.number q = NumberSetting.defaultMaxc.number q) := by
  have hown := ownNumber_global build
  -- a setting other than the connections of a server is changed by its own directive only
  have hown' : ∀ x : NumberSetting, x ≠ .maxc → ∀ d ∈ GlobalSection.directives build,
      ∀ v p q, d.apply v p = .ok q →
        (¬ x.OfSection ∧ d = x.directive) ∨ x.number q = x.number p := by
    intro x hx d hd v s t happly
    rcases (hown d hd v s t happly).number x with hc | ⟨-, hc⟩ | hsame
    · exact Or.inl hc
    · exact absurd hc hx
    · exact Or.inr hsame
  refine ⟨?_, fun x hx hname => ?_, fun x hno hnodefault => ?_, fun hdefault => ?_⟩
  · refine Directive.runAll_keeps (P := fun s => s.vars.serverStatus = r.vars.serverStatus ∧
      s.vars.serverClone = r.vars.serverClone) ?_ h ⟨rfl, rfl⟩
    rintro d hd - v s t - happly ⟨hstatus, hclone⟩
    have hd' := hown d hd v s t happly
    exact ⟨hd'.status.trans hstatus, hd'.clone.trans hclone⟩
  · exact stores_runAll (mem_global build hx) hname
      (hown' x fun heq => hx (heq ▸ trivial)) h
  · by_cases hmaxc : x = .maxc
    · refine Directive.runAll_keeps (P := fun s => x.number s = x.number r) ?_ h rfl
      intro d hd hname v s t _ happly hs
      rcases (hown d hd v s t happly).number x with ⟨hx, -⟩ | ⟨rfl, -⟩ | hsame
      · exact absurd (hmaxc ▸ trivial) hx
      · exact absurd ⟨hmaxc, hname⟩ hnodefault
      · exact hsame.trans hs
    · exact number_runAll hno (hown' x hmaxc) h
  · have hsets : ∀ v (s t : Parser L),
        (NumberSetting.defaultMaxc.directive (L := L)).apply v s = .ok t →
          NumberSetting.maxc.number t = NumberSetting.defaultMaxc.number t := by
      intro v s t happly
      obtain ⟨-, e, rfl⟩ := defaultMaxc_apply happly
      rfl
    refine Directive.runAll_sets (P := fun s => NumberSetting.maxc.number s =
      NumberSetting.defaultMaxc.number s) (mem_global build (x := .defaultMaxc) id) hdefault
      (fun v s t _ happly => hsets v s t happly) ?_ h
    intro d hd _ v s t _ happly hs
    have hd' := hown d hd v s t happly
    rcases hd'.number .defaultMaxc with ⟨-, rfl⟩ | ⟨-, hc⟩ | hsame
    · exact hsets v s t happly
    · cases hc
    · rcases hd'.number .maxc with ⟨hx, -⟩ | ⟨rfl, -⟩ | hsame'
      · exact absurd trivial hx
      · exact hsets v s t happly
      · exact hsame'.trans (hs.trans hsame.symm)

section Rounds

variable [IntCast L] {build : Build L} {l : List UInt8} {p q : Parser L}

/-- A round ends with an error if the line has no directive. -/
theorem directive_of_ok (h : parseBuffer build p l = .ok q) :
    ∃ directive, (splitLine l).directive = some directive := by
  unfold parseBuffer parseLine at h
  cases hsplit : (splitLine l).directive with
  | none =>
      rw [hsplit] at h
      cases h
  | some directive => exact ⟨directive, rfl⟩

/-- **A line** that is neither the start nor the end of a section. -/
theorem lineStep_plain (hfooter : isFooter l = false) (hheader : isHeader l = false)
    (h : parseBuffer build p l = .ok q) : ∃ directive,
      (splitLine l).directive = some directive ∧
        LineStep directive (splitLine l).value p q := by
  obtain ⟨directive, hsplit⟩ := directive_of_ok h
  refine ⟨directive, hsplit, ?_⟩
  unfold isHeader at hheader
  rw [hfooter] at hheader
  unfold isFooter at hfooter
  rw [hsplit] at hfooter hheader
  have hend : hasPrefix "[/" directive = false := hfooter
  have hstart : hasPrefix "[" directive = false := hheader
  unfold parseBuffer parseLine at h
  rw [hsplit] at h
  dsimp only at h
  cases hr : sectionPart build directive (splitLine l).value
      { p with lineCounter := p.lineCounter + 1 } with
  | error e =>
      rw [hr] at h
      cases h
  | ok r =>
      rw [hr] at h
      have hglobal : globalPart build directive (splitLine l).value r = .ok q := h
      unfold globalPart at hglobal
      rw [hend, hstart, if_neg (by decide), if_neg (by decide)] at hglobal
      obtain ⟨⟨hshared, hsection, hlive, hclone⟩, hstores, hothers⟩ := sectionPart_numbers hr
      obtain ⟨⟨hstatus, hkind⟩, hstores', hothers', hdefault⟩ := globalChain_numbers hglobal
      have hkept := kept_runAll (keeps_globalDirectives build) hglobal
      have hcount : ∀ x : NumberSetting,
          x.number { p with lineCounter := p.lineCounter + 1 } = x.number p := by
        intro x
        cases x <;> rfl
      refine ⟨hkept.1.trans hsection, ?_, ?_, hkind.trans hclone, fun x hx hname => ?_,
        fun x hno hnodefault => ?_, hdefault⟩
      · rw [← show r.shared = p.shared from hshared]
        exact hkept.2.1
      · rw [hstatus]
        exact hlive
      · by_cases hof : x.OfSection
        · obtain ⟨v, hv, haccepts, hnumber⟩ := hstores x hof (hx hof) hname
          refine ⟨v, hv, haccepts, (hothers' x (fun hc => hc.1 hof) ?_).trans hnumber⟩
          rintro ⟨rfl, hc⟩
          exact not_default_of_maxc hname hc
        · exact hstores' x hof hname
      · refine (hothers' x (fun hc => ?_) hnodefault).trans ?_
        · exact hno ⟨fun hof => absurd hof hc.1, hc.2⟩
        · refine (hothers x fun hc => ?_).trans (hcount x)
          exact hno ⟨fun _ => hc.2.1, hc.2.2⟩

/-- **The start of a section** changes the name only. -/
theorem header_step (hheader : isHeader l = true) (h : parseBuffer build p l = .ok q) :
    q.inServerSection = true ∧ q.shared = p.shared ∧
      q.vars.serverStatus = p.vars.serverStatus ∧ q.vars.serverClone = p.vars.serverClone := by
  obtain ⟨directive, hsplit⟩ := directive_of_ok h
  unfold isHeader isFooter at hheader
  rw [hsplit, Bool.and_eq_true, Bool.not_eq_true'] at hheader
  have hend : hasPrefix "[/" directive = false := hheader.1
  have hstart : hasPrefix "[" directive = true := hheader.2
  rw [parseBuffer_bracket hsplit hstart] at h
  unfold globalPart at h
  rw [hend, if_neg (by decide), if_pos hstart] at h
  unfold startSection at h
  split_ifs at h
  obtain rfl := Except.ok.inj h
  exact ⟨rfl, rfl, rfl, rfl⟩

/-- **The end of a section** creates the server and resets the variables. -/
theorem footer_step (hfooter : isFooter l = true) (h : parseBuffer build p l = .ok q) :
    q.inServerSection = false ∧ (q.vars.serverStatus = .enabled ∧ q.vars.serverClone = false) ∧
      Creates p.vars.request.1 p.vars.request.2 p.shared.balancer q.shared.balancer ∧
      ∀ x : NumberSetting, ¬ x.OfSection → x.number q = x.number p := by
  obtain ⟨directive, hsplit⟩ := directive_of_ok h
  unfold isFooter at hfooter
  rw [hsplit] at hfooter
  have hend : hasPrefix "[/" directive = true := hfooter
  rw [parseBuffer_bracket hsplit (bracket_of_end hend)] at h
  unfold globalPart at h
  rw [if_pos hend] at h
  obtain ⟨hvalid, -, shared, errno, rfl, rfl⟩ := endSection_ok h
  refine ⟨rfl, ⟨rfl, rfl⟩, ?_, fun x hx => ?_⟩
  · rcases createBalancerServer_cases true p.vars.request.1 p.vars.request.2
      p.shared.balancer with ⟨hno, -⟩ | ⟨-, -, hcreates⟩
    · exact absurd ⟨rfl, hvalid.2⟩ hno
    · exact hcreates
  · cases x with
    | port => exact absurd trivial hx
    | maxc => exact absurd trivial hx
    | defaultMaxc =>
        have hfields := create_otherFields true p.vars.request.1 p.vars.request.2
          p.shared.balancer
        have hsame := congrArg Balancer.defaultMaxc hfields
        exact hsame
    | _ => rfl

/-- What a round can be. -/
inductive Round (l : List UInt8) (p q : Parser L) : Prop
  | footer (h : isFooter l = true) (hsection : q.inServerSection = false)
      (hstatus : q.vars.serverStatus = .enabled) (hclone : q.vars.serverClone = false)
      (hcreates : Creates p.vars.request.1 p.vars.request.2 p.shared.balancer q.shared.balancer)
      (hnumber : ∀ x : NumberSetting, ¬ x.OfSection → x.number q = x.number p)
  | header (hfooter : isFooter l = false) (h : isHeader l = true)
      (hsection : q.inServerSection = true) (hshared : q.shared = p.shared)
      (hstatus : q.vars.serverStatus = p.vars.serverStatus)
      (hclone : q.vars.serverClone = p.vars.serverClone)
  | plain (hfooter : isFooter l = false) (hheader : isHeader l = false)
      (directive : List UInt8) (hsplit : (splitLine l).directive = some directive)
      (hstep : LineStep directive (splitLine l).value p q)

/-- **A round** is one of these, if the line is accepted. -/
theorem round_of_ok (h : parseBuffer build p l = .ok q) : Round l p q := by
  cases hfooter : isFooter l with
  | true =>
      obtain ⟨hsection, ⟨hstatus, hclone⟩, hcreates, hnumber⟩ := footer_step hfooter h
      exact .footer hfooter hsection hstatus hclone hcreates hnumber
  | false =>
      cases hheader : isHeader l with
      | true =>
          obtain ⟨hsection, hshared, hstatus, hclone⟩ := header_step hheader h
          exact .header hfooter hheader hsection hshared hstatus hclone
      | false =>
          obtain ⟨directive, hsplit, hstep⟩ := lineStep_plain hfooter hheader h
          exact .plain hfooter hheader directive hsplit hstep

end Rounds

/-! ## The whole file -/

/-- What the parser holds after some lines. -/
structure Followed (start : Parser L) (lines : List (List UInt8)) (p : Parser L) : Prop where
  inServerSection : p.inServerSection = (openSection lines).isSome
  live : p.vars.serverStatus ≠ .free
  clone : p.vars.serverClone = (outline lines).clone
  accepted : ∀ (x : NumberSetting) v, x.Written v lines → x.Accepts v
  last : ∀ x : NumberSetting, ¬ x.OfSection →
    x.number p = ((x.lastValue lines).map x.convert).getD (x.number start)
  port : ∀ v, port.lastValue (ownLines lines) = some v → port.number p = port.convert v
  maxc : ∀ u, lastMaxc (ownLines lines) = some u →
    NumberSetting.maxc.number p = NumberSetting.maxc.convert u

section Run

variable {start : Parser L} {lines : List (List UInt8)} {l : List UInt8} {p q : Parser L}

theorem valueFor_of_split {directive : List UInt8}
    (hsplit : (splitLine l).directive = some directive) (x : NumberSetting) :
    x.valueFor l = if hasPrefix x.name directive = true then (splitLine l).value else none := by
  unfold NumberSetting.valueFor
  rw [hsplit]
  rfl

/-- The start and the end of a section have no value for a setting. -/
theorem valueFor_of_bracket (h : isFooter l = true ∨ isHeader l = true) (x : NumberSetting) :
    x.valueFor l = none := by
  have hbracket : (splitLine l).directive.any (hasPrefix "[") = true := by
    rcases h with h | h
    · obtain ⟨directive, hsplit, hend⟩ := (Option.any_eq_true _ _).mp h
      rw [hsplit]
      exact bracket_of_end hend
    · exact (Bool.and_eq_true_iff.mp h).2
  obtain ⟨directive, hsplit, hstart⟩ := (Option.any_eq_true _ _).mp hbracket
  rw [valueFor_of_split hsplit]
  refine if_neg fun hname => ?_
  rcases List.prefix_or_prefix_of_prefix (List.isPrefixOf_iff_prefix.mp hstart)
    (List.isPrefixOf_iff_prefix.mp hname) with hprefix | hprefix
  · cases x <;> exact absurd hprefix (by decide)
  · cases x <;> exact absurd hprefix (by decide)

/-- Such a line keeps what is known of the balancer. -/
theorem Followed.bracket (hp : Followed start lines p)
    (h : isFooter l = true ∨ isHeader l = true)
    (hsection : q.inServerSection = (openSection (lines ++ [l])).isSome)
    (hlive : q.vars.serverStatus ≠ .free)
    (hclone : q.vars.serverClone = (outline (lines ++ [l])).clone)
    (hnumber : ∀ x : NumberSetting, ¬ x.OfSection → x.number q = x.number p) :
    Followed start (lines ++ [l]) q := by
  have hvalue := valueFor_of_bracket h
  refine ⟨hsection, hlive, hclone, fun x v hw => ?_, fun x hx => ?_, fun v hv => ?_, fun u hu => ?_⟩
  · rcases (written_concat x v lines l).mp hw with hw | ⟨-, hl⟩
    · exact hp.accepted x v hw
    · rw [hvalue x] at hl
      cases hl
  · rw [hnumber x hx, hp.last x hx, lastValue_concat, hvalue x, Option.none_or]
  · rw [ownLines_of_bracket h] at hv
    cases hv
  · rw [ownLines_of_bracket h] at hu
    cases hu

/-- A line for a setting, as the parser sees it. -/
theorem lineStep_value {directive : List UInt8}
    (hsplit : (splitLine l).directive = some directive)
    (hstep : LineStep directive (splitLine l).value p q) (x : NumberSetting)
    (hx : x.OfSection → p.inServerSection = true) :
    (∃ v, x.valueFor l = some v ∧ x.Accepts v ∧ x.number q = x.convert v) ∨
      x.valueFor l = none ∧
        (¬ (x = .maxc ∧ hasPrefix "default_maxc" directive = true) → x.number q = x.number p) := by
  rw [valueFor_of_split hsplit]
  split_ifs with hname
  · exact Or.inl (hstep.stores x hx hname)
  · exact Or.inr ⟨rfl, hstep.others x fun hc => hname hc.2⟩

/-- The port of the server being read, after a plain line. -/
theorem Followed.plain_port (hp : Followed start lines p) (hfooter : isFooter l = false)
    (hheader : isHeader l = false) {directive : List UInt8}
    (hsplit : (splitLine l).directive = some directive)
    (hstep : LineStep directive (splitLine l).value p q) {v : List UInt8}
    (hv : NumberSetting.port.lastValue (ownLines (lines ++ [l])) = some v) :
    NumberSetting.port.number q = NumberSetting.port.convert v := by
  rw [ownLines_concat hfooter hheader] at hv
  split_ifs at hv with hin
  · rw [lastValue_concat] at hv
    rcases lineStep_value hsplit hstep .port (fun _ => hp.inServerSection.trans hin) with
      ⟨w, hw, -, hnumber⟩ | ⟨hnone, hsame⟩
    · rw [hw] at hv
      obtain rfl := Option.some.inj hv
      exact hnumber
    · rw [hnone, Option.none_or] at hv
      exact (hsame nofun).trans (hp.port v hv)
  · cases hv

/-- The connections of the server being read, after a plain line. -/
theorem Followed.plain_maxc (hp : Followed start lines p) (hfooter : isFooter l = false)
    (hheader : isHeader l = false) {directive : List UInt8}
    (hsplit : (splitLine l).directive = some directive)
    (hstep : LineStep directive (splitLine l).value p q) {u : List UInt8}
    (hu : lastMaxc (ownLines (lines ++ [l])) = some u) :
    NumberSetting.maxc.number q = NumberSetting.maxc.convert u := by
  rw [ownLines_concat hfooter hheader] at hu
  split_ifs at hu with hin
  · rw [lastMaxc_concat] at hu
    unfold maxcValue at hu
    rcases lineStep_value hsplit hstep .maxc (fun _ => hp.inServerSection.trans hin) with
      ⟨w, hw, -, hnumber⟩ | ⟨hnone, hsame⟩
    · rw [hw] at hu
      obtain rfl := Option.some.inj hu
      exact hnumber
    · have hdefaultValue : NumberSetting.defaultMaxc.valueFor l =
          if hasPrefix "default_maxc" directive = true then (splitLine l).value else none :=
        valueFor_of_split hsplit _
      rw [hnone, Option.none_or, hdefaultValue] at hu
      by_cases hdefault : hasPrefix "default_maxc" directive = true
      · -- the default is stored for the section too
        obtain ⟨w, hw, -, hnumber⟩ := hstep.stores .defaultMaxc nofun hdefault
        rw [if_pos hdefault, hw] at hu
        obtain rfl := Option.some.inj hu
        exact (hstep.default hdefault).trans hnumber
      · rw [if_neg hdefault, Option.none_or] at hu
        exact (hsame fun hc => hdefault hc.2).trans (hp.maxc u hu)
  · cases hu

/-- **A plain line** stores what it has. -/
theorem Followed.plain (hp : Followed start lines p) (hfooter : isFooter l = false)
    (hheader : isHeader l = false) {directive : List UInt8}
    (hsplit : (splitLine l).directive = some directive)
    (hstep : LineStep directive (splitLine l).value p q) : Followed start (lines ++ [l]) q := by
  have hopen : (openSection (lines ++ [l])).isSome = (openSection lines).isSome := by
    rw [openSection_concat, hfooter, hheader, if_neg (by decide), if_neg (by decide),
      Option.isSome_map]
  have hvalue := lineStep_value hsplit hstep
  have hclone : q.vars.serverClone = (outline (lines ++ [l])).clone := by
    rw [hstep.clone, hp.clone, hp.inServerSection, ← outline_inSection, outline_concat,
      Outline.line, hfooter, hheader, if_neg (by decide), if_neg (by decide)]
    unfold saysClone
    rw [hsplit]
    rfl
  refine ⟨hstep.inServerSection.trans (hp.inServerSection.trans hopen.symm), hstep.live hp.live,
    hclone, fun x v hw => ?_, fun x hx => ?_,
    fun v hv => hp.plain_port hfooter hheader hsplit hstep hv,
    fun u hu => hp.plain_maxc hfooter hheader hsplit hstep hu⟩
  · rcases (written_concat x v lines l).mp hw with hw | ⟨hsection, hl⟩
    · exact hp.accepted x v hw
    · rcases hvalue x (fun hx => hp.inServerSection.trans (hsection hx)) with
        ⟨w, hw, haccepts, -⟩ | ⟨hnone, -⟩
      · obtain rfl := Option.some.inj (hl.symm.trans hw)
        exact haccepts
      · exact absurd (hl.symm.trans hnone) nofun
  · rw [lastValue_concat]
    rcases hvalue x (fun hc => absurd hc hx) with ⟨w, hw, -, hnumber⟩ | ⟨hnone, hsame⟩
    · rw [hw, hnumber]
      rfl
    · rw [hnone, Option.none_or, ← hp.last x hx]
      exact hsame fun hc => hx (hc.1 ▸ trivial)

/-- The connections of the server being read, which have passed the test of
`errno`. -/
theorem Followed.number_maxc (hp : Followed start lines p) {u : List UInt8}
    (hu : lastMaxc (ownLines lines) = some u) :
    NumberSetting.maxc.number p = toInt (numberValue u) := by
  have hrange : -2 ^ 63 ≤ numberValue u ∧ numberValue u < 2 ^ 63 := by
    rcases written_of_lastMaxc hu with hw | hw
    · exact (hp.accepted _ u hw).range (Or.inr (Or.inl rfl))
    · exact (hp.accepted _ u hw).range (Or.inr (Or.inr rfl))
  rw [hp.maxc u hu]
  exact congrArg toInt (clamp_of_range hrange)

variable [IntCast L] {build : Build L}

/-- **The parser** holds what the lines so far have. -/
theorem followed (hstart : Between start)
    (h : lines.foldlM (parseBuffer build) start = .ok p) : Followed start lines p := by
  induction lines using List.reverseRecOn generalizing p with
  | nil =>
      obtain rfl := Except.ok.inj h
      refine ⟨hstart.1, ?_, by rw [hstart.2]; rfl, ?_, fun _ _ => rfl, nofun, nofun⟩
      · rw [hstart.2]
        show ServerStatus.enabled ≠ .free
        decide
      · rintro x v ⟨before, l, after, heq, -⟩
        exact absurd heq (by simp)
  | append_singleton lines l ih =>
      obtain ⟨r, hlines, hround⟩ := Machine.foldlM_concat_eq_ok.mp h
      have hr := ih hlines
      cases round_of_ok hround with
      | footer hfooter hsection hstatus hkind _ hnumber =>
          refine hr.bracket (Or.inl hfooter) ?_ (by rw [hstatus]; decide) ?_ hnumber
          · rw [hsection, openSection_concat, if_pos hfooter]
            rfl
          · rw [hkind, outline_concat, Outline.line, if_pos hfooter]
            rfl
      | header hfooter hheader hsection hshared hstatus hkind =>
          refine hr.bracket (Or.inr hheader) ?_ (hstatus ▸ hr.live) ?_ fun x hx => ?_
          · rw [hsection, openSection_concat, hfooter, hheader, if_neg (by decide), if_pos rfl]
            rfl
          · rw [hkind, hr.clone, outline_concat, Outline.line, hfooter, hheader,
              if_neg (by decide), if_pos rfl]
          · unfold NumberSetting.number
            rw [hshared]
            cases x with
            | port => exact absurd trivial hx
            | maxc => exact absurd trivial hx
            | _ => rfl
      | plain hfooter hheader _ hsplit hstep => exact hr.plain hfooter hheader hsplit hstep

/-- **The tables** in one round: a footer fills the next slot of its table, and
every other server stays, as long as the tables are apart. -/
theorem Round.tables (h : Round l p q) (hfilled : Filled p.shared.balancer)
    (hlive : p.vars.serverStatus ≠ .free) : Filled q.shared.balancer ∧
      (∀ kind, q.shared.balancer.count kind = p.shared.balancer.count kind +
        if isFooter l = true ∧ p.vars.request.1 = kind then 1 else 0) ∧
      (Apart q.shared.balancer → ∀ kind, ∀ i < p.shared.balancer.count kind,
        q.shared.balancer.table kind i = p.shared.balancer.table kind i) := by
  cases h with
  | footer hfooter _ _ _ hcreates _ =>
      refine ⟨hfilled.of_creates hcreates hlive, fun kind => ?_,
        fun hapart kind i hi => hfilled.kept hcreates hapart hi⟩
      rw [(hfilled.creates hcreates).2 kind]
      simp only [hfooter, true_and]
  | header hfooter _ _ hshared _ _ =>
      rw [hshared]
      exact ⟨hfilled, fun kind => by simp [hfooter], fun _ _ _ _ => rfl⟩
  | plain hfooter _ _ _ hstep =>
      refine ⟨hfilled.of_sameTables hstep.tables, fun kind => ?_,
        fun _ kind i _ => hstep.tables.table kind i⟩
      rw [hstep.tables.count kind]
      simp [hfooter]

/-- The tables have the servers of some lines, one behind the other. -/
structure Tabled (lines : List (List UInt8)) (b : Balancer L) : Prop where
  filled : Filled b
  count : ∀ kind, b.count kind = (outline lines).count kind

omit [IntCast L] in
/-- The kind of the server being read. -/
theorem Followed.kind (hp : Followed start lines p) : p.vars.request.1 = (outline lines).kind := by
  show (if p.vars.serverClone then ServerKind.clone else .member) = _
  rw [hp.clone]
  rfl

/-- **The parser** fills the tables. -/
theorem tabled (hstart : Between start)
    (hempty : ∀ kind, start.shared.balancer.count kind = 0)
    (h : lines.foldlM (parseBuffer build) start = .ok p) : Tabled lines p.shared.balancer := by
  induction lines using List.reverseRecOn generalizing p with
  | nil =>
      obtain rfl := Except.ok.inj h
      refine ⟨filled_of_empty hempty, fun kind => ?_⟩
      rw [hempty]
      cases kind <;> rfl
  | append_singleton lines l ih =>
      obtain ⟨r, hlines, hround⟩ := Machine.foldlM_concat_eq_ok.mp h
      have hr := followed hstart hlines
      obtain ⟨hfilled, hcount, -⟩ := (round_of_ok hround).tables (ih hlines).filled hr.live
      refine ⟨hfilled, fun kind => ?_⟩
      rw [hcount, (ih hlines).count, hr.kind, outline_concat, Outline.count_line]

/-- **A server stays** to the end of the file. -/
theorem Tabled.kept (hstart : Between start)
    (hempty : ∀ kind, start.shared.balancer.count kind = 0)
    (hlines : lines.foldlM (parseBuffer build) start = .ok p) {more : List (List UInt8)}
    (hmore : more.foldlM (parseBuffer build) p = .ok q) (hapart : Apart q.shared.balancer)
    {kind : ServerKind} {i : ℕ} (hi : i < p.shared.balancer.count kind) :
    i < q.shared.balancer.count kind ∧
      q.shared.balancer.table kind i = p.shared.balancer.table kind i := by
  induction more using List.reverseRecOn generalizing q with
  | nil =>
      obtain rfl := Except.ok.inj hmore
      exact ⟨hi, rfl⟩
  | append_singleton more l ih =>
      obtain ⟨r, hmore', hround⟩ := Machine.foldlM_concat_eq_ok.mp hmore
      have hread : (lines ++ more).foldlM (parseBuffer build) start = .ok r :=
        Machine.foldlM_append_eq_ok.mpr ⟨p, hlines, hmore'⟩
      obtain ⟨-, hcount, hkept⟩ := (round_of_ok hround).tables
        (tabled hstart hempty hread).filled (followed hstart hread).live
      have hle : ∀ kind, r.shared.balancer.count kind ≤ q.shared.balancer.count kind := by
        intro kind
        rw [hcount]
        exact Nat.le_add_right _ _
      obtain ⟨hlt, htable⟩ := ih hmore' (hapart.of_le hle)
      exact ⟨hlt.trans_le (hle kind), (hkept hapart kind i hlt).trans htable⟩

/-! ## Accepted files -/

/-- A file that is accepted is read up to every footer, and from it to the end. -/
theorem closes_of_split (h : lines.foldlM (OctopusLB.parseBuffer build) start = .ok q)
    {before : List (List UInt8)} {footer : List UInt8} {after : List (List UInt8)}
    (hlines : lines = before ++ footer :: after) (hfooter : isFooter footer = true) :
    ∃ p r, Closes build start lines before p r := by
  rw [hlines] at h
  obtain ⟨p, hbefore, hrest⟩ := Machine.foldlM_append_eq_ok.mp h
  obtain ⟨r, hround, -⟩ := Machine.foldlM_cons_eq_ok.mp hrest
  exact ⟨p, r, footer, after, hlines, hfooter, hbefore, hround⟩

/-- The server has the numbers of the variables, and the id of its slot. -/
theorem Closes.created {before : List (List UInt8)} {r : Parser L}
    (h : Closes build start lines before p r) :
    ((createdServer p r.shared.balancer).port = NumberSetting.port.number p ∧
      (createdServer p r.shared.balancer).maxc = NumberSetting.maxc.number p) ∧
      (createdServer p r.shared.balancer).id =
        newIndex p.vars.request.1 p.shared.balancer := by
  obtain ⟨footer, after, -, hfooter, -, hround⟩ := h
  obtain ⟨-, -, hcreates, -⟩ := footer_step hfooter hround
  unfold createdServer
  rw [hcreates.written]
  exact ⟨⟨rfl, rfl⟩, rfl⟩

theorem Closes.append {before : List (List UInt8)} {r : Parser L}
    (h : Closes build start lines before p r) (more : List (List UInt8)) :
    Closes build start (lines ++ more) before p r := by
  obtain ⟨footer, after, rfl, hfooter, hbefore, hround⟩ := h
  exact ⟨footer, after ++ more, by simp, hfooter, hbefore, hround⟩

section Empty

variable (hstart : Between start) (hempty : ∀ kind, start.shared.balancer.count kind = 0)
include hstart hempty

/-- Every server of a table has been created at a footer. -/
theorem exists_closes (h : lines.foldlM (OctopusLB.parseBuffer build) start = .ok q)
    {kind : ServerKind} {k : ℕ} (hk : k < (outline lines).count kind) :
    ∃ before p r, Closes build start lines before p r ∧ p.vars.request.1 = kind ∧
      newIndex kind p.shared.balancer = k := by
  induction lines using List.reverseRecOn generalizing q with
  | nil => cases kind <;> exact absurd hk (Nat.not_lt_zero k)
  | append_singleton lines l ih =>
      obtain ⟨r, hlines, hround⟩ := Machine.foldlM_concat_eq_ok.mp h
      rw [outline_concat, Outline.count_line] at hk
      by_cases hbefore : k < (outline lines).count kind
      · obtain ⟨before, p', r', hcloses, hkind, hindex⟩ := ih hlines hbefore
        exact ⟨before, p', r', hcloses.append [l], hkind, hindex⟩
      · -- it is the one of this line
        have htabled := tabled hstart hempty hlines
        split_ifs at hk with hfooter
        · refine ⟨lines, r, q, ⟨l, [], rfl, hfooter.1, hlines, hround⟩, ?_, ?_⟩
          · rw [(followed hstart hlines).kind]
            exact hfooter.2
          · rw [htabled.filled.newIndex_eq, htabled.count]
            omega
        · exact absurd hk hbefore

/-- **Servers are kept** exactly if the tables are apart in the end. -/
theorem closes_kept_iff (haccepted : lines.foldlM (OctopusLB.parseBuffer build) start = .ok q) :
    (∀ before p r, Closes build start lines before p r →
        createdServer p q.shared.balancer = createdServer p r.shared.balancer) ↔
      (outline lines).members ≤ maxServers ∨ (outline lines).clones = 0 := by
  have hcount := (tabled hstart hempty haccepted).count
  have hiff : Apart q.shared.balancer ↔
      (outline lines).members ≤ maxServers ∨ (outline lines).clones = 0 := by
    rw [Apart, hcount, hcount]
    rfl
  rw [← hiff]
  constructor
  · intro hkept
    refine apart_of_ids fun kind k hk => ?_
    rw [hcount] at hk
    obtain ⟨before, p, r, hcloses, rfl, rfl⟩ := exists_closes hstart hempty haccepted hk
    exact (congrArg Server.id (hkept before p r hcloses)).trans hcloses.created.2
  · rintro hends before p r ⟨footer, after, rfl, hfooter, hbefore, hround⟩
    obtain ⟨p', hbefore', hfrom⟩ := Machine.foldlM_append_eq_ok.mp haccepted
    obtain rfl := Except.ok.inj (hbefore.symm.trans hbefore')
    obtain ⟨r', hround', hrest⟩ := Machine.foldlM_cons_eq_ok.mp hfrom
    obtain rfl := Except.ok.inj (hround.symm.trans hround')
    have hread : (before ++ [footer]).foldlM (OctopusLB.parseBuffer build) start = .ok r :=
      Machine.foldlM_concat_eq_ok.mpr ⟨p, hbefore, hround⟩
    have hcreates := (footer_step hfooter hround).2.2.1
    refine (Tabled.kept hstart hempty hread hrest hends ?_).2
    have hlonger := hcreates.count
    omega

end Empty

end Run

/-- **Numbers of the configuration file.**  In a file that is accepted they are
stored as written, and in range, exactly if they are written properly; the tables
are empty at the start. -/
theorem storedAsWritten_iff [IntCast L] (build : Build L) {file : List UInt8} {shared : Shared L}
    (hempty : ∀ kind, shared.balancer.count kind = 0) {serverIP : UInt32}
    {serverName : List UInt8} {q : Parser L}
    (haccepted : parseConfigFile build file (.start shared serverIP serverName) = .ok q) :
    StoredAsWritten build (.start shared serverIP serverName) (buffers configRoom file) q ↔
      WrittenProperly (buffers configRoom file) := by
  unfold parseConfigFile at haccepted
  have hstart := between_start shared serverIP serverName
  have hfollowed := fun {before p} => @followed L (.start shared serverIP serverName) before p _
    build hstart
  have hend := hfollowed haccepted
  have hkept := closes_kept_iff hstart hempty haccepted
  constructor
  · intro h
    have hspelled : ∀ (x : NumberSetting) v, x.Written v (buffers configRoom file) →
        x.IsNumeral v ∧ x.InRange (x.value v) := by
      intro x v hw
      obtain ⟨n, hn, hrange⟩ := h.inRange x v hw
      obtain ⟨hnumeral, rfl⟩ := spells_eq_some_iff.mp hn
      exact ⟨hnumeral, hrange⟩
    refine ⟨fun x v hw => (hspelled x v hw).1, fun x v hw => ?_, fun x hx v hv => ?_, ?_,
      hkept.mp h.kept⟩
    · exact (inRange_iff (hend.accepted x v hw)).mp (hspelled x v hw).2
    · have hw := written_of_lastValue_balancer hx hv
      have hnumber := hend.last x hx
      rw [hv] at hnumber
      have hvalue := (spells_eq_some_iff.mp (h.last x hx v hv)).2
      exact (convert_eq_iff (hspelled x v hw).2).mp (hnumber.symm.trans hvalue.symm)
    · intro before footer after hlines hfooter v u hv hu
      obtain ⟨p, r, hcloses⟩ := closes_of_split haccepted hlines hfooter
      have hbefore := hfollowed hcloses.choose_spec.choose_spec.2.2.1
      have hcreated := (spells_eq_some_iff.mp (h.maxc before p r hcloses v hv)).2
      exact (hbefore.number_maxc hu).symm.trans (hcloses.created.1.2.symm.trans hcreated.symm)
  · intro h
    have hrange : ∀ (x : NumberSetting) v, x.Written v (buffers configRoom file) →
        x.InRange (x.value v) :=
      fun x v hw => (inRange_iff (hend.accepted x v hw)).mpr (h.tested x v hw)
    refine ⟨fun x v hw => ?_, fun x hx v hv => ?_, fun x hx hnone => ?_,
      fun before p r hcloses v hv => ?_, fun before p r hcloses v hv => ?_,
      hkept.mpr h.room⟩
    · exact ⟨x.value v, spells_eq_some_iff.mpr ⟨h.numeral x v hw, rfl⟩, hrange x v hw⟩
    · have hw := written_of_lastValue_balancer hx hv
      refine spells_eq_some_iff.mpr ⟨h.numeral x v hw, ?_⟩
      rw [hend.last x hx, hv]
      exact ((convert_eq_iff (hrange x v hw)).mpr (h.fits x hx v hv)).symm
    · rw [hend.last x hx, hnone]
      rfl
    · obtain ⟨footer, after, hlines, -, hbefore, -⟩ := id hcloses
      have hw := (written_of_lastValue hv).append (footer :: after)
      rw [← hlines] at hw
      refine spells_eq_some_iff.mpr ⟨h.numeral .port v hw, ?_⟩
      rw [hcloses.created.1.1, (hfollowed hbefore).port v hv]
      have hle := (hrange .port v hw).2 65535 rfl
      exact ((convert_eq_iff (hrange .port v hw)).mpr (lt_of_le_of_lt hle (by decide))).symm
    · obtain ⟨footer, after, hlines, hfooter, hbefore, -⟩ := id hcloses
      have hw := (written_of_lastValue hv).append (footer :: after)
      rw [← hlines] at hw
      obtain ⟨u, hu⟩ := exists_lastMaxc hv
      refine spells_eq_some_iff.mpr ⟨h.numeral .maxc v hw, ?_⟩
      rw [hcloses.created.1.2, (hfollowed hbefore).number_maxc hu]
      exact (h.maxc before footer after hlines hfooter v u hv hu).symm

/-- A file with numbers for the balancer and for a member, and with a clone. -/
def properFile : List UInt8 :=
  ascii "monitor_interval = 5\n[a]\nip = 10.0.0.1\nport = 8080\nmaxc = 100\n[/]\n" ++
    ascii "[b]\nip = 10.0.0.2\nclone = true\n[/]\n"

/-- What is written there. -/
theorem written_properFile {x : NumberSetting} {v : List UInt8}
    (h : x.Written v (buffers configRoom properFile)) :
    (x, v) ∈ [(NumberSetting.monitorInterval, ascii "5"), (.port, ascii "8080"),
      (.maxc, ascii "100")] := by
  have hlines : ∀ l ∈ buffers configRoom properFile, (x.valueFor l).all (fun v =>
      decide ((x, v) ∈ [(NumberSetting.monitorInterval, ascii "5"), (.port, ascii "8080"),
        (.maxc, ascii "100")])) = true := by
    cases x <;> decide
  obtain ⟨before, l, after, heq, -, hvalue⟩ := h
  have hl := hlines l (heq ▸ List.mem_append_right before List.mem_cons_self)
  rw [hvalue] at hl
  exact of_decide_eq_true hl

theorem writtenProperly_properFile : WrittenProperly (buffers configRoom properFile) := by
  have hcases : ∀ {x : NumberSetting} {v : List UInt8},
      x.Written v (buffers configRoom properFile) → (x = .monitorInterval ∧ v = ascii "5") ∨
        (x = .port ∧ v = ascii "8080") ∨ (x = .maxc ∧ v = ascii "100") := by
    intro x v hw
    simpa using written_properFile hw
  refine ⟨fun x v hw => ?_, fun x v hw => ?_, fun x hx v hv => ?_, ?_, Or.inl (by decide)⟩
  · rcases hcases hw with ⟨rfl, rfl⟩ | ⟨rfl, rfl⟩ | ⟨rfl, rfl⟩ <;> decide
  · rcases hcases hw with ⟨rfl, rfl⟩ | ⟨rfl, rfl⟩ | ⟨rfl, rfl⟩
    · exact ⟨id, by decide, by decide⟩
    · exact ⟨id, by decide, by decide⟩
    · exact ⟨show ¬ numberValue (ascii "100") = 0 by decide, by decide, by decide⟩
  · rcases hcases (written_of_lastValue_balancer hx hv) with ⟨rfl, rfl⟩ | ⟨rfl, -⟩ | ⟨rfl, -⟩
    · decide
    · exact absurd trivial hx
    · exact absurd trivial hx
  · intro before footer after hlines _ v u hv hu
    have hwritten : ∀ {x : NumberSetting} {w : List UInt8}, x.Written w before →
        x.Written w (buffers configRoom properFile) :=
      fun hw => hlines ▸ hw.append (footer :: after)
    have hv' : v = ascii "100" := by
      simpa using hcases (hwritten (written_of_lastValue hv))
    have hu' : u = ascii "100" := by
      rcases written_of_lastMaxc hu with hw | hw
      · simpa using hcases (hwritten hw)
      · simpa using hcases (hwritten hw)
    rw [hv', hu']
    decide

/-- Its numbers are stored. -/
theorem storedAsWritten_properFile : ∃ q,
    parseConfigFile sampleBuild properFile (.start sampleShared 0 []) = .ok q ∧
      StoredAsWritten sampleBuild (.start sampleShared 0 []) (buffers configRoom properFile) q :=
  ⟨_, rfl, (storedAsWritten_iff sampleBuild sampleShared_empty rfl).mpr writtenProperly_properFile⟩

/-- An interval that an `unsigned short` does not hold is accepted and truncated. -/
theorem interval_truncated : ∃ q,
    parseConfigFile sampleBuild (ascii "monitor_interval = 65541\n") (.start sampleShared 0 []) =
        .ok q ∧ q.shared.monitorInterval = 5 ∧
      ¬ StoredAsWritten sampleBuild (.start sampleShared 0 [])
        (buffers configRoom (ascii "monitor_interval = 65541\n")) q := by
  refine ⟨_, rfl, by decide, fun h => ?_⟩
  have hlast := h.last .monitorInterval id (ascii "65541") (by decide)
  exact absurd hlast (by decide)

end OctopusLB
